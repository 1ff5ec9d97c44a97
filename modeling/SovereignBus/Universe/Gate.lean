import SovereignBus.Library.Machine
import SovereignBus.Universe.Manifest

/-!
The gate of `seb/universe/src/compile_verify_merge.rs`.

* `typecheck`, `test`, `prove`, `review`, `merge`, `process`, `promote`: the functions of
  the source; the clock is the sequence of its readings.
* `Complete`: what the five checks ask of a manifest (`process_passed_iff`).
  `passed_proved_iff` says when its invariants are then proved.
* `Op`, `apply`: the operations on a manifest.
* `promotions_verified_iff`: the runs in which only complete proposals can be promoted.
-/

namespace SovereignBus

namespace Substrate

inductive CVMGateStep where
  | typecheck
  | test
  | prove
  | review
  | merge
  | promote

/-- `as_u8`. -/
def CVMGateStep.asU8 : CVMGateStep → UInt8
  | .typecheck => 1
  | .test => 2
  | .prove => 3
  | .review => 4
  | .merge => 5
  | .promote => 6

structure StepResult where
  step : UInt8
  passed : Bool
  message : String
  timestamp : DateTime
  durationMs : UInt64

structure CVMGateResult where
  artifactId : String
  steps : List StepResult
  passed : Bool
  completedAt : DateTime
  totalDurationMs : UInt64

/-- `(now - start).num_milliseconds() as u64`. -/
def milliseconds (start now : DateTime) : UInt64 :=
  UInt64.ofInt ((now - start).tdiv 1000000)

namespace CVMGate

/-! ### The checks -/

def typecheck (a : ArtifactManifest) : Bool :=
  if a.artifactId.isEmpty then false
  else if a.name.isEmpty then false
  else
    match a.sourcePath with
    | some path => !path.isEmpty
    | none => true

/-- Passes whether tests are recorded or not. -/
def test (a : ArtifactManifest) : Bool := !a.tests.isEmpty || true

def prove (a : ArtifactManifest) : Bool :=
  decide (a.getLeanProofs.length > 0) && a.verifyInvariantsCovered

def review (a : ArtifactManifest) : Bool :=
  if a.invariants.isEmpty then false
  else if a.docUrl.isNone && a.sourcePath.isNone then false
  else true

def merge (_ : ArtifactManifest) : Bool := true

/-- The steps of `process` with their outcomes and messages. -/
def checks (a : ArtifactManifest) : List (CVMGateStep × Bool × String) :=
  [(.typecheck, typecheck a, if typecheck a then "Typecheck passed" else "Typecheck failed"),
    (.test, test a, "Tests: " ++ toString a.tests.length ++ " tests executed"),
    (.prove, prove a, "Proofs: " ++ toString a.proofs.length ++ " proofs verified"),
    (.review, review a, if review a then "Design review passed" else "Design review failed"),
    (.merge, merge a, "Artifact merged into universe")]

/-- The steps from a reading of the clock on: each reads it three times, and the first
that fails is the last. -/
def runSteps (clock : ℕ → DateTime) :
    ℕ → List (CVMGateStep × Bool × String) → CVMGateResult → CVMGateResult
  | reading, [], result =>
      { result with
        passed := true
        completedAt := clock (reading + 1)
        totalDurationMs := milliseconds (clock 0) (clock reading) }
  | reading, (step, ok, message) :: rest, result =>
      let result :=
        { result with
          steps := result.steps ++ [⟨step.asU8, ok, message, clock (reading + 2),
            milliseconds (clock reading) (clock (reading + 1))⟩] }
      if ok then runSteps clock (reading + 3) rest result
      else
        { result with
          passed := false
          completedAt := clock (reading + 4)
          totalDurationMs := milliseconds (clock 0) (clock (reading + 3)) }

/-- `process`. -/
def process (clock : ℕ → DateTime) (a : ArtifactManifest) : CVMGateResult :=
  runSteps clock 2 (checks a) ⟨a.artifactId, [], false, clock 1, 0⟩

/-- `promote`: the promoted artifact or the message of the error. -/
def promote (now : DateTime) (a : ArtifactManifest) : Except String ArtifactManifest :=
  if a.tier.asU8 ≠ 2 then .error "Only T2 artifacts can be promoted"
  else if !a.cvmGatePassed then .error "Artifact must pass CVMGate before promotion"
  else .ok { a with tier := .t1, updatedAt := now }

/-! ### What the checks ask -/

/-- What the checks ask of a manifest. -/
structure Complete (a : ArtifactManifest) : Prop where
  artifactId : a.artifactId ≠ ""
  name : a.name ≠ ""
  sourcePath : a.sourcePath ≠ some ""
  leanProof : ∃ p ∈ a.proofs, p.language = "lean4"
  invariants : a.invariants ≠ []
  covered : ∀ inv ∈ a.invariants, inv.proofReference ≠ none
  documented : a.docUrl ≠ none ∨ a.sourcePath ≠ none

lemma typecheck_eq_true_iff {a : ArtifactManifest} :
    typecheck a = true ↔ a.artifactId ≠ "" ∧ a.name ≠ "" ∧ a.sourcePath ≠ some "" := by
  rw [typecheck]
  split_ifs with hid hname
  · simp_all
  · simp_all
  · cases a.sourcePath <;> simp_all

lemma prove_eq_true_iff {a : ArtifactManifest} :
    prove a = true ↔ (∃ p ∈ a.proofs, p.language = "lean4")
      ∧ ∀ inv ∈ a.invariants, inv.proofReference ≠ none := by
  simp [prove, ArtifactManifest.getLeanProofs, ArtifactManifest.verifyInvariantsCovered,
    List.length_pos_iff, Option.isSome_iff_ne_none]

lemma review_eq_true_iff {a : ArtifactManifest} :
    review a = true ↔ a.invariants ≠ [] ∧ (a.docUrl ≠ none ∨ a.sourcePath ≠ none) := by
  rw [review]
  split_ifs with hinv hdoc
  · simp_all
  · simp_all
  · cases hd : a.docUrl <;> simp_all

/-- The steps pass exactly if each of them does. -/
lemma runSteps_passed (clock : ℕ → DateTime) (reading : ℕ)
    (steps : List (CVMGateStep × Bool × String)) (result : CVMGateResult) :
    (runSteps clock reading steps result).passed = steps.all fun step => step.2.1 := by
  induction steps generalizing reading result with
  | nil => rfl
  | cons step steps ih =>
      obtain ⟨step, ok, message⟩ := step
      rw [runSteps]
      split_ifs with hok
      · rw [ih, List.all_cons, hok, Bool.true_and]
      · simp [hok]

lemma process_passed_iff {clock : ℕ → DateTime} {a : ArtifactManifest} :
    (process clock a).passed = true ↔ Complete a := by
  have hall : (checks a).all (fun step => step.2.1) = true
      ↔ typecheck a = true ∧ prove a = true ∧ review a = true := by
    simp [checks, test, merge]
  rw [process, runSteps_passed, hall, typecheck_eq_true_iff, prove_eq_true_iff, review_eq_true_iff]
  constructor
  · rintro ⟨⟨hid, hname, hpath⟩, ⟨hproof, hcovered⟩, hinv, hdoc⟩
    exact ⟨hid, hname, hpath, hproof, hinv, hcovered, hdoc⟩
  · intro h
    exact ⟨⟨h.artifactId, h.name, h.sourcePath⟩, ⟨h.leanProof, h.covered⟩, h.invariants,
      h.documented⟩

/-- A proposal that is marked as passed, which is all that a promotion asks. -/
def Promotable (a : ArtifactManifest) : Prop := a.tier = .t2 ∧ a.cvmGatePassed = true

lemma promote_eq_ok_iff {now : DateTime} {a promoted : ArtifactManifest} :
    promote now a = .ok promoted
      ↔ Promotable a ∧ promoted = { a with tier := .t1, updatedAt := now } := by
  rw [promote, Promotable]
  cases htier : a.tier with
  | t2 =>
      cases hpassed : a.cvmGatePassed with
      | true => simpa [ArtifactTier.asU8] using eq_comm
      | false => simp [ArtifactTier.asU8]
  | t0 => simp [ArtifactTier.asU8]
  | t1 => simp [ArtifactTier.asU8]
  | t3 => simp [ArtifactTier.asU8]

/-! ### What a passed gate proves -/

/-- The invariant refers to a proof, and no lean4 proof of the manifest has its id. -/
def Dangling (a : ArtifactManifest) (inv : Invariant) : Prop :=
  ∃ reference, inv.proofReference = some reference ∧ reference ∉ a.getLeanProofs

lemma mem_getLeanProofs {a : ArtifactManifest} {id : String} :
    id ∈ a.getLeanProofs ↔ ∃ p ∈ a.proofs, p.language = "lean4" ∧ p.id = id := by
  simp [ArtifactManifest.getLeanProofs, and_assoc]

/-- A passed gate means that the invariants are proved, exactly if the manifest is not complete
or no invariant of it is dangling. -/
theorem passed_proved_iff (clock : ℕ → DateTime) (a : ArtifactManifest) :
    ((process clock a).passed = true → a.invariants ≠ [] ∧ ∀ inv ∈ a.invariants,
        ∃ p ∈ a.proofs, p.language = "lean4" ∧ inv.proofReference = some p.id)
      ↔ ¬ Complete a ∨ ∀ inv ∈ a.invariants, ¬ Dangling a inv := by
  rw [process_passed_iff, imp_iff_not_or]
  by_cases hc : Complete a
  · refine or_congr_right ⟨fun ⟨_, hproved⟩ inv hinv => ?_, fun hlinked => ?_⟩
    · rintro ⟨reference, href, hnot⟩
      obtain ⟨p, hp, hlean, hid⟩ := hproved inv hinv
      exact hnot (mem_getLeanProofs.mpr ⟨p, hp, hlean, Option.some.inj (hid.symm.trans href)⟩)
    · refine ⟨hc.invariants, fun inv hinv => ?_⟩
      -- a complete manifest has a reference, and one that is not dangling has its proof
      obtain ⟨reference, href⟩ := Option.ne_none_iff_exists'.mp (hc.covered inv hinv)
      have hmem : reference ∈ a.getLeanProofs := by
        by_contra hnot
        exact hlinked inv hinv ⟨reference, href, hnot⟩
      obtain ⟨p, hp, hlean, rfl⟩ := mem_getLeanProofs.mp hmem
      exact ⟨p, hp, hlean, href⟩
  · exact iff_of_true (.inl hc) (.inl hc)

/-- A manifest whose one invariant refers to a proof that is not there, beside a proof of
something else. -/
def linkedElsewhere : ArtifactManifest :=
  ((ArtifactManifest.new "a" "A" "1.0.0" "rust" 2 0 0).withDocUrl "https://example.com"
    |>.addInvariant ⟨"safe", "", some "safe_proof"⟩).addProof ⟨"other_proof", "lean4", "abc123", 0⟩

theorem passed_unproved :
    (process (fun _ => 0) linkedElsewhere).passed = true
      ∧ ∃ inv ∈ linkedElsewhere.invariants, ∀ p ∈ linkedElsewhere.proofs,
        inv.proofReference ≠ some p.id := by
  refine ⟨process_passed_iff.mpr ?_, _, List.mem_cons_self, by decide⟩
  exact ⟨by decide, by decide, by decide, ⟨_, List.mem_cons_self, rfl⟩, List.cons_ne_nil _ _,
    by decide, .inl (by decide)⟩

end CVMGate

/-! ### Runs -/

/-- The operations on a manifest. -/
inductive Op where
  | addInvariant (invariant : Invariant)
  | addProof (proof : ProofMetadata)
  | addTest (test : TestMetadata)
  | withSourcePath (path : String)
  | withDocUrl (url : String)
  | computeHash (content : List UInt8) (now : DateTime)
  | markCvmPassed (now : DateTime)
  | process (clock : ℕ → DateTime)
  | promote (now : DateTime)

/-- What an operation answers. -/
inductive Answer where
  | manifest
  | result (r : CVMGateResult)
  | promoted (r : Except String ArtifactManifest)

/-- One operation. A promotion that succeeds goes on with the promoted artifact. -/
def apply (blake3Hex : List UInt8 → String) (a : ArtifactManifest) :
    Op → Answer × ArtifactManifest
  | .addInvariant invariant => (.manifest, a.addInvariant invariant)
  | .addProof proof => (.manifest, a.addProof proof)
  | .addTest test => (.manifest, a.addTest test)
  | .withSourcePath path => (.manifest, a.withSourcePath path)
  | .withDocUrl url => (.manifest, a.withDocUrl url)
  | .computeHash content now => (.manifest, a.computeHash blake3Hex content now)
  | .markCvmPassed now => (.manifest, a.markCvmPassed now)
  | .process clock => (.result (CVMGate.process clock a), a)
  | .promote now =>
      let r := CVMGate.promote now a
      (.promoted r,
        match r with
        | .ok promoted => promoted
        | .error _ => a)

/-- Whenever the artifact could be promoted, `process` reports that it has passed. -/
def Verified (a : ArtifactManifest) : Prop :=
  ∀ now promoted, CVMGate.promote now a = .ok promoted →
    ∀ clock, (CVMGate.process clock a).passed = true

/-- A proposal is marked though it is incomplete, or one that is marked is made
incomplete. -/
def Spoils (a : ArtifactManifest) (op : Op) : Prop :=
  a.tier = .t2 ∧
    ((∃ now, op = .markCvmPassed now ∧ ¬ CVMGate.Complete a)
      ∨ a.cvmGatePassed = true
        ∧ ((∃ invariant, op = .addInvariant invariant ∧ invariant.proofReference = none)
          ∨ op = .withSourcePath ""))

lemma verified_iff {a : ArtifactManifest} :
    Verified a ↔ (CVMGate.Promotable a → CVMGate.Complete a) := by
  constructor
  · intro h hpromotable
    have hpassed := h 0 _ (CVMGate.promote_eq_ok_iff.mpr ⟨hpromotable, rfl⟩) fun _ => 0
    exact CVMGate.process_passed_iff.mp hpassed
  · intro h now promoted hpromote clock
    exact CVMGate.process_passed_iff.mpr (h (CVMGate.promote_eq_ok_iff.mp hpromote).1)

/-! ### One operation -/

namespace CVMGate

variable {a : ArtifactManifest}

lemma Complete.addInvariant_iff (h : Complete a) (invariant : Invariant) :
    Complete (a.addInvariant invariant) ↔ invariant.proofReference ≠ none := by
  constructor
  · intro h'
    exact h'.covered invariant (by simp [ArtifactManifest.addInvariant])
  · intro hproof
    refine { h with invariants := by simp [ArtifactManifest.addInvariant], covered := ?_ }
    intro inv hinv
    rcases List.mem_append.mp hinv with hinv | hinv
    · exact h.covered inv hinv
    · obtain rfl := List.mem_singleton.mp hinv
      exact hproof

lemma Complete.withSourcePath_iff (h : Complete a) (path : String) :
    Complete (a.withSourcePath path) ↔ path ≠ "" := by
  constructor
  · intro h' hpath
    exact h'.sourcePath (congrArg some hpath)
  · intro hpath
    exact { h with
      sourcePath := fun heq => hpath (Option.some.inj heq)
      documented := .inr (by simp [ArtifactManifest.withSourcePath]) }

lemma Complete.addProof (h : Complete a) (proof : ProofMetadata) : Complete (a.addProof proof) := by
  obtain ⟨p, hp, hlean⟩ := h.leanProof
  exact { h with leanProof := ⟨p, List.mem_append_left _ hp, hlean⟩ }

lemma Complete.withDocUrl (h : Complete a) (url : String) : Complete (a.withDocUrl url) :=
  { h with documented := .inl (by simp [ArtifactManifest.withDocUrl]) }

end CVMGate

/-- What an operation that spoils nothing keeps, and no other. -/
lemma verified_apply_iff (blake3Hex : List UInt8 → String) (a : ArtifactManifest) (op : Op)
    (h : Verified a) : Verified (apply blake3Hex a op).2 ↔ ¬ Spoils a op := by
  rw [verified_iff] at h ⊢
  cases op with
  | addInvariant invariant =>
      have hspoils : Spoils a (.addInvariant invariant)
          ↔ CVMGate.Promotable a ∧ invariant.proofReference = none := by
        simp [Spoils, CVMGate.Promotable, and_assoc]
      rw [hspoils, not_and]
      exact forall_congr' fun hp => (h hp).addInvariant_iff invariant
  | withSourcePath path =>
      have hspoils : Spoils a (.withSourcePath path) ↔ CVMGate.Promotable a ∧ path = "" := by
        simp [Spoils, CVMGate.Promotable, and_assoc]
      rw [hspoils, not_and]
      exact forall_congr' fun hp => (h hp).withSourcePath_iff path
  | markCvmPassed now =>
      have hspoils : Spoils a (.markCvmPassed now) ↔ a.tier = .t2 ∧ ¬ CVMGate.Complete a := by
        simp [Spoils]
      rw [hspoils, not_and, not_not]
      exact ⟨fun hc htier => { hc ⟨htier, rfl⟩ with }, fun hc hp => { hc hp.1 with }⟩
  | addProof proof => exact iff_of_true (fun hp => (h hp).addProof proof) (by simp [Spoils])
  | addTest test => exact iff_of_true (fun hp => { h hp with }) (by simp [Spoils])
  | withDocUrl url => exact iff_of_true (fun hp => (h hp).withDocUrl url) (by simp [Spoils])
  | computeHash content now => exact iff_of_true (fun hp => { h hp with }) (by simp [Spoils])
  | process clock => exact iff_of_true h (by simp [Spoils])
  | promote now =>
      refine iff_of_true (fun hp => ?_) (by simp [Spoils])
      cases hr : CVMGate.promote now a with
      | error message =>
          simp only [apply, hr] at hp ⊢
          exact h hp
      | ok promoted =>
          obtain ⟨-, rfl⟩ := CVMGate.promote_eq_ok_iff.mp hr
          simp only [apply, hr] at hp
          exact absurd hp.1 (by simp)

/-! ### Whole runs -/

/-- The manifest after a run of operations on a new one. -/
def manifestAfter (blake3Hex : List UInt8 → String) (a : ArtifactManifest) (ops : List Op) :
    ArtifactManifest :=
  (Machine.exec (apply blake3Hex) a ops).2

/-- In a run on a new manifest, whatever could be promoted has passed, exactly if no
operation marks an incomplete proposal or makes a marked one incomplete. -/
theorem promotions_verified_iff (blake3Hex : List UInt8 → String)
    (artifactId name version language : String) (tier : UInt8) (createdAt updatedAt : DateTime)
    (ops : List Op) :
    (∀ ops', ops' <+: ops → Verified (manifestAfter blake3Hex
        (.new artifactId name version language tier createdAt updatedAt) ops'))
      ↔ ∀ ops' op, ops' ++ [op] <+: ops → ¬ Spoils (manifestAfter blake3Hex
        (.new artifactId name version language tier createdAt updatedAt) ops') op := by
  refine Machine.run_iff ?_ (verified_apply_iff blake3Hex) ops
  rw [verified_iff]
  intro hp
  exact absurd hp.2 (by simp [ArtifactManifest.new])

/-- A proposal that is marked without a check is promoted, and `process` refuses it. -/
theorem promoted_unverified :
    ¬ ∀ (blake3Hex : List UInt8 → String) (artifactId name version language : String)
      (tier : UInt8) (createdAt updatedAt : DateTime) (ops : List Op),
      Verified (manifestAfter blake3Hex
        (.new artifactId name version language tier createdAt updatedAt) ops) := by
  intro hall
  have h := verified_iff.mp (hall (fun _ => "") "a" "A" "1.0.0" "rust" 2 0 0 [.markCvmPassed 1])
  exact (h ⟨rfl, rfl⟩).invariants rfl

end Substrate

end SovereignBus
