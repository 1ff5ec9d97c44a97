import SovereignBus.Bridges.Pnp

/-!
The running sum of `seb/runtime/src/seb_pnp_bridge.erl`, over any numbers and any kernel.

* `sealEntry`: the function of the source. On floats and with the WAL NIF it is the one of
  `Pnp` (`sealEntry_floats`); `rationals` are numbers that are added exactly.
* `history`: the entries of a run that came to the kernel, with its answers. `sealedSum` is the
  sum over those that were sealed, and `Crossed` says that it went below the threshold when an
  attack was sealed.
* `Accounted`: the sum of the state is the sealed sum, and the run halts when it is crossed.
  `runs_accounted_iff` says of which runs this holds.
-/

namespace SovereignBus

namespace Bridges

namespace Accounting

open WalNif

/-- The operations on numbers: `0.0`, a sum, which may fail, `X < 0`, `X < ?ATTACK_THRESHOLD`,
and the 64 bits of a number. -/
structure Arithmetic (R : Type) where
  zero : R
  add : R → R → Option R
  negative : R → Bool
  belowThreshold : R → Bool
  littleFloat : R → List UInt8

/-- The calls of the kernel. Any answers are given to those of `append_event`. -/
structure Kernel (K : Type) where
  appendEvent : K → Binaries → Reply × K
  getTipHash : K → List UInt8
  eventsSealed : K → UInt64

/-- The fields of a decoded entry that are used. -/
structure Entry (R : Type) where
  universeSumDelta : Option R
  problemId : Option (List UInt8)

/-- `kernel` and `universe_sum` of `#state`, and how often the clock was read. -/
structure Sealing (K R : Type) where
  kernel : K
  universeSum : R
  readings : ℕ

/-- The ends of the process. -/
inductive Exit (R : Type) where
  | badarith
  | caseClause
  | chainIntegrityFailure (sum : R)
  | attackThresholdExceeded (sum : R)

section Source

variable {K R : Type} (ar : Arithmetic R) (nif : Kernel K) (env : Env)

def Entry.delta (entry : Entry R) : R := entry.universeSumDelta.getD ar.zero

/-- `ATTACK_DETECTED` or `PROBLEM_SOLVED`. -/
def eventType (delta : R) : ℤ := if ar.negative delta then 0x0401 else 0x0400

/-- `build_payload`. -/
def buildPayload (systemTime : ℤ) (entry : Entry R) (delta : R) : List UInt8 :=
  littleUnsigned 8 (eventType ar delta)
    ++ littleUnsigned 8 systemTime
    ++ env.sha256 (entry.problemId.getD [])
    ++ ar.littleFloat delta
    ++ zeros 8

/-- What `seal_entry` appends. -/
def binaries (payloadTime headerTime : ℤ) (entry : Entry R) (prevTip : List UInt8) : Binaries :=
  let payload := buildPayload ar env payloadTime entry (entry.delta ar)
  { header := Pnp.buildHeader headerTime (eventType ar (entry.delta ar)) payload.length
    payload := payload
    footer := buildFooter prevTip }

/-- The call of `append_event` for an entry. -/
def append (entry : Entry R) (s : Sealing K R) : Reply × K :=
  nif.appendEvent s.kernel
    (binaries ar env (env.systemTime s.readings) (env.systemTime (s.readings + 1)) entry
      (nif.getTipHash s.kernel))

/-- `verify_chain`, which only counts the events. -/
def Kernel.verifyChain (kernel : K) : Except Reason UInt64 := .ok (nif.eventsSealed kernel)

/-- `handle_attack`. -/
def handleAttack (kernel : K) (sum : R) : Except (Exit R) Unit :=
  match nif.verifyChain kernel with
  | .error _ => .error (.chainIntegrityFailure sum)
  | .ok _ => if ar.belowThreshold sum then .error (.attackThresholdExceeded sum) else .ok ()

/-- `seal_entry`. The new sum is kept whatever the answer is. -/
def sealEntry (entry : Entry R) (s : Sealing K R) : Except (Exit R) (Sealing K R) :=
  match ar.add s.universeSum (entry.delta ar) with
  | none => .error .badarith
  | some newSum =>
      let (answer, kernel) := append ar nif env entry s
      let s' : Sealing K R := ⟨kernel, newSum, s.readings + 2⟩
      match answer with
      | .ok _ =>
          if ar.negative (entry.delta ar) then
            match handleAttack ar nif kernel newSum with
            | .error exit => .error exit
            | .ok () => .ok s'
          else .ok s'
      | .err _ => .ok s'
      | _ => .error .caseClause

/-- The state of `init`. -/
def start (kernel : K) : Sealing K R := ⟨kernel, ar.zero, 0⟩

/-- The entries of a run that came to the kernel, with its answers. -/
def history : List (Entry R) → Sealing K R → List (Entry R × Reply)
  | [], _ => []
  | entry :: entries, s =>
      (entry, (append ar nif env entry s).1) ::
        match sealEntry ar nif env entry s with
        | .error _ => []
        | .ok s' => history entries s'

end Source

/-! ### Floats -/

/-- Floats, whose sum has to be finite. -/
def floats : Arithmetic Float where
  zero := 0.0
  add := Pnp.add
  negative a := a < 0
  belowThreshold a := a < Pnp.attackThreshold
  littleFloat := Bridges.littleFloat

/-- The WAL NIF. -/
def wal : Kernel WalHandle where
  appendEvent := Bridges.appendEvent
  getTipHash := Bridges.getTipHash
  eventsSealed kernel := kernel.eventsSealed

def Exit.toPnp : Exit Float → Pnp.Exit
  | .badarith => .badarith
  | .caseClause => .caseClause
  | .chainIntegrityFailure sum => .chainIntegrityFailure sum
  | .attackThresholdExceeded sum => .attackThresholdExceeded sum

def Sealing.toPnp (s : Sealing WalHandle Float) : Pnp.Sealing :=
  ⟨s.kernel, s.universeSum, s.readings⟩

/-- On floats and with the WAL NIF, an entry is sealed as the source does it. -/
theorem sealEntry_floats (env : Env) (entry : Entry Float) (s : Sealing WalHandle Float) :
    ((sealEntry floats wal env entry s).map Sealing.toPnp).mapError Exit.toPnp
      = Pnp.sealEntry env ⟨entry.universeSumDelta, entry.problemId⟩ s.toPnp := by
  have hevent (delta : Float) : eventType floats delta = Pnp.eventType delta := by
    simp only [eventType, Pnp.eventType, floats, decide_eq_true_eq]
  have hbinaries (payloadTime headerTime : ℤ) (prevTip : List UInt8) :
      binaries floats env payloadTime headerTime entry prevTip
        = Pnp.binaries env.sha256 payloadTime headerTime
          ⟨entry.universeSumDelta, entry.problemId⟩ prevTip := by
    simp only [binaries, buildPayload, hevent]
    rfl
  have hsum : Pnp.add s.toPnp.universeSum
      (Pnp.Entry.delta ⟨entry.universeSumDelta, entry.problemId⟩)
      = floats.add s.universeSum (entry.delta floats) := rfl
  rcases hcall : append floats wal env entry s with ⟨answer, kernel⟩
  have hcall' : Bridges.appendEvent s.toPnp.kernel
      (Pnp.binaries env.sha256 (env.systemTime s.toPnp.readings)
        (env.systemTime (s.toPnp.readings + 1)) ⟨entry.universeSumDelta, entry.problemId⟩
        (Bridges.getTipHash s.toPnp.kernel)) = (answer, kernel) := by
    rw [append, hbinaries] at hcall
    exact hcall
  rw [sealEntry, Pnp.sealEntry, hcall, hcall', hsum]
  cases floats.add s.universeSum (entry.delta floats) with
  | none => rfl
  | some newSum =>
      cases answer with
      | badarg => rfl
      | error => rfl
      | err reason => rfl
      | ok n =>
          have hattack : (handleAttack floats wal kernel newSum).mapError Exit.toPnp
              = Pnp.handleAttack kernel newSum := by
            simp only [handleAttack, Kernel.verifyChain, Pnp.handleAttack, Bridges.verifyChain,
              floats, decide_eq_true_eq]
            split_ifs <;> rfl
          have hnegative : floats.negative (entry.delta floats) = true
              ↔ Pnp.Entry.delta ⟨entry.universeSumDelta, entry.problemId⟩ < 0 := decide_eq_true_iff
          simp only [← hattack, ← hnegative]
          split_ifs
          · cases handleAttack floats wal kernel newSum <;> rfl
          · rfl

/-! ### Exact numbers -/

/-- Numbers that are added exactly, however they are written. -/
def rationals (littleFloat : ℚ → List UInt8) : Arithmetic ℚ where
  zero := 0
  add a b := some (a + b)
  negative a := a < 0
  belowThreshold a := a < -1
  littleFloat := littleFloat

section Run

variable {K : Type} (littleFloat : ℚ → List UInt8) (nif : Kernel K) (env : Env)

/-- The delta of an entry. -/
def Entry.exactDelta (entry : Entry ℚ) : ℚ := entry.universeSumDelta.getD 0

/-- The event was sealed. -/
def Sealed (answer : Reply) : Prop := ∃ offset, answer = .ok offset

instance (answer : Reply) : Decidable (Sealed answer) :=
  match answer with
  | .ok offset => isTrue ⟨offset, rfl⟩
  | .badarg => isFalse (by rintro ⟨_, ⟨⟩⟩)
  | .error => isFalse (by rintro ⟨_, ⟨⟩⟩)
  | .err _ => isFalse (by rintro ⟨_, ⟨⟩⟩)

/-- The event was refused. -/
def Refused (answer : Reply) : Prop := ∃ reason, answer = .err reason

/-- The sum of the deltas of the entries that were sealed. -/
def sealedSum (calls : List (Entry ℚ × Reply)) : ℚ :=
  ((calls.filter fun c => Sealed c.2).map fun c => c.1.exactDelta).sum

/-- An entry with a negative delta was sealed, and the sum was below the threshold then. -/
def Crossed (sum : ℚ) (calls : List (Entry ℚ × Reply)) : Prop :=
  ∃ pre c post, calls = pre ++ c :: post ∧ Sealed c.2 ∧ c.1.exactDelta < 0
    ∧ sum + sealedSum (pre ++ [c]) < -1

/-- The entries of a run, sealed one after another. -/
def run (entries : List (Entry ℚ)) (s : Sealing K ℚ) : Except (Exit ℚ) (Sealing K ℚ) :=
  sealAll (sealEntry (rationals littleFloat) nif env) entries s

/-- The calls of a run. -/
def calls (entries : List (Entry ℚ)) (s : Sealing K ℚ) : List (Entry ℚ × Reply) :=
  history (rationals littleFloat) nif env entries s

/-- The sum is the sealed sum, and the run halts when it crosses the threshold. -/
structure Accounted (entries : List (Entry ℚ)) (s : Sealing K ℚ) : Prop where
  sum : ∀ s', run littleFloat nif env entries s = .ok s' →
    s'.universeSum = s.universeSum + sealedSum (calls littleFloat nif env entries s)
  halts : (∃ sum, run littleFloat nif env entries s = .error (.attackThresholdExceeded sum))
    ↔ Crossed s.universeSum (calls littleFloat nif env entries s)

variable {littleFloat nif env}

@[simp] lemma sealedSum_nil : sealedSum [] = 0 := rfl

lemma sealedSum_cons (c : Entry ℚ × Reply) (calls : List (Entry ℚ × Reply)) :
    sealedSum (c :: calls) = (if Sealed c.2 then c.1.exactDelta else 0) + sealedSum calls := by
  rw [sealedSum, List.filter_cons]
  by_cases h : Sealed c.2
  · rw [if_pos (decide_eq_true h), if_pos h, List.map_cons, List.sum_cons, sealedSum]
  · rw [if_neg (mt of_decide_eq_true h), if_neg h, zero_add, sealedSum]

lemma not_crossed_nil (sum : ℚ) : ¬Crossed sum [] := by
  rintro ⟨pre, c, post, h, -⟩
  exact List.append_ne_nil_of_right_ne_nil pre (List.cons_ne_nil c post) h.symm

/-- The first call crosses the threshold, or those behind it do. -/
lemma crossed_cons {sum : ℚ} {c : Entry ℚ × Reply} {calls : List (Entry ℚ × Reply)} :
    Crossed sum (c :: calls)
      ↔ (Sealed c.2 ∧ c.1.exactDelta < 0 ∧ sum + c.1.exactDelta < -1)
        ∨ Crossed (sum + if Sealed c.2 then c.1.exactDelta else 0) calls := by
  constructor
  · rintro ⟨pre, c', post, heq, hsealed, hneg, hlt⟩
    cases pre with
    | nil =>
        obtain ⟨rfl, rfl⟩ := List.cons.inj heq
        rw [List.nil_append, sealedSum_cons, if_pos hsealed, sealedSum_nil, add_zero] at hlt
        exact .inl ⟨hsealed, hneg, hlt⟩
    | cons d pre =>
        obtain ⟨rfl, rfl⟩ := List.cons.inj heq
        rw [List.cons_append, sealedSum_cons, ← add_assoc] at hlt
        exact .inr ⟨pre, c', post, rfl, hsealed, hneg, hlt⟩
  · rintro (⟨hsealed, hneg, hlt⟩ | ⟨pre, c', post, rfl, hsealed, hneg, hlt⟩)
    · refine ⟨[], c, calls, rfl, hsealed, hneg, ?_⟩
      rwa [List.nil_append, sealedSum_cons, if_pos hsealed, sealedSum_nil, add_zero]
    · refine ⟨c :: pre, c', post, rfl, hsealed, hneg, ?_⟩
      rwa [List.cons_append, sealedSum_cons, ← add_assoc]

/-! ### One entry -/

variable {entry : Entry ℚ} {s : Sealing K ℚ}

/-- The state behind an entry that does not end the process. -/
def after (littleFloat : ℚ → List UInt8) (nif : Kernel K) (env : Env) (entry : Entry ℚ)
    (s : Sealing K ℚ) : Sealing K ℚ :=
  ⟨(append (rationals littleFloat) nif env entry s).2, s.universeSum + entry.exactDelta,
    s.readings + 2⟩

lemma add_rationals :
    (rationals littleFloat).add s.universeSum (entry.delta (rationals littleFloat))
      = some (s.universeSum + entry.exactDelta) := rfl

/-- An entry that is refused moves the sum. -/
lemma sealEntry_refused (h : Refused (append (rationals littleFloat) nif env entry s).1) :
    sealEntry (rationals littleFloat) nif env entry s
      = .ok (after littleFloat nif env entry s) := by
  obtain ⟨reason, h⟩ := h
  have hcall : append (rationals littleFloat) nif env entry s
      = (.err reason, (append (rationals littleFloat) nif env entry s).2) := Prod.ext h rfl
  rw [sealEntry, add_rationals, hcall]
  rfl

/-- An entry that is sealed halts the run if it crosses the threshold. -/
lemma sealEntry_sealed (h : Sealed (append (rationals littleFloat) nif env entry s).1) :
    sealEntry (rationals littleFloat) nif env entry s
      = if entry.exactDelta < 0 ∧ s.universeSum + entry.exactDelta < -1 then
          .error (.attackThresholdExceeded (s.universeSum + entry.exactDelta))
        else .ok (after littleFloat nif env entry s) := by
  obtain ⟨offset, h⟩ := h
  have hnegative : (rationals littleFloat).negative (entry.delta (rationals littleFloat)) = true
      ↔ entry.exactDelta < 0 := decide_eq_true_iff
  have hbelow : (rationals littleFloat).belowThreshold (s.universeSum + entry.exactDelta) = true
      ↔ s.universeSum + entry.exactDelta < -1 := decide_eq_true_iff
  have hcall : append (rationals littleFloat) nif env entry s
      = (.ok offset, (append (rationals littleFloat) nif env entry s).2) := Prod.ext h rfl
  rw [sealEntry, add_rationals, hcall]
  simp only [handleAttack, Kernel.verifyChain, hnegative, hbelow]
  by_cases hneg : entry.exactDelta < 0
  · by_cases hlt : s.universeSum + entry.exactDelta < -1
    · simp only [hneg, hlt, and_self, if_true]
    · simp only [hneg, hlt, and_false, if_true, if_false]
      rfl
  · simp only [hneg, false_and, if_false]
    rfl

/-- The other answers have no clause. -/
lemma sealEntry_other (hsealed : ¬Sealed (append (rationals littleFloat) nif env entry s).1)
    (hrefused : ¬Refused (append (rationals littleFloat) nif env entry s).1) :
    sealEntry (rationals littleFloat) nif env entry s = .error .caseClause := by
  rw [sealEntry, add_rationals]
  rcases hcall : append (rationals littleFloat) nif env entry s with ⟨answer, kernel⟩
  rw [hcall] at hsealed hrefused
  cases answer with
  | badarg => rfl
  | error => rfl
  | err reason => exact absurd ⟨reason, rfl⟩ hrefused
  | ok offset => exact absurd ⟨offset, rfl⟩ hsealed

/-! ### Runs -/

variable {entries : List (Entry ℚ)}

/-- The answer to an entry. -/
abbrev answer (littleFloat : ℚ → List UInt8) (nif : Kernel K) (env : Env) (entry : Entry ℚ)
    (s : Sealing K ℚ) : Reply := (append (rationals littleFloat) nif env entry s).1

lemma run_cons_ok {s' : Sealing K ℚ}
    (h : sealEntry (rationals littleFloat) nif env entry s = .ok s') :
    run littleFloat nif env (entry :: entries) s = run littleFloat nif env entries s'
      ∧ calls littleFloat nif env (entry :: entries) s
        = (entry, answer littleFloat nif env entry s) :: calls littleFloat nif env entries s' := by
  constructor
  · rw [run, sealAll, List.foldlM_cons, h]
    rfl
  · rw [calls, history, h]
    rfl

lemma run_cons_error {exit : Exit ℚ}
    (h : sealEntry (rationals littleFloat) nif env entry s = .error exit) :
    run littleFloat nif env (entry :: entries) s = .error exit
      ∧ calls littleFloat nif env (entry :: entries) s
        = [(entry, answer littleFloat nif env entry s)] := by
  constructor
  · rw [run, sealAll, List.foldlM_cons, h]
    rfl
  · rw [calls, history, h]

lemma sealed_or_refused (answer : Reply) :
    Sealed answer ∨ Refused answer ∨ ¬Sealed answer ∧ ¬Refused answer := by
  by_cases hsealed : Sealed answer
  · exact .inl hsealed
  · by_cases hrefused : Refused answer
    · exact .inr (.inl hrefused)
    · exact .inr (.inr ⟨hsealed, hrefused⟩)

lemma Refused.not_sealed {answer : Reply} (h : Refused answer) : ¬Sealed answer := by
  rintro ⟨offset, rfl⟩
  obtain ⟨reason, h⟩ := h
  cases h

lemma accounted_nil (s : Sealing K ℚ) : Accounted littleFloat nif env [] s := by
  refine ⟨fun s' h => ?_, iff_of_false (fun ⟨sum, h⟩ => ?_) (not_crossed_nil _)⟩
  · obtain rfl : s = s' := Except.ok.inj h
    exact (add_zero _).symm
  · cases h

/-- An entry that ends the run. -/
lemma accounted_cons_error {exit : Exit ℚ}
    (hstep : sealEntry (rationals littleFloat) nif env entry s = .error exit)
    (hcross : (∃ sum, exit = .attackThresholdExceeded sum)
      ↔ Sealed (answer littleFloat nif env entry s) ∧ entry.exactDelta < 0
        ∧ s.universeSum + entry.exactDelta < -1) :
    Accounted littleFloat nif env (entry :: entries) s := by
  obtain ⟨hrun, hcalls⟩ := @run_cons_error _ _ _ _ _ _ entries _ hstep
  constructor
  · intro s' h
    rw [hrun] at h
    cases h
  · rw [hrun, hcalls, crossed_cons, or_iff_left (not_crossed_nil _), ← hcross]
    simp only [Except.error.injEq]

/-- An entry that the run goes on behind, with the sum that was sealed. -/
lemma accounted_cons_ok {s' : Sealing K ℚ}
    (hstep : sealEntry (rationals littleFloat) nif env entry s = .ok s')
    (hsum : s'.universeSum = s.universeSum
      + if Sealed (answer littleFloat nif env entry s) then entry.exactDelta else 0)
    (hcross : ¬(Sealed (answer littleFloat nif env entry s) ∧ entry.exactDelta < 0
      ∧ s.universeSum + entry.exactDelta < -1))
    (h : Accounted littleFloat nif env entries s') :
    Accounted littleFloat nif env (entry :: entries) s := by
  obtain ⟨hrun, hcalls⟩ := @run_cons_ok _ _ _ _ _ _ entries _ hstep
  constructor
  · intro s'' hend
    rw [hrun] at hend
    rw [h.sum s'' hend, hcalls, sealedSum_cons, ← add_assoc, hsum]
  · rw [hrun, hcalls, crossed_cons, or_iff_right hcross, ← hsum]
    exact h.halts

/-- A run whose refused entries have no delta is accounted for. -/
lemma accounted_of (entries : List (Entry ℚ)) :
    ∀ s : Sealing K ℚ, (∀ c ∈ calls littleFloat nif env entries s,
      Refused c.2 → c.1.exactDelta = 0) → Accounted littleFloat nif env entries s := by
  induction entries with
  | nil => exact fun s _ => accounted_nil s
  | cons entry entries ih =>
      intro s hzero
      -- What the kernel answers decides whether the run goes on.
      rcases sealed_or_refused (answer littleFloat nif env entry s) with
        hsealed | hrefused | ⟨hsealed, hrefused⟩
      · have hstep := sealEntry_sealed hsealed
        split_ifs at hstep with hcross
        · exact accounted_cons_error hstep (iff_of_true ⟨_, rfl⟩ ⟨hsealed, hcross⟩)
        · rw [(run_cons_ok hstep).2] at hzero
          exact accounted_cons_ok hstep (by rw [if_pos hsealed]; rfl) (fun h => hcross h.2)
            (ih _ fun c hc => hzero c (List.mem_cons_of_mem _ hc))
      · have hstep := sealEntry_refused hrefused
        rw [(run_cons_ok hstep).2] at hzero
        have hdelta : entry.exactDelta = 0 := hzero _ List.mem_cons_self hrefused
        exact accounted_cons_ok hstep
          (by rw [if_neg hrefused.not_sealed, after, hdelta])
          (fun h => hrefused.not_sealed h.1)
          (ih _ fun c hc => hzero c (List.mem_cons_of_mem _ hc))
      · refine accounted_cons_error (sealEntry_other hsealed hrefused)
          (iff_of_false (fun ⟨sum, h⟩ => ?_) fun h => hsealed h.1)
        cases h

/-- The calls of the beginning of a run are the first calls of the run. -/
lemma calls_mono {pre : List (Entry ℚ)} (h : pre <+: entries) :
    ∀ s : Sealing K ℚ, calls littleFloat nif env pre s <+: calls littleFloat nif env entries s := by
  obtain ⟨rest, rfl⟩ := h
  induction pre with
  | nil => exact fun s => List.nil_prefix
  | cons entry pre ih =>
      intro s
      rw [List.cons_append]
      cases hstep : sealEntry (rationals littleFloat) nif env entry s with
      | error exit => rw [(run_cons_error hstep).2, (run_cons_error hstep).2]
      | ok s' =>
          rw [(run_cons_ok hstep).2, (run_cons_ok hstep).2]
          exact List.prefix_cons_inj _ |>.mpr (ih s')

/-- Where the sum is right after every entry, the entries that were refused have no delta. -/
lemma zero_of_sums (entries : List (Entry ℚ)) : ∀ s : Sealing K ℚ,
    (∀ pre, pre <+: entries → ∀ s', run littleFloat nif env pre s = .ok s' →
      s'.universeSum = s.universeSum + sealedSum (calls littleFloat nif env pre s)) →
    ∀ c ∈ calls littleFloat nif env entries s, Refused c.2 → c.1.exactDelta = 0 := by
  induction entries with
  | nil => exact fun s _ c hc => absurd hc List.not_mem_nil
  | cons entry entries ih =>
      intro s hsums c hc hrefused
      cases hstep : sealEntry (rationals littleFloat) nif env entry s with
      | error exit =>
          rw [(run_cons_error hstep).2] at hc
          obtain rfl := List.mem_singleton.mp hc
          rw [sealEntry_refused hrefused] at hstep
          cases hstep
      | ok s' =>
          have hfirst : s'.universeSum = s.universeSum
              + if Sealed (answer littleFloat nif env entry s) then entry.exactDelta else 0 := by
            obtain ⟨hrun, hcalls⟩ := @run_cons_ok _ _ _ _ _ _ [] _ hstep
            have hsum := hsums [entry] (List.prefix_append [entry] entries) s' hrun
            rw [hcalls, sealedSum_cons] at hsum
            exact hsum.trans (congrArg _ (add_zero _))
          rw [(run_cons_ok hstep).2] at hc
          rcases List.mem_cons.mp hc with rfl | hc
          · rw [sealEntry_refused hrefused] at hstep
            obtain rfl := Except.ok.inj hstep
            rw [if_neg hrefused.not_sealed] at hfirst
            exact add_left_cancel hfirst
          · refine ih s' (fun pre hpre s'' hrun => ?_) c hc hrefused
            have hsum := hsums (entry :: pre) (List.prefix_cons_inj _ |>.mpr hpre) s''
              ((run_cons_ok hstep).1.trans hrun)
            rw [(run_cons_ok hstep).2, sealedSum_cons, ← add_assoc, ← hfirst] at hsum
            exact hsum

variable (littleFloat nif env) in
/-- The beginnings of a run are all accounted for exactly if no entry with a delta is refused. -/
theorem runs_accounted_iff (kernel : K) (entries : List (Entry ℚ)) :
    (∀ pre, pre <+: entries →
        Accounted littleFloat nif env pre (start (rationals littleFloat) kernel))
      ↔ ∀ c ∈ calls littleFloat nif env entries (start (rationals littleFloat) kernel),
        Refused c.2 → c.1.exactDelta = 0 := by
  constructor
  · exact fun h => zero_of_sums entries _ fun pre hpre => (h pre hpre).sum
  · exact fun h pre hpre => accounted_of pre _ fun c hc => h c ((calls_mono hpre _).subset hc)

end Run

/-- A kernel whose answers are given. -/
def scripted : Kernel (List Reply) where
  appendEvent answers _ := (answers.headD .badarg, answers.tail)
  getTipHash _ := zeros 32
  eventsSealed _ := 0

def attack (delta : ℚ) : Entry ℚ := ⟨some delta, none⟩

/-- The digests and the times do not matter here. -/
def silent : Env := ⟨fun _ => zeros 32, fun _ => 0⟩

/-- The first event is refused and the second sealed. -/
def scriptedStart : Sealing (List Reply) ℚ :=
  start (rationals fun _ => zeros 8) [.err .invalidHeader, .ok 0]

/-- An attack is refused and a smaller one sealed: the sum moves with the first, and the run halts
although what was sealed is not below the threshold. -/
theorem refused_attack_halts :
    (∃ s, run (fun _ => zeros 8) scripted silent [attack (-1)] scriptedStart = .ok s
        ∧ s.universeSum = -1
        ∧ sealedSum (calls (fun _ => zeros 8) scripted silent [attack (-1)] scriptedStart) = 0)
      ∧ (∃ sum, run (fun _ => zeros 8) scripted silent [attack (-1), attack (-1 / 2)] scriptedStart
        = .error (.attackThresholdExceeded sum))
      ∧ ¬Crossed 0 (calls (fun _ => zeros 8) scripted silent [attack (-1), attack (-1 / 2)]
        scriptedStart) := by
  have hrefused : Refused (answer (fun _ => zeros 8) scripted silent (attack (-1)) scriptedStart) :=
    ⟨.invalidHeader, rfl⟩
  set s := after (fun _ => zeros 8) scripted silent (attack (-1)) scriptedStart with hs
  have hsum : s.universeSum = -1 := zero_add _
  have hsealed : Sealed (answer (fun _ => zeros 8) scripted silent (attack (-1 / 2)) s) :=
    ⟨0, rfl⟩
  have hhalt := sealEntry_sealed hsealed
  have hdelta : (attack (-1 / 2)).exactDelta = -1 / 2 := rfl
  rw [if_pos (by rw [hsum, hdelta]; norm_num)] at hhalt
  have hfirst := sealEntry_refused hrefused
  refine ⟨⟨s, (run_cons_ok hfirst).1, hsum, ?_⟩, ⟨s.universeSum + -1 / 2, ?_⟩, ?_⟩
  · rw [(run_cons_ok hfirst).2, sealedSum_cons, if_neg hrefused.not_sealed]
    exact zero_add _
  · rw [(run_cons_ok hfirst).1]
    exact (run_cons_error hhalt).1
  · rw [(run_cons_ok hfirst).2, (run_cons_error hhalt).2, crossed_cons, crossed_cons,
      if_neg hrefused.not_sealed, add_zero]
    rintro (⟨h, -⟩ | ⟨-, -, h⟩ | h)
    · exact hrefused.not_sealed h
    · rw [hdelta] at h
      norm_num at h
    · exact not_crossed_nil _ h

end Accounting

end Bridges

end SovereignBus
