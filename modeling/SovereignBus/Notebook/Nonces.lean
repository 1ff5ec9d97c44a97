import SovereignBus.Library.Answers

/-!
The two checks for replayed nonces of `frontend/prolog/notebook-engine.pl`.

* `replayAttempt`, `noReplays`: the obligation of the release gate, which compares counters.
* `hasDuplicatePairs`, `assertNoncesUnique`: the assertion, which looks for a pair of a nonce
  and a context that occurs twice.
* `NoncesUnique`, `Detected`: no nonce occurs in two records, and both checks find just that.
* `noReplays_iff`, `assertNoncesUnique_iff`: what either check succeeds for.
* `nonces_detected_iff`: both are right exactly if no nonce occurs twice, or one does in one
  context with two counters.
-/

namespace SovereignBus

namespace Notebook

namespace Nonces

/-- `nonce_record`. -/
structure NonceRecord where
  nonce : String
  context : String
  monotonicCounter : ℤ
  timestamp : ℤ

/-- `nonce_record` with its first two arguments bound. -/
def nonceRecord (records : List NonceRecord) (nonce context : String) : Answers NonceRecord :=
  .ofList (records.filter fun r => nonce == r.nonce && context == r.context)

def replayAttempt (records : List NonceRecord) (nonce context : String) (counter : ℤ) :
    Answers Unit := do
  let r ← nonceRecord records nonce context
  if counter < r.monotonicCounter then return () else .ofList []

/-- The third obligation of `all_obligations_discharged`. -/
def noReplays (records : List NonceRecord) : Answers Unit :=
  Answers.forAll (.ofList records) fun r =>
    (replayAttempt records r.nonce r.context r.monotonicCounter).naf

/-- `append` with its last argument bound and an element to begin its second. -/
def splits {A : Type} : List A → List (List A × A × List A)
  | [] => []
  | x :: xs => ([], x, xs) :: (splits xs).map fun s => (x :: s.1, s.2)

def member {A : Type} [DecidableEq A] (x : A) (xs : List A) : Answers A :=
  .ofList (xs.filter (x == ·))

def hasDuplicatePairs {A : Type} [DecidableEq A] (pairs : List A) : Answers A := do
  let (left, h, right) ← .ofList (splits pairs)
  (member h left).or (member h right)

/-- The pairs that `findall` collects. -/
def nonceContexts (records : List NonceRecord) : List (String × String) :=
  records.map fun r => (r.nonce, r.context)

def assertNoncesUnique (records : List NonceRecord) : Answers Unit :=
  (hasDuplicatePairs (nonceContexts records)).naf

/-! ### What the checks are for -/

/-- No nonce occurs in two records. -/
def NoncesUnique (records : List NonceRecord) : Prop :=
  records.Pairwise fun r r' => r.nonce ≠ r'.nonce

instance (records : List NonceRecord) : Decidable (NoncesUnique records) :=
  inferInstanceAs (Decidable (records.Pairwise fun r r' => r.nonce ≠ r'.nonce))

/-- Both checks succeed exactly if no nonce occurs in two records. -/
structure Detected (records : List NonceRecord) : Prop where
  noReplays : (noReplays records).first = some (some ()) ↔ NoncesUnique records
  assertNoncesUnique : (assertNoncesUnique records).first = some (some ()) ↔ NoncesUnique records

/-- A nonce occurs in one context with two counters. -/
def Recounted (records : List NonceRecord) : Prop :=
  ∃ r ∈ records, ∃ r' ∈ records, r.nonce = r'.nonce ∧ r.context = r'.context
    ∧ r.monotonicCounter ≠ r'.monotonicCounter

variable {records : List NonceRecord} {nonce context : String} {counter : ℤ}

/-! ### The obligation -/

/-- An attempt is a record of the nonce in the context with a higher counter. -/
lemma replayAttempt_none_iff :
    (replayAttempt records nonce context counter).first = some none
      ↔ ∀ r ∈ records, nonce = r.nonce → context = r.context → r.monotonicCounter ≤ counter := by
  have hfound : ∀ r : NonceRecord, (if counter < r.monotonicCounter then Pure.pure ()
      else Answers.ofList []).first = some none ↔ r.monotonicCounter ≤ counter := fun r => by
    split_ifs with h
    · simp [h]
    · simp [not_lt.mp h]
  rw [replayAttempt, nonceRecord, Answers.first_bind_ofList_none_iff]
  simp only [List.mem_filter, Bool.and_eq_true, beq_iff_eq, hfound, and_imp]

/-- The obligation is discharged if no nonce occurs in one context with two counters. -/
lemma noReplays_iff : (noReplays records).first = some (some ()) ↔ ¬ Recounted records := by
  rw [noReplays, Answers.first_forAll_some_iff]
  simp only [Unique.exists_iff, PUnit.default_eq_unit, Answers.first_naf_eq_some_iff,
    replayAttempt_none_iff]
  constructor
  · rintro h ⟨r, hr, r', hr', hnonce, hcontext, hcounter⟩
    exact hcounter (le_antisymm (h r' hr' r hr hnonce.symm hcontext.symm)
      (h r hr r' hr' hnonce hcontext))
  · intro h r hr r' hr' hnonce hcontext
    by_contra hlt
    exact h ⟨r, hr, r', hr', hnonce, hcontext, by omega⟩

/-! ### The assertion -/

lemma mem_splits_iff {A : Type} {xs left right : List A} {h : A} :
    (left, h, right) ∈ splits xs ↔ xs = left ++ h :: right := by
  induction xs generalizing left with
  | nil => simp [splits]
  | cons x xs ih =>
      rw [splits, List.mem_cons, List.mem_map]
      cases left with
      | nil => simp [eq_comm]
      | cons y left => simp [ih, and_comm, eq_comm]

/-- A list has no duplicates if no element of it occurs before or behind itself. -/
lemma nodup_iff_splits {A : Type} {xs : List A} :
    xs.Nodup ↔ ∀ left h right, xs = left ++ h :: right → h ∉ left ∧ h ∉ right := by
  constructor
  · rintro hnodup left h right rfl
    have hmid := (List.nodup_cons.mp (List.nodup_middle.mp hnodup)).1
    simpa using hmid
  · intro hsplit
    induction xs with
    | nil => exact List.nodup_nil
    | cons x xs ih =>
        refine List.nodup_cons.mpr ⟨(hsplit [] x xs rfl).2, ih fun left h right heq => ?_⟩
        obtain ⟨hleft, hright⟩ := hsplit (x :: left) h right (by rw [heq, List.cons_append])
        exact ⟨fun hmem => hleft (List.mem_cons_of_mem x hmem), hright⟩

lemma member_none_iff {A : Type} [DecidableEq A] {x : A} {xs : List A} :
    (member x xs).first = some none ↔ x ∉ xs := by
  simp only [member, Answers.first_ofList, Option.some.injEq, List.head?_eq_none_iff,
    List.filter_eq_nil_iff, beq_iff_eq]
  exact ⟨fun h hmem => h x hmem rfl, fun h y hmem heq => h (heq ▸ hmem)⟩

lemma hasDuplicatePairs_none_iff {A : Type} [DecidableEq A] {pairs : List A} :
    (hasDuplicatePairs pairs).first = some none ↔ pairs.Nodup := by
  rw [hasDuplicatePairs, Answers.first_bind_ofList_none_iff, nodup_iff_splits]
  simp only [Prod.forall, mem_splits_iff, Answers.first_or_eq_none_iff, member_none_iff]

/-- The assertion holds if no pair of a nonce and a context occurs twice. -/
lemma assertNoncesUnique_iff :
    (assertNoncesUnique records).first = some (some ()) ↔ (nonceContexts records).Nodup := by
  rw [assertNoncesUnique, Answers.first_naf_eq_some_iff, hasDuplicatePairs_none_iff]

/-! ### Both -/

lemma nonceContexts_nodup (h : NoncesUnique records) : (nonceContexts records).Nodup :=
  List.pairwise_map.mpr (h.imp fun hne heq => hne (congrArg Prod.fst heq))

/-- What the obligation finds, the assertion finds as well. -/
lemma not_recounted_of_nodup (h : (nonceContexts records).Nodup) : ¬ Recounted records := by
  rintro ⟨r, hr, r', hr', hnonce, hcontext, hcounter⟩
  refine hcounter (congrArg NonceRecord.monotonicCounter ?_)
  exact List.inj_on_of_nodup_map h hr hr' (Prod.ext hnonce hcontext)

/-- Both checks are right exactly if no nonce occurs twice, or one does in one context with two
counters. -/
theorem nonces_detected_iff (records : List NonceRecord) :
    Detected records ↔ NoncesUnique records ∨ Recounted records := by
  constructor
  · intro h
    by_cases hrecounted : Recounted records
    · exact .inr hrecounted
    · exact .inl (h.noReplays.mp (noReplays_iff.mpr hrecounted))
  · rintro (hunique | hrecounted)
    · have hnodup := nonceContexts_nodup hunique
      exact ⟨iff_of_true (noReplays_iff.mpr (not_recounted_of_nodup hnodup)) hunique,
        iff_of_true (assertNoncesUnique_iff.mpr hnodup) hunique⟩
    · have hnodup : ¬ (nonceContexts records).Nodup := fun h => not_recounted_of_nodup h hrecounted
      have hunique : ¬ NoncesUnique records := fun h => hnodup (nonceContexts_nodup h)
      exact ⟨iff_of_false (fun h => noReplays_iff.mp h hrecounted) hunique,
        iff_of_false (fun h => hnodup (assertNoncesUnique_iff.mp h)) hunique⟩

/-- One nonce in two contexts. -/
def acrossContexts : List NonceRecord :=
  [⟨"nonce", "cell_exec_1", 1, 0⟩, ⟨"nonce", "cell_exec_2", 1, 0⟩]

/-- One nonce twice in one context, with the counter it had. -/
def sameCounter : List NonceRecord :=
  [⟨"nonce", "cell_exec_1", 1, 0⟩, ⟨"nonce", "cell_exec_1", 1, 1⟩]

/-- Neither check finds a nonce in two contexts, and the obligation does not find it with the same
counter. -/
theorem reused_undetected : ¬ Detected acrossContexts ∧ ¬ Detected sameCounter := by
  have hacross : ¬ NoncesUnique acrossContexts := by decide
  have hsame : ¬ NoncesUnique sameCounter := by decide
  exact ⟨fun h => hacross (h.assertNoncesUnique.mp (by decide)),
    fun h => hsame (h.noReplays.mp (by decide))⟩

end Nonces

end Notebook

end SovereignBus
