import SovereignBus.HumanTouch.Queue

/-!
The capacity of the review queue.

* `ReviewQueue.status`: the counts of `status`.
* `CapacityLaw`: a change is refused when `max_pending` changes wait for their
  review, and only then.
* `capacity_iff`: a change that finds the queue full of changes, one of them
  decided, is the only one that breaks it.
-/

namespace SovereignBus

namespace HumanTouch

open Machine

/-- Status snapshot of the review queue. -/
structure QueueStatus where
  total : ℕ
  pending : ℕ
  approved : ℕ
  rejected : ℕ
  committed : ℕ
  capacity : ℕ
deriving DecidableEq

/-- A status before the decision. -/
def ChangeStatus.awaitsReview : ChangeStatus → Bool
  | .pending | .underReview => true
  | _ => false

/-- The records of the queue. -/
def ReviewQueue.records (q : ReviewQueue) : List ChangeRecord := q.changes.entries.map Sigma.snd

/-- `status`. -/
def ReviewQueue.status (q : ReviewQueue) : QueueStatus where
  total := q.size
  pending := q.records.countP fun r => r.status.awaitsReview
  approved := q.records.countP fun r => r.status = .approved
  rejected := q.records.countP fun r => r.status = .rejected
  committed := q.records.countP fun r => r.status = .committed
  capacity := q.maxPending

/-- A change is refused for capacity when as many changes as the queue may hold wait
for their review, and only then; and a queue whose changes are all decided accepts
the next. -/
structure CapacityLaw (maxPending : ℕ) (is : List QueueInput) : Prop where
  refused : ∀ is' i change, is' ++ [i] <+: is → i.op = .submit change →
    (((queueAfter maxPending is').step i).1.logged = some (ReviewQueue.capacityExceeded change)
      ↔ maxPending ≤ (queueAfter maxPending is').status.pending)
  reopens : ∀ is' i change, is' ++ [i] <+: is → i.op = .submit change →
    (∀ r ∈ (queueAfter maxPending is').records, r.status.awaitsReview = false) →
    ((queueAfter maxPending is').step i).1.logged = some (.submitted change)

/-- The queue holds as many records as it may, one of them of a decided change. -/
def Clogged (q : ReviewQueue) : Prop :=
  q.size = q.maxPending ∧ ∃ r ∈ q.records, r.status.awaitsReview = false

instance decidableClogged (q : ReviewQueue) : Decidable (Clogged q) :=
  inferInstanceAs (Decidable (_ ∧ _))

/-! ### The size of the queue -/

lemma length_records (q : ReviewQueue) : q.records.length = q.size := List.length_map _

lemma size_eq_card (q : ReviewQueue) : q.size = q.changes.keys.toFinset.card := by
  rw [List.toFinset_card_of_nodup q.changes.keys_nodup]
  exact (List.length_map _).symm

/-- A record takes the place of the one under its id. -/
lemma size_put (q : ReviewQueue) (id : Text) (r : ChangeRecord) :
    (q.put id r).size = if (q.find id).isSome then q.size else q.size + 1 := by
  have hkeys : (q.put id r).changes.keys.toFinset = insert id q.changes.keys.toFinset := by
    ext id'
    rw [List.mem_toFinset, Finset.mem_insert, List.mem_toFinset, ← AList.mem_keys,
      ← AList.mem_keys]
    exact AList.mem_insert _
  have hmem : (q.find id).isSome ↔ id ∈ q.changes.keys.toFinset := by
    rw [List.mem_toFinset]
    exact AList.lookup_isSome
  rw [size_eq_card, size_eq_card, hkeys]
  by_cases h : id ∈ q.changes.keys.toFinset
  · rw [if_pos (hmem.mpr h), Finset.card_insert_of_mem h]
  · rw [if_neg (mt hmem.mp h), Finset.card_insert_of_notMem h]

lemma edit_size (q : ReviewQueue) (auditOk : Bool) (id : Text)
    (f : ChangeRecord → ChangeRecord) (call : ChangeRecord → LogCall) :
    (q.edit auditOk id f call).2.size = q.size := by
  rw [ReviewQueue.edit]
  cases h : q.find id with
  | none => rfl
  | some r => rw [size_put, h, Option.isSome_some, if_pos rfl]

lemma edit_maxPending (q : ReviewQueue) (auditOk : Bool) (id : Text)
    (f : ChangeRecord → ChangeRecord) (call : ChangeRecord → LogCall) :
    (q.edit auditOk id f call).2.maxPending = q.maxPending := by
  rw [ReviewQueue.edit]
  cases q.find id <;> rfl

/-- No call changes the capacity, and a queue within it stays so. -/
lemma step_within {q : ReviewQueue} (hq : q.size ≤ q.maxPending) (i : QueueInput) :
    (q.step i).2.maxPending = q.maxPending ∧ (q.step i).2.size ≤ q.maxPending := by
  obtain ⟨op, now, auditOk⟩ := i
  cases op with
  | submit change =>
      simp only [ReviewQueue.step, ReviewQueue.handleIncomingChange]
      split_ifs with hfull
      · exact ⟨rfl, hq⟩
      · refine ⟨rfl, ?_⟩
        rw [size_put]
        split_ifs <;> omega
  | approve id reviewer => exact ⟨edit_maxPending _ _ _ _ _, (edit_size _ _ _ _ _).trans_le hq⟩
  | reject id reviewer reason =>
      exact ⟨edit_maxPending _ _ _ _ _, (edit_size _ _ _ _ _).trans_le hq⟩
  | commit id hash => exact ⟨edit_maxPending _ _ _ _ _, (edit_size _ _ _ _ _).trans_le hq⟩

lemma queueAfter_within (maxPending : ℕ) (is : List QueueInput) :
    (queueAfter maxPending is).maxPending = maxPending
      ∧ (queueAfter maxPending is).size ≤ maxPending := by
  induction is using List.reverseRecOn with
  | nil => exact ⟨rfl, Nat.zero_le _⟩
  | append_singleton is i ih =>
      obtain ⟨hmax, hsize⟩ := ih
      rw [queueAfter_concat]
      have hstep := step_within (hsize.trans hmax.ge) i
      rwa [hmax] at hstep

/-! ### The law -/

lemma logged_submit (q : ReviewQueue) {i : QueueInput} {change : PendingChange}
    (hi : i.op = .submit change) :
    (q.step i).1.logged = some (if q.maxPending ≤ q.size then ReviewQueue.capacityExceeded change
      else .submitted change) := by
  rw [ReviewQueue.step, hi]
  dsimp only
  rw [ReviewQueue.handleIncomingChange]
  split_ifs <;> rfl

/-- The queue is full of waiting changes exactly when it is full and not clogged. -/
lemma full_of_waiting_iff {q : ReviewQueue} (hq : q.size ≤ q.maxPending) :
    (q.maxPending ≤ q.size ↔ q.maxPending ≤ q.status.pending) ↔ ¬ Clogged q := by
  have hle : q.status.pending ≤ q.size := by
    rw [← length_records]
    exact List.countP_le_length
  have hall : q.status.pending = q.size ↔ ∀ r ∈ q.records, r.status.awaitsReview = true := by
    rw [← length_records]
    exact List.countP_eq_length
  rw [Clogged, not_and, not_exists]
  constructor
  · rintro hiff hfull r ⟨hr, hdecided⟩
    have hpending := hiff.mp hfull.ge
    have hwaits := hall.mp (by omega) r hr
    rw [hwaits] at hdecided
    exact absurd hdecided (by decide)
  · intro h
    refine ⟨fun hfull => ?_, fun hpending => hpending.trans hle⟩
    have hwaits : ∀ r ∈ q.records, r.status.awaitsReview = true := by
      intro r hr
      have hnot := h (by omega) r
      by_contra hdecided
      exact hnot ⟨hr, by simpa using hdecided⟩
    rw [hall.mpr hwaits]
    exact hfull

/-- The capacity test follows the law exactly in runs where no change finds the
queue clogged. -/
theorem capacity_iff {maxPending : ℕ} (hmax : 1 ≤ maxPending) (is : List QueueInput) :
    CapacityLaw maxPending is ↔ ∀ is' i change, is' ++ [i] <+: is → i.op = .submit change →
      ¬ Clogged (queueAfter maxPending is') := by
  have hrefused : ∀ is' i change, i.op = .submit change →
      (((queueAfter maxPending is').step i).1.logged = some (ReviewQueue.capacityExceeded change)
        ↔ maxPending ≤ (queueAfter maxPending is').size) := by
    intro is' i change hi
    rw [logged_submit _ hi, (queueAfter_within maxPending is').1]
    split_ifs with hfull <;> simp [ReviewQueue.capacityExceeded, hfull]
  have hlaw : ∀ is', (maxPending ≤ (queueAfter maxPending is').size
      ↔ maxPending ≤ (queueAfter maxPending is').status.pending)
        ↔ ¬ Clogged (queueAfter maxPending is') := by
    intro is'
    obtain ⟨hsame, hsize⟩ := queueAfter_within maxPending is'
    have hiff := full_of_waiting_iff (hsize.trans hsame.ge)
    rwa [hsame] at hiff
  constructor
  · intro h is' i change hpre hi
    exact (hlaw is').mp ((hrefused is' i change hi).symm.trans (h.refused is' i change hpre hi))
  · intro h
    refine ⟨fun is' i change hpre hi => ?_, fun is' i change hpre hi hdecided => ?_⟩
    · exact (hrefused is' i change hi).trans ((hlaw is').mpr (h is' i change hpre hi))
    · -- nothing waits in a queue whose changes are all decided
      have hnone : (queueAfter maxPending is').status.pending = 0 :=
        List.countP_eq_zero.mpr fun r hr => by simp [hdecided r hr]
      have hroom : ¬ maxPending ≤ (queueAfter maxPending is').size := by
        rw [(hlaw is').mpr (h is' i change hpre hi), hnone]
        omega
      rw [logged_submit _ hi, (queueAfter_within maxPending is').1, if_neg hroom]

theorem capacity_kept : CapacityLaw 1 [sevenSubmitted, sevenSubmitted] := by
  refine (capacity_iff le_rfl _).mpr fun is' i change hpre _ => ?_
  have hlen := hpre.length_le
  rcases is' with _ | ⟨j, _ | ⟨k, rest⟩⟩
  · decide
  · obtain ⟨rfl, -⟩ := List.cons_prefix_cons.mp hpre
    decide
  · simp at hlen

/-- One change, rejected, closes a queue for one change. -/
theorem capacity_lost : ¬ CapacityLaw 1 [sevenSubmitted, sevenRejected, sevenSubmitted] := by
  intro h
  have hlogged := h.reopens [sevenSubmitted, sevenRejected] sevenSubmitted _ (List.prefix_refl _)
    rfl (by decide)
  revert hlogged
  decide

end HumanTouch

end SovereignBus
