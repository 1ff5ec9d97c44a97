import SovereignBus.HumanTouch.Queue
import SovereignBus.Library.Utf8

/-!
The review queue with the file of the audit log, whose writes may fail.

* `Append`: how far `append_entry` gets. `ReviewQueue.review` is a call on the queue with
  the file it leaves.
* `Atomic`: a call that fails leaves the records as they were, and one that changes a status
  leaves its entry in the file.
* `atomic_iff`: this is so unless the append fails and the call edits a record, which it has
  done by then.
-/

namespace SovereignBus

namespace HumanTouch

open Machine

/-! ### Appending an entry -/

/-- How `append_entry` ends: with the line written and synced, or with an error when some of
its bytes may be written. -/
inductive Append where
  | done
  | failed (written : ℕ)
deriving DecidableEq

/-- The line of an entry. -/
def AuditEntry.line (e : AuditEntry) : List UInt8 := Utf8.encode (e.toJson ++ ['\n'])

/-- The file behind `append_entry`. -/
def Append.content (log : List UInt8) (e : AuditEntry) : Append → List UInt8
  | .done => log ++ e.line
  | .failed written => log ++ e.line.take written

/-- A call on the queue, the time it reads, the time of its entry and how its entry is
written. -/
structure ReviewInput where
  op : QueueOp
  now : ℤ
  stamp : Timestamp
  append : Append

def ReviewInput.input (i : ReviewInput) : QueueInput := ⟨i.op, i.now, i.append = .done⟩

/-- A call: what it returns, the queue and the file. -/
def ReviewQueue.review (q : ReviewQueue) (log : List UInt8) (i : ReviewInput) :
    Except QueueError Unit × ReviewQueue × List UInt8 :=
  let r := q.step i.input
  (r.1.result, r.2,
    match r.1.logged with
    | none => log
    | some call => i.append.content log (call.entry i.stamp))

/-! ### Atomic calls -/

/-- The entry of a call on a change. -/
def QueueOp.Logs (op : QueueOp) (e : AuditEntry) : Prop :=
  e.changeId = op.id ∧
    match op with
    | .submit change =>
        e.eventType = changeSubmitted ∧ e.agentName = change.agentName
          ∧ e.evidenceUrl = some change.evidence
    | .approve _ reviewer => e.eventType = changeApproved ∧ e.reviewer = some reviewer
    | .reject _ reviewer reason =>
        e.eventType = changeRejected ∧ e.reviewer = some reviewer ∧ e.reason = some reason
    | .commit _ hash => e.eventType = changeCommitted ∧ e.commitHash = some hash

/-- A call that fails leaves the records as they were, and one that succeeds and changes the
status of a record leaves its entry at the end of the file. -/
structure Atomic (q : ReviewQueue) (log : List UInt8) (i : ReviewInput) : Prop where
  error : ∀ e, (q.review log i).1 = .error e → ∀ id, (q.review log i).2.1.find id = q.find id
  ok : (q.review log i).1 = .ok () →
    (∃ id, ((q.review log i).2.1.find id).map ChangeRecord.status
      ≠ (q.find id).map ChangeRecord.status) →
    ∃ e, i.op.Logs e ∧ (q.review log i).2.2 = log ++ e.line

/-- The call finds nothing to change: no room or no record, or a record that is already as the
call would leave it. -/
def Idle (q : ReviewQueue) (i : ReviewInput) : Prop :=
  match i.op with
  | .submit change => q.maxPending ≤ q.size ∨ q.find change.id = some (newRecord change)
  | .approve id reviewer => ∀ r, q.find id = some r →
      r.status = .approved ∧ r.reviewedBy = some reviewer ∧ r.reviewTimestamp = some i.now
  | .reject id reviewer reason => ∀ r, q.find id = some r →
      r.status = .rejected ∧ r.reviewedBy = some reviewer ∧ r.reviewTimestamp = some i.now
        ∧ r.rejectionReason = some reason
  | .commit id hash => ∀ r, q.find id = some r → r.status = .committed ∧ r.commitHash = some hash

/-- A call is idle where it leaves its own record as it is. -/
lemma idle_iff (q : ReviewQueue) (i : ReviewInput) :
    Idle q i ↔ recordAfter q i.input = q.find i.op.id := by
  have hedit : ∀ (o : Option ChangeRecord) (f : ChangeRecord → ChangeRecord),
      o.map f = o ↔ ∀ r, o = some r → f r = r := fun o f => by cases o <;> simp
  obtain ⟨op, now, stamp, append⟩ := i
  cases op with
  | submit change =>
      by_cases hfull : q.maxPending ≤ q.size
      · exact iff_of_true (.inl hfull) (if_pos hfull)
      · have hrecord : recordAfter q (ReviewInput.input ⟨.submit change, now, stamp, append⟩)
            = some (newRecord change) := if_neg hfull
        rw [hrecord, eq_comm]
        exact or_iff_right hfull
  | approve id reviewer =>
      refine Iff.trans (forall₂_congr fun r _ => ?_) (hedit _ _).symm
      cases r
      simp [ChangeRecord.approve, ReviewInput.input, eq_comm]
  | reject id reviewer reason =>
      refine Iff.trans (forall₂_congr fun r _ => ?_) (hedit _ _).symm
      cases r
      simp [ChangeRecord.reject, ReviewInput.input, eq_comm]
  | commit id hash =>
      refine Iff.trans (forall₂_congr fun r _ => ?_) (hedit _ _).symm
      cases r
      simp [ChangeRecord.commit, eq_comm]

/-- A call ends on an unknown id, or it logs: its own entry, or one about a full queue. -/
lemma step_cases (q : ReviewQueue) (i : QueueInput) :
    q.step i = (Reply.notFound i.op.id, q)
      ∨ ∃ call, (q.step i).1 = Reply.log i.auditOk call
        ∧ ((∀ stamp, i.op.Logs (call.entry stamp)) ∨ (q.step i).2 = q) := by
  obtain ⟨op, now, auditOk⟩ := i
  have hedit : ∀ id f call, id = op.id → (∀ r stamp, op.Logs (LogCall.entry stamp (call r))) →
      q.edit auditOk id f call = (Reply.notFound op.id, q)
        ∨ ∃ c, (q.edit auditOk id f call).1 = Reply.log auditOk c
          ∧ ((∀ stamp, op.Logs (c.entry stamp)) ∨ (q.edit auditOk id f call).2 = q) := by
    rintro id f call rfl hlogs
    rw [ReviewQueue.edit]
    cases q.find op.id with
    | none => exact .inl rfl
    | some r => exact .inr ⟨call r, rfl, .inl (hlogs r)⟩
  cases op with
  | submit change =>
      right
      by_cases hfull : q.maxPending ≤ q.size
      · simp only [ReviewQueue.step, ReviewQueue.handleIncomingChange, if_pos hfull]
        exact ⟨_, rfl, .inr trivial⟩
      · simp only [ReviewQueue.step, ReviewQueue.handleIncomingChange, if_neg hfull]
        exact ⟨_, rfl, .inl fun _ => ⟨rfl, rfl, rfl, rfl⟩⟩
  | approve id reviewer => exact hedit _ _ _ rfl fun _ _ => ⟨rfl, rfl, rfl⟩
  | reject id reviewer reason => exact hedit _ _ _ rfl fun _ _ => ⟨rfl, rfl, rfl, rfl⟩
  | commit id hash => exact hedit _ _ _ rfl fun _ _ => ⟨rfl, rfl, rfl⟩

/-- The records stay as they were exactly if the call is idle. -/
lemma find_eq_iff_idle (q : ReviewQueue) (i : ReviewInput) :
    (∀ id, (q.step i.input).2.find id = q.find id) ↔ Idle q i := by
  rw [idle_iff]
  constructor
  · intro h
    rw [← h i.op.id, find_step, if_pos (show i.op.id = i.input.op.id from rfl)]
  · intro h id
    rw [find_step]
    split_ifs with hid
    · rw [h, hid]
      rfl
    · rfl

/-- A call of the review queue is atomic exactly if the append to the audit log succeeds or the
call finds nothing to change. -/
theorem atomic_iff (q : ReviewQueue) (log : List UInt8) (i : ReviewInput) :
    Atomic q log i ↔ i.append = .done ∨ Idle q i := by
  rcases step_cases q i.input with hmissing | ⟨call, hlog, hcall⟩
  · have hidle : Idle q i := (find_eq_iff_idle q i).mp fun id => by rw [hmissing]
    refine iff_of_true ⟨fun e _ id => ?_, fun hok => ?_⟩ (.inr hidle)
    · simp only [ReviewQueue.review, hmissing]
    · simp [ReviewQueue.review, hmissing, Reply.notFound] at hok
  · cases happend : i.append with
    | done =>
        have hauditOk : i.input.auditOk = true := decide_eq_true happend
        have hresult : (q.review log i).1 = .ok () := by
          simp [ReviewQueue.review, hlog, Reply.log, hauditOk]
        refine iff_of_true ⟨fun e he => by simp [hresult] at he, fun _ hchanged => ?_⟩ (.inl rfl)
        rcases hcall with hlogs | hsame
        · exact ⟨call.entry i.stamp, hlogs i.stamp,
            by simp [ReviewQueue.review, hlog, Reply.log, happend, Append.content]⟩
        · obtain ⟨id, hne⟩ := hchanged
          exact absurd (by rw [ReviewQueue.review, hsame]) hne
    | failed written =>
        have hauditOk : i.input.auditOk = false := decide_eq_false (by simp [happend])
        have hresult : (q.review log i).1 = .error .audit := by
          simp [ReviewQueue.review, hlog, Reply.log, hauditOk]
        rw [or_iff_right (by simp), ← find_eq_iff_idle]
        exact ⟨fun h => h.error _ hresult,
          fun h => ⟨fun _ _ => h, fun hok => by simp [hresult] at hok⟩⟩

/-- A change is approved while the audit log cannot be opened: the call fails, and the change is
approved without an entry. -/
theorem atomic_broken :
    ¬ Atomic (queueAfter 100 [sevenSubmitted]) []
      ⟨.approve "7".toList "bob".toList, 3, ⟨[], by simp⟩, .failed 0⟩ := by
  intro h
  have hsame := h.error .audit rfl "7".toList
  revert hsame
  decide

end HumanTouch

end SovereignBus
