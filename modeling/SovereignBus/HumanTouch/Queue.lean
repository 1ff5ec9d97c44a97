import SovereignBus.HumanTouch.Audit
import SovereignBus.Library.Machine

/-!
The review queue of `seb/human_touch/src/review_queue.rs`.

* `ReviewQueue.step`: submissions, approvals, rejections and commits, each with
  its call of the audit log.
* `Pipeline`: a change is committed only after an approval, decisions are final
  and what is committed is what was approved.
* `pipeline_iff`: the steps that break it are the only ones that do.
-/

namespace SovereignBus

namespace HumanTouch

open Machine

/-- Status of a change in the review pipeline. -/
inductive ChangeStatus where
  | pending
  | underReview
  | approved
  | rejected
  | committed
deriving DecidableEq

/-- Change with metadata. -/
structure ChangeRecord where
  change : PendingChange
  status : ChangeStatus
  reviewedBy : Option Text
  reviewTimestamp : Option ℤ
  rejectionReason : Option Text
  commitHash : Option Text
deriving DecidableEq

/-- A change that waits for its review. -/
def newRecord (change : PendingChange) : ChangeRecord := ⟨change, .pending, none, none, none, none⟩

def ChangeRecord.approve (reviewer : Text) (now : ℤ) (r : ChangeRecord) : ChangeRecord :=
  { r with status := .approved, reviewedBy := some reviewer, reviewTimestamp := some now }

def ChangeRecord.reject (reviewer reason : Text) (now : ℤ) (r : ChangeRecord) : ChangeRecord :=
  { r with
    status := .rejected, reviewedBy := some reviewer, reviewTimestamp := some now
    rejectionReason := some reason }

def ChangeRecord.commit (hash : Text) (r : ChangeRecord) : ChangeRecord :=
  { r with status := .committed, commitHash := some hash }

/-- The capacity and the in-flight changes. -/
structure ReviewQueue where
  maxPending : ℕ
  changes : AList fun _ : Text => ChangeRecord

/-- `ReviewQueue::new`. -/
def ReviewQueue.new (maxPending : ℕ) : ReviewQueue := ⟨maxPending, ∅⟩

inductive QueueError where
  /-- "Change not found: " -/
  | changeNotFound (id : Text)
  /-- The audit log could not be written. -/
  | audit
deriving DecidableEq

/-- What a call returns, and the call of the audit log that it makes. -/
structure Reply where
  logged : Option LogCall
  result : Except QueueError Unit

/-- The calls on the queue. -/
inductive QueueOp where
  | submit (change : PendingChange)
  | approve (id reviewer : Text)
  | reject (id reviewer reason : Text)
  | commit (id hash : Text)

/-- A call, the time it is made and whether the audit log can be written. -/
structure QueueInput where
  op : QueueOp
  now : ℤ
  auditOk : Bool

/-- A call of the audit log at the end of a call. -/
def Reply.log (auditOk : Bool) (call : LogCall) : Reply :=
  ⟨some call, if auditOk then .ok () else .error .audit⟩

def Reply.notFound (id : Text) : Reply := ⟨none, .error (.changeNotFound id)⟩

namespace ReviewQueue

/-- `self.changes.len()`. -/
def size (q : ReviewQueue) : ℕ := q.changes.entries.length

def find (q : ReviewQueue) (id : Text) : Option ChangeRecord := q.changes.lookup id

def put (q : ReviewQueue) (id : Text) (r : ChangeRecord) : ReviewQueue :=
  { q with changes := q.changes.insert id r }

/-- The call for a change that finds the queue full. -/
def capacityExceeded (change : PendingChange) : LogCall :=
  .rejection change.id "Queue capacity exceeded".toList change.agentName

/-- `handle_incoming_change`. -/
def handleIncomingChange (q : ReviewQueue) (auditOk : Bool) (change : PendingChange) :
    Reply × ReviewQueue :=
  if q.maxPending ≤ q.size then (Reply.log auditOk (capacityExceeded change), q)
  else (Reply.log auditOk (.submitted change), q.put change.id (newRecord change))

/-- What the calls on a change in the queue have in common: the record is edited
where it stands, and then the edit is logged. -/
def edit (q : ReviewQueue) (auditOk : Bool) (id : Text) (f : ChangeRecord → ChangeRecord)
    (call : ChangeRecord → LogCall) : Reply × ReviewQueue :=
  match q.find id with
  | none => (Reply.notFound id, q)
  | some r => (Reply.log auditOk (call r), q.put id (f r))

/-- `approve_change`. -/
def approveChange (q : ReviewQueue) (now : ℤ) (auditOk : Bool) (id reviewer : Text) :
    Reply × ReviewQueue :=
  q.edit auditOk id (.approve reviewer now) fun r => .approval id reviewer r.change.description

/-- `reject_change`. -/
def rejectChange (q : ReviewQueue) (now : ℤ) (auditOk : Bool) (id reviewer reason : Text) :
    Reply × ReviewQueue :=
  q.edit auditOk id (.reject reviewer reason now) fun _ => .rejection id reason reviewer

/-- `mark_committed`. -/
def markCommitted (q : ReviewQueue) (auditOk : Bool) (id hash : Text) : Reply × ReviewQueue :=
  q.edit auditOk id (.commit hash) fun r =>
    .commit id hash (r.reviewedBy.getD "unknown".toList)

def step (q : ReviewQueue) (i : QueueInput) : Reply × ReviewQueue :=
  match i.op with
  | .submit change => q.handleIncomingChange i.auditOk change
  | .approve id reviewer => q.approveChange i.now i.auditOk id reviewer
  | .reject id reviewer reason => q.rejectChange i.now i.auditOk id reviewer reason
  | .commit id hash => q.markCommitted i.auditOk id hash

end ReviewQueue

/-- The id a call is about. -/
def QueueOp.id : QueueOp → Text
  | .submit change => change.id
  | .approve id _ => id
  | .reject id _ _ => id
  | .commit id _ => id

/-- The queue behind a run of calls. -/
def queueAfter (maxPending : ℕ) (is : List QueueInput) : ReviewQueue :=
  (exec ReviewQueue.step (ReviewQueue.new maxPending) is).2

def QueueInput.approves (i : QueueInput) (id : Text) : Prop :=
  ∃ reviewer, i.op = .approve id reviewer

def ChangeStatus.final (s : ChangeStatus) : Prop := s = .rejected ∨ s = .committed

/-- What one call may do to a record. -/
structure SafeStep (q q' : ReviewQueue) : Prop where
  committed : ∀ id r', q'.find id = some r' → r'.status = .committed →
    ∃ r, q.find id = some r ∧ (r.status = .approved ∨ r.status = .committed)
  final : ∀ id r, q.find id = some r → r.status.final →
    ∃ r', q'.find id = some r' ∧ r'.status = r.status ∧ r'.change = r.change

/-- The record of an approved or committed change has the content that was there
when the change was last approved. -/
def ContentApproved (maxPending : ℕ) (is : List QueueInput) : Prop :=
  ∀ id r, (queueAfter maxPending is).find id = some r →
    r.status = .approved ∨ r.status = .committed →
    ∃ pre i post r₀, is = pre ++ i :: post ∧ i.approves id ∧ (∀ j ∈ post, ¬ j.approves id)
      ∧ (queueAfter maxPending pre).find id = some r₀ ∧ r₀.change = r.change

/-- The safety of the review pipeline over a run. -/
structure Pipeline (maxPending : ℕ) (is : List QueueInput) : Prop where
  steps : ∀ is' i, is' ++ [i] <+: is →
    SafeStep (queueAfter maxPending is') (queueAfter maxPending (is' ++ [i]))
  content : ∀ is', is' <+: is → ContentApproved maxPending is'

/-- A call that takes a change where it must not go: a submission over a decided
change, an approval of one, the rejection of a committed change and the commit of
one that is not approved. -/
def Breaks (q : ReviewQueue) (i : QueueInput) : Prop :=
  ∃ r, q.find i.op.id = some r ∧
    match i.op with
    | .submit _ => q.size < q.maxPending ∧ r.status.final
    | .approve _ _ => r.status.final
    | .reject _ _ _ => r.status = .committed
    | .commit _ _ => r.status ≠ .approved ∧ r.status ≠ .committed

/-! ### One call -/

/-- The record that a call leaves under its id. -/
def recordAfter (q : ReviewQueue) (i : QueueInput) : Option ChangeRecord :=
  match i.op with
  | .submit change =>
      if q.maxPending ≤ q.size then q.find change.id else some (newRecord change)
  | .approve id reviewer => (q.find id).map (.approve reviewer i.now)
  | .reject id reviewer reason => (q.find id).map (.reject reviewer reason i.now)
  | .commit id hash => (q.find id).map (.commit hash)

lemma find_put (q : ReviewQueue) (id id' : Text) (r : ChangeRecord) :
    (q.put id r).find id' = if id' = id then some r else q.find id' := by
  split_ifs with h
  · rw [h]
    exact AList.lookup_insert _
  · exact AList.lookup_insert_ne h

lemma find_edit (q : ReviewQueue) (auditOk : Bool) (id id' : Text)
    (f : ChangeRecord → ChangeRecord) (call : ChangeRecord → LogCall) :
    (q.edit auditOk id f call).2.find id' = if id' = id then (q.find id).map f else q.find id' := by
  rw [ReviewQueue.edit]
  cases h : q.find id with
  | none =>
      split_ifs with hid
      · rw [hid]
        exact h
      · rfl
  | some r => exact find_put q id id' (f r)

lemma find_handleIncomingChange (q : ReviewQueue) (auditOk : Bool) (change : PendingChange)
    (id : Text) :
    (q.handleIncomingChange auditOk change).2.find id
      = if id = change.id then
          if q.maxPending ≤ q.size then q.find change.id else some (newRecord change)
        else q.find id := by
  rw [ReviewQueue.handleIncomingChange]
  by_cases hfull : q.maxPending ≤ q.size
  · rw [if_pos hfull, if_pos hfull]
    split_ifs with hid
    · rw [hid]
    · rfl
  · rw [if_neg hfull, if_neg hfull]
    exact find_put _ _ _ _

/-- A call changes the record under its own id only. -/
lemma find_step (q : ReviewQueue) (i : QueueInput) (id : Text) :
    (q.step i).2.find id = if id = i.op.id then recordAfter q i else q.find id := by
  obtain ⟨op, now, auditOk⟩ := i
  cases op with
  | submit change => exact find_handleIncomingChange q auditOk change id
  | approve id' reviewer => exact find_edit _ _ _ _ _ _
  | reject id' reviewer reason => exact find_edit _ _ _ _ _ _
  | commit id' hash => exact find_edit _ _ _ _ _ _

/-- A call is safe when it is so for its own record. -/
lemma safeStep_iff_own (q : ReviewQueue) (i : QueueInput) :
    SafeStep q (q.step i).2 ↔
      (∀ r', recordAfter q i = some r' → r'.status = .committed →
        ∃ r, q.find i.op.id = some r ∧ (r.status = .approved ∨ r.status = .committed))
      ∧ ∀ r, q.find i.op.id = some r → r.status.final →
        ∃ r', recordAfter q i = some r' ∧ r'.status = r.status ∧ r'.change = r.change := by
  have hown : (q.step i).2.find i.op.id = recordAfter q i := by rw [find_step, if_pos rfl]
  constructor
  · intro h
    exact ⟨fun r' hr' => h.committed _ r' (by rw [hown, hr']),
      fun r hr hfinal => hown ▸ h.final _ r hr hfinal⟩
  · rintro ⟨hcommitted, hfinal⟩
    refine ⟨fun id r' hr' hstatus => ?_, fun id r hr hstatus => ?_⟩
    · rw [find_step] at hr'
      split_ifs at hr' with hid
      · rw [hid]
        exact hcommitted r' hr' hstatus
      · exact ⟨r', hr', .inr hstatus⟩
    · rw [find_step]
      split_ifs with hid
      · rw [hid] at hr
        exact hfinal r hr hstatus
      · exact ⟨r, hr, rfl, rfl⟩

/-- An edit that leaves the status `s` and the change as it is. -/
lemma own_edit {f : ChangeRecord → ChangeRecord} {s : ChangeStatus} (hs : ∀ r, (f r).status = s)
    (hchange : ∀ r, (f r).change = r.change) (o : Option ChangeRecord) :
    ((∀ r', o.map f = some r' → r'.status = .committed →
          ∃ r, o = some r ∧ (r.status = .approved ∨ r.status = .committed))
        ∧ ∀ r, o = some r → r.status.final →
          ∃ r', o.map f = some r' ∧ r'.status = r.status ∧ r'.change = r.change)
      ↔ ∀ r, o = some r → (s = .committed → r.status = .approved ∨ r.status = .committed)
        ∧ (r.status.final → s = r.status) := by
  cases o with
  | none => simp
  | some r => simp [hs, hchange]

/-- A call is safe exactly when it does not break the pipeline. -/
lemma safeStep_iff (q : ReviewQueue) (i : QueueInput) :
    SafeStep q (q.step i).2 ↔ ¬ Breaks q i := by
  obtain ⟨op, now, auditOk⟩ := i
  rw [safeStep_iff_own, Breaks, not_exists]
  cases op with
  | submit change =>
      by_cases hfull : q.maxPending ≤ q.size
      · have hrecord : recordAfter q ⟨.submit change, now, auditOk⟩ = q.find change.id :=
          if_pos hfull
        refine iff_of_true ⟨fun r' hr' hstatus => ⟨r', hrecord ▸ hr', .inr hstatus⟩,
          fun r hr _ => ⟨r, hrecord ▸ hr, rfl, rfl⟩⟩ ?_
        rintro r ⟨-, hroom, -⟩
        exact absurd hfull (not_le.mpr hroom)
      · have hrecord : recordAfter q ⟨.submit change, now, auditOk⟩ = some (newRecord change) :=
          if_neg hfull
        simp only [hrecord, Option.some.injEq, forall_eq', exists_eq_left', not_le.mp hfull,
          true_and, not_and]
        refine (and_iff_right (fun h => absurd h (by simp [newRecord]))).trans ?_
        refine forall_congr' fun r => ?_
        cases r.status <;> simp [ChangeStatus.final, QueueOp.id, newRecord]
  | approve id reviewer =>
      have hown := own_edit (f := .approve reviewer now) (fun _ => rfl) (fun _ => rfl) (q.find id)
      refine hown.trans (forall_congr' fun r => ?_)
      cases r.status <;> simp [ChangeStatus.final, QueueOp.id]
  | reject id reviewer reason =>
      have hown := own_edit (f := .reject reviewer reason now) (fun _ => rfl) (fun _ => rfl)
        (q.find id)
      refine hown.trans (forall_congr' fun r => ?_)
      cases r.status <;> simp [ChangeStatus.final, QueueOp.id]
  | commit id hash =>
      have hown := own_edit (f := .commit hash) (fun _ => rfl) (fun _ => rfl) (q.find id)
      refine hown.trans (forall_congr' fun r => ?_)
      cases r.status <;> simp [ChangeStatus.final, QueueOp.id]

/-! ### Runs -/

lemma queueAfter_concat (maxPending : ℕ) (is : List QueueInput) (i : QueueInput) :
    queueAfter maxPending (is ++ [i]) = ((queueAfter maxPending is).step i).2 := by
  rw [queueAfter, exec_concat]
  rfl

/-- A call that leaves a record approved or committed approved it, or found its
content under way to a commit. -/
lemma recordAfter_approved {q : ReviewQueue} {i : QueueInput} (hsafe : SafeStep q (q.step i).2)
    {r : ChangeRecord} (hr : recordAfter q i = some r)
    (hstatus : r.status = .approved ∨ r.status = .committed) :
    ∃ r₀, q.find i.op.id = some r₀ ∧ r₀.change = r.change
      ∧ (i.approves i.op.id ∨ ¬ i.approves i.op.id
        ∧ (r₀.status = .approved ∨ r₀.status = .committed)) := by
  obtain ⟨op, now, auditOk⟩ := i
  cases op with
  | submit change =>
      simp only [recordAfter] at hr
      split_ifs at hr with hfull
      · exact ⟨r, hr, rfl, .inr ⟨by simp [QueueInput.approves], hstatus⟩⟩
      · rw [← Option.some.inj hr] at hstatus
        simp [newRecord] at hstatus
  | approve id reviewer =>
      obtain ⟨r₀, hr₀, rfl⟩ := Option.map_eq_some_iff.mp hr
      exact ⟨r₀, hr₀, rfl, .inl ⟨reviewer, rfl⟩⟩
  | reject id reviewer reason =>
      obtain ⟨r₀, hr₀, rfl⟩ := Option.map_eq_some_iff.mp hr
      simp [ChangeRecord.reject] at hstatus
  | commit id hash =>
      obtain ⟨r₀, hr₀, rfl⟩ := Option.map_eq_some_iff.mp hr
      obtain ⟨r₁, hr₁, hstatus⟩ := ((safeStep_iff_own _ _).mp hsafe).1 _ hr rfl
      obtain rfl := Option.some.inj (hr₀.symm.trans hr₁)
      exact ⟨r₀, hr₀, rfl, .inr ⟨by simp [QueueInput.approves], hstatus⟩⟩

/-- Where all steps are safe, what is approved or committed has the content of its
last approval. -/
lemma contentApproved_of_steps {maxPending : ℕ} {is : List QueueInput}
    (hsteps : ∀ is' i, is' ++ [i] <+: is →
      SafeStep (queueAfter maxPending is') (queueAfter maxPending (is' ++ [i]))) :
    ContentApproved maxPending is := by
  induction is using List.reverseRecOn with
  | nil =>
      intro id r hr _
      simp [queueAfter, ReviewQueue.new, ReviewQueue.find] at hr
  | append_singleton is i ih =>
      have ih := ih fun is' j hpre => hsteps is' j (hpre.trans (List.prefix_append _ _))
      have hsafe := hsteps is i (List.prefix_refl _)
      rw [queueAfter_concat] at hsafe
      intro id r hr hstatus
      rw [queueAfter_concat, find_step] at hr
      split_ifs at hr with hid
      · subst hid
        obtain ⟨r₀, hr₀, hchange, happroves | ⟨hnot, hstatus₀⟩⟩ :=
          recordAfter_approved hsafe hr hstatus
        · exact ⟨is, i, [], r₀, rfl, happroves, by simp, hr₀, hchange⟩
        · obtain ⟨pre, j, post, r₁, rfl, hj, hpost, hr₁, hchange₁⟩ := ih _ r₀ hr₀ hstatus₀
          refine ⟨pre, j, post ++ [i], r₁, by simp, hj, ?_, hr₁, hchange₁.trans hchange⟩
          intro k hk
          rcases List.mem_append.mp hk with hk | hk
          · exact hpost k hk
          · rw [List.mem_singleton.mp hk]
            exact hnot
      · obtain ⟨pre, j, post, r₁, rfl, hj, hpost, hr₁, hchange₁⟩ := ih id r hr hstatus
        refine ⟨pre, j, post ++ [i], r₁, by simp, hj, ?_, hr₁, hchange₁⟩
        intro k hk
        rcases List.mem_append.mp hk with hk | hk
        · exact hpost k hk
        · rw [List.mem_singleton.mp hk]
          rintro ⟨reviewer, hop⟩
          exact hid (by rw [hop]; rfl)

/-- A run keeps the review pipeline safe exactly when no call of it breaks it. -/
theorem pipeline_iff (maxPending : ℕ) (is : List QueueInput) :
    Pipeline maxPending is
      ↔ ∀ is' i, is' ++ [i] <+: is → ¬ Breaks (queueAfter maxPending is') i := by
  constructor
  · intro h is' i hpre
    have hsafe := h.steps is' i hpre
    rw [queueAfter_concat] at hsafe
    exact (safeStep_iff _ _).mp hsafe
  · intro h
    have hsteps : ∀ is' i, is' ++ [i] <+: is →
        SafeStep (queueAfter maxPending is') (queueAfter maxPending (is' ++ [i])) := by
      intro is' i hpre
      rw [queueAfter_concat]
      exact (safeStep_iff _ _).mpr (h is' i hpre)
    refine ⟨hsteps, fun is' hpre => contentApproved_of_steps fun is'' i hpre' => ?_⟩
    exact hsteps is'' i (hpre'.trans hpre)

/-- The calls of a change that is committed without a review, and of one that is
rejected and then approved and committed. -/
def sevenSubmitted : QueueInput :=
  ⟨.submit ⟨"7".toList, "fix".toList, "https://example.com".toList, "bot".toList, 0, [], []⟩, 1,
    true⟩

def sevenRejected : QueueInput := ⟨.reject "7".toList "ada".toList "unsafe".toList, 2, true⟩

def sevenApproved : QueueInput := ⟨.approve "7".toList "bob".toList, 3, true⟩

def sevenCommitted : QueueInput := ⟨.commit "7".toList "e69de29".toList, 4, true⟩

theorem pipeline_broken :
    ¬ Pipeline 100 [sevenSubmitted, sevenCommitted]
      ∧ ¬ Pipeline 100 [sevenSubmitted, sevenRejected, sevenApproved] := by
  refine ⟨fun h => ?_, fun h => ?_⟩
  · have hsafe := h.steps [sevenSubmitted] sevenCommitted (List.prefix_refl _)
    obtain ⟨r, hr, hstatus⟩ := hsafe.committed "7".toList _ rfl rfl
    obtain rfl := Option.some.inj hr
    revert hstatus
    decide
  · have hsafe := h.steps [sevenSubmitted, sevenRejected] sevenApproved (List.prefix_refl _)
    obtain ⟨r, hr, hstatus, -⟩ := hsafe.final "7".toList _ rfl (.inl rfl)
    obtain rfl := Option.some.inj hr
    revert hstatus
    decide

end HumanTouch

end SovereignBus
