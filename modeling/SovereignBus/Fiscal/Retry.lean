import SovereignBus.Fiscal.Settlement

/-!
Settlements that are tried again.

* `FailureFree`: the parts of one call, none of whose steps outside fails.
* `Completed`: a row, a confirmation that quotes it, and its offset returned.
* `retry_completes_iff`: a further call completes a settlement exactly when the ledger
  has no row of the hash yet.
-/

namespace SovereignBus

namespace Fiscal

open Labelled

variable {ι : Type*}

/-- A part of the call, whose step outside succeeds. -/
def FailureFree (i : ι) (w : World ι) : Action ι → Prop
  | .check j failure => j = i ∧ failure = none
  | .append j outcome _ =>
      j = i ∧ ∃ offset, outcome = .ok offset ∧ ∀ e ∈ w.chain, e.offset ≠ offset
  | .insert j failure => j = i ∧ failure = none
  | .confirm j outcome _ =>
      j = i ∧ ∃ offset, outcome = .ok offset ∧ ∀ e ∈ w.chain, e.offset ≠ offset
  | .kill _ => False

/-- The confirmation of a hash that quotes an offset. -/
def Confirms (hash : List Char) (offset : ℕ) (e : Event) : Prop :=
  e.eventType = .confirm ∧ ∃ id, e.payload = .confirm id hash offset

/-- The settlement of the call is complete, and its caller has the recorded offset. -/
def Completed (w : World ι) (i : ι) : Prop :=
  ∃ row ∈ w.ledger, row.bifrostHash = (w.calls i).request.bifrostHash ∧ row.status = .success
    ∧ (∃ e ∈ w.chain, Confirms (trim (w.calls i).request.bifrostHash) row.sebOffset e)
    ∧ (w.calls i).settlementId = some row.sebOffset

/-- The hash is one, and the ledger has no row of it. -/
def IsNew (w : World ι) (request : Request) : Prop :=
  isBlank request.bifrostHash = false
    ∧ ∀ row ∈ w.ledger, row.bifrostHash ≠ request.bifrostHash

/-! ### A failure-free call -/

variable [DecidableEq ι]

/-- How far a failure-free call has come, and what it has left behind. -/
inductive Progress (w : World ι) (i : ι) (request : Request) : World ι → Prop
  | started : Progress w i request w
  | refused {v : World ι} (hpc : (v.calls i).pc = .returned)
      (hid : (v.calls i).settlementId = none) (hold : ¬ IsNew w request) : Progress w i request v
  | passed {v : World ι} (hnew : IsNew w request) (hpc : (v.calls i).pc = .append)
      (hrequest : (v.calls i).request = request) (hledger : v.ledger = w.ledger) :
      Progress w i request v
  | appended {v : World ι} (hnew : IsNew w request) (hpc : (v.calls i).pc = .insert)
      (hrequest : (v.calls i).request = request) (hledger : v.ledger = w.ledger) :
      Progress w i request v
  | inserted {v : World ι} {row : Row} (hnew : IsNew w request) (hpc : (v.calls i).pc = .confirm)
      (hmem : row ∈ v.ledger) (hhash : row.bifrostHash = (v.calls i).request.bifrostHash)
      (hstatus : row.status = .success) (hoffset : row.sebOffset = (v.calls i).sebOffset) :
      Progress w i request v
  | confirmed {v : World ι} (hnew : IsNew w request) (hpc : (v.calls i).pc = .returned)
      (hdone : Completed v i) : Progress w i request v

variable {w v v' : World ι} {i : ι} {request : Request} {a : Action ι}

omit [DecidableEq ι] in
/-- A check that does not fail lets a call through exactly when it is about a new
hash. -/
lemma passes_iff (hstart : w.calls i = .start request) (hamount : 0 < request.amount) :
    Passes w i none ↔ IsNew w request := by
  rw [Passes, hstart]
  exact ⟨fun h => ⟨h.2.1, h.2.2.resolve_left fun hnone => hnone rfl⟩,
    fun h => ⟨hamount, h.1, .inr h.2⟩⟩

lemma progress_check (hstart : w.calls i = .start request) (hamount : 0 < request.amount) :
    Progress w i request (w.put i (check none w.ledger (w.calls i))) := by
  by_cases hpasses : Passes w i none
  · rw [check_of_passes (by simp [Possible]) hpasses]
    refine .passed ((passes_iff hstart hamount).mp hpasses) (by simp [World.put]) ?_ rfl
    simp [World.put, hstart, Call.start]
  · obtain ⟨error, offset, msg, -, hcheck⟩ := check_of_not_passes hpasses
    rw [hcheck]
    refine .refused (by simp [World.put, Call.fail]) ?_ fun hnew => ?_
    · simp [World.put, Call.fail, hstart, Call.start]
    · exact hpasses ((passes_iff hstart hamount).mpr hnew)

/-- Every part of a failure-free call takes it one stage further. -/
lemma Progress.step (h : Progress w i request v) (hstart : w.calls i = .start request)
    (hamount : 0 < request.amount) (ha : FailureFree i v a)
    (hs : Fiscal.step v a = some v') : Progress w i request v' := by
  cases a with
  | check j failure =>
      obtain ⟨rfl, rfl⟩ := ha
      simp only [Fiscal.step] at hs
      split_ifs at hs with hcheck
      obtain rfl := Option.some.inj hs
      cases h with
      | started => exact progress_check hstart hamount
      | refused hpc | confirmed _ hpc | passed _ hpc | appended _ hpc | inserted _ hpc =>
          simp [hpc] at hcheck
  | append j outcome timestamp =>
      obtain ⟨rfl, offset, rfl, -⟩ := ha
      simp only [Fiscal.step] at hs
      split_ifs at hs with happend
      obtain rfl := Option.some.inj hs
      cases h with
      | started => simp [hstart, Call.start] at happend
      | passed hnew _ hrequest hledger =>
          rw [appendToSebChain_ok]
          exact .appended hnew (by simp) (by simpa using hrequest) hledger
      | refused hpc | confirmed _ hpc | appended _ hpc | inserted _ hpc => simp [hpc] at happend
  | insert j failure =>
      obtain ⟨rfl, rfl⟩ := ha
      simp only [Fiscal.step] at hs
      split_ifs at hs with hinsert
      obtain rfl := Option.some.inj hs
      cases h with
      | started => simp [hstart, Call.start] at hinsert
      | appended hnew _ hrequest hledger =>
          have hrows : ∀ r ∈ v.ledger, r.bifrostHash ≠ (v.calls j).request.bifrostHash := by
            rw [hledger, hrequest]
            exact hnew.2
          have hmem : rowOf (v.calls j) ∈ v.ledger ++ [rowOf (v.calls j)] := by simp
          rw [insertIntoLedger_new hrows]
          exact .inserted hnew (by simp) hmem (by simp [rowOf]) rfl (by simp [rowOf])
      | refused hpc | confirmed _ hpc | passed _ hpc | inserted _ hpc => simp [hpc] at hinsert
  | confirm j outcome timestamp =>
      obtain ⟨rfl, offset, rfl, -⟩ := ha
      simp only [Fiscal.step] at hs
      split_ifs at hs with hconfirm
      obtain rfl := Option.some.inj hs
      cases h with
      | started => simp [hstart, Call.start] at hconfirm
      | @inserted _ row hnew _ hmem hhash hstatus hoffset =>
          rw [emitConfirmation_ok]
          refine .confirmed hnew (by simp) ⟨row, hmem, by simpa using hhash, hstatus, ?_, ?_⟩
          · refine ⟨_, List.mem_append_right _ (List.mem_singleton_self _), rfl, ?_⟩
            exact ⟨(v.calls j).sebOffset, by simp [hoffset]⟩
          · simp [hoffset]
      | refused hpc | confirmed _ hpc | passed _ hpc | appended _ hpc => simp [hpc] at hconfirm
  | kill j => exact ha.elim

lemma progress_of_reaches (h : Reaches Fiscal.step (FailureFree i) w v)
    (hstart : w.calls i = .start request) (hamount : 0 < request.amount) :
    Progress w i request v :=
  h.invariant .started fun _ _ _ hv ha hs => hv.step hstart hamount ha hs

/-! ### It ends -/

/-- The parts that are left. -/
def Pc.left : Pc → ℕ
  | .check => 4
  | .append => 3
  | .insert => 2
  | .confirm => 1
  | .returned => 0
  | .killed => 0

omit [DecidableEq ι] in
lemma left_check (w : World ι) (i : ι) :
    (check none w.ledger (w.calls i)).pc ≠ .killed
      ∧ (check none w.ledger (w.calls i)).pc.left ≤ 3 := by
  by_cases hpasses : Passes w i none
  · rw [check_of_passes (by simp [Possible]) hpasses]
    simp [Pc.left]
  · obtain ⟨error, offset, msg, -, hcheck⟩ := check_of_not_passes hpasses
    rw [hcheck]
    simp [Call.fail, Pc.left]

lemma left_insert (c : Call) (ledger : List Row) :
    (insertIntoLedger none ledger c).2.pc = .confirm := by
  by_cases hrow : ∃ row ∈ ledger, row.bifrostHash = c.request.bifrostHash
  · rw [insertIntoLedger_row hrow]
  · push Not at hrow
    rw [insertIntoLedger_new hrow]

lemma step_insert {failure : Option ℤ} (hpc : (w.calls i).pc = .insert) :
    Fiscal.step w (.insert i failure)
      = some { w.put i (insertIntoLedger failure w.ledger (w.calls i)).2 with
          ledger := (insertIntoLedger failure w.ledger (w.calls i)).1 } :=
  if_pos hpc

/-- A call that has not ended can go on without a failure. -/
lemma exists_failureFree (hkilled : (w.calls i).pc ≠ .killed)
    (hreturned : (w.calls i).pc ≠ .returned) :
    ∃ a v, FailureFree i w a ∧ Fiscal.step w a = some v ∧ (v.calls i).pc ≠ .killed
      ∧ (v.calls i).pc.left < (w.calls i).pc.left := by
  obtain ⟨offset, hnew⟩ := exists_offset w
  cases hpc : (w.calls i).pc with
  | check =>
      obtain ⟨hlive, hleft⟩ := left_check w i
      refine ⟨.check i none, _, ⟨rfl, rfl⟩, if_pos hpc, by simpa using hlive, ?_⟩
      simpa [Pc.left] using Nat.lt_succ_of_le hleft
  | append =>
      refine ⟨.append i (.ok offset) "", _, ⟨rfl, offset, rfl, hnew⟩, if_pos hpc, ?_⟩
      simp [Pc.left]
  | insert =>
      refine ⟨.insert i none, _, ⟨rfl, rfl⟩, step_insert hpc, ?_⟩
      simp [put_calls, left_insert, Pc.left]
  | confirm =>
      refine ⟨.confirm i (.ok offset) "", _, ⟨rfl, offset, rfl, hnew⟩, if_pos hpc, ?_⟩
      simp [Pc.left]
  | returned => exact absurd hpc hreturned
  | killed => exact absurd hpc hkilled

lemma exists_returned (hkilled : (w.calls i).pc ≠ .killed) :
    ∃ v, Reaches Fiscal.step (FailureFree i) w v ∧ (v.calls i).pc = .returned := by
  induction hn : (w.calls i).pc.left using Nat.strong_induction_on generalizing w with
  | _ n ih =>
      by_cases hreturned : (w.calls i).pc = .returned
      · exact ⟨w, .refl, hreturned⟩
      obtain ⟨a, v, ha, hs, hlive, hleft⟩ := exists_failureFree hkilled hreturned
      obtain ⟨u, hrun, hend⟩ := ih _ (hn ▸ hleft) hlive rfl
      exact ⟨u, .head ⟨a, ha, hs⟩ hrun, hend⟩

/-- After any history, a further call without a failure returns, and it completes the
settlement exactly when its hash is one that the ledger has no row of. -/
theorem retry_completes_iff (hstart : w.calls i = .start request)
    (hamount : 0 < request.amount) :
    (∃ v, Reaches Fiscal.step (FailureFree i) w v ∧ (v.calls i).pc = .returned)
      ∧ ∀ v, Reaches Fiscal.step (FailureFree i) w v → (v.calls i).pc = .returned →
          (Completed v i ↔ IsNew w request) := by
  refine ⟨exists_returned (by simp [hstart, Call.start]), fun v hrun hend => ?_⟩
  cases progress_of_reaches hrun hstart hamount with
  | started => simp [hstart, Call.start] at hend
  | passed _ hpc | appended _ hpc | inserted _ hpc => simp [hpc] at hend
  | refused _ hid hold =>
      refine ⟨fun hdone => ?_, fun hnew => absurd hnew hold⟩
      obtain ⟨row, _, _, _, _, hrow⟩ := hdone
      simp [hid] at hrow
  | confirmed hnew _ hdone => exact ⟨fun _ => hnew, fun _ => hdone⟩

/-- A call killed between its settlement and its row. The next one makes up for it. -/
theorem retry_completes_iff_killed :
    ∃ w v : World ℕ, Reaches Fiscal.step Possible (World.init fun _ => sampleRequest) w
      ∧ (w.calls 0).pc = .killed
      ∧ (∃ e ∈ w.chain, settles (trim sampleRequest.bifrostHash) e = true)
      ∧ Reaches Fiscal.step (FailureFree 1) w v ∧ Completed v 1 := by
  have h0 : Reaches Fiscal.step Possible (World.init fun _ : ℕ => sampleRequest)
      (World.init fun _ => sampleRequest) := .refl
  have h1 := h0.tail (a := .check 0 none) (by simp [Possible]) rfl
  have h2 := h1.tail (a := .append 0 (.ok 0) "") (by simp [Possible, World.init]) rfl
  have h3 := h2.tail (a := .kill 0) trivial rfl
  obtain ⟨w, hw, hkilled, hsettled, hstart, hledger⟩ : ∃ w : World ℕ,
      Reaches Fiscal.step Possible (World.init fun _ => sampleRequest) w
        ∧ (w.calls 0).pc = .killed
        ∧ (∃ e ∈ w.chain, settles (trim sampleRequest.bifrostHash) e = true)
        ∧ w.calls 1 = .start sampleRequest ∧ w.ledger = [] :=
    ⟨_, h3, rfl, ⟨_, List.mem_cons_self, beq_iff_eq.mpr rfl⟩, rfl, rfl⟩
  obtain ⟨⟨v, hrun, hend⟩, hiff⟩ := retry_completes_iff hstart Int.one_pos
  exact ⟨w, v, hw, hkilled, hsettled, hrun, (hiff v hrun hend).mpr ⟨rfl, by simp [hledger]⟩⟩

/-- A call killed between its row and its confirmation. The next one only says that the
settlement was processed. -/
theorem retry_refused :
    ¬ ∀ w v : World ℕ, Reaches Fiscal.step Possible (World.init fun _ => sampleRequest) w →
      w.calls 1 = .start sampleRequest → Reaches Fiscal.step (FailureFree 1) w v →
      (v.calls 1).pc = .returned → Completed v 1 := by
  intro hall
  have h0 : Reaches Fiscal.step Possible (World.init fun _ : ℕ => sampleRequest)
      (World.init fun _ => sampleRequest) := .refl
  have h1 := h0.tail (a := .check 0 none) (by simp [Possible]) rfl
  have h2 := h1.tail (a := .append 0 (.ok 0) "") (by simp [Possible, World.init]) rfl
  have h3 := h2.tail (a := .insert 0 none) (by simp [Possible]) rfl
  have h4 := h3.tail (a := .kill 0) trivial rfl
  have hdone := hall _ _ h4 rfl (Reaches.refl.tail (a := .check 1 none) ⟨rfl, rfl⟩ rfl) rfl
  obtain ⟨row, _, _, _, _, hid⟩ := hdone
  exact Option.some_ne_none _ hid.symm

end Fiscal

end SovereignBus
