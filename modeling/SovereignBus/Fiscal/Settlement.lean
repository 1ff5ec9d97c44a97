import SovereignBus.Fiscal.Adapter

/-!
Settlements that are counted once.

* `settles`: the event is the settlement of a hash.
* `ExactlyOnce`: one settlement and one row a hash, and the offset of the row for
  every call that succeeds.
* `InWindow`: a settlement of the hash is in the chain or about to be.
* `settlements_exactly_once`: no check passes in the window, or it goes wrong.
-/

namespace SovereignBus

namespace Fiscal

open Labelled

variable {ι : Type*} [DecidableEq ι]

/-- The settlement of a hash, which the payload quotes without its blanks. -/
def settles (hash : List Char) (e : Event) : Bool :=
  match e.eventType, e.payload with
  | .settlement, .settlement _ _ _ bifrostHash => bifrostHash == hash
  | _, _ => false

structure ExactlyOnce (w : World ι) : Prop where
  settlements : ∀ hash : Chars 128, (w.chain.filter (settles (trim hash))).length ≤ 1
  rows : ∀ hash, (w.ledger.filter fun row => row.bifrostHash == hash).length ≤ 1
  returns : ∀ i, (w.calls i).errorMsg = some .success → ∃ row ∈ w.ledger,
    row.bifrostHash = (w.calls i).request.bifrostHash
      ∧ (w.calls i).settlementId = some row.sebOffset

/-- The duplicate check lets the call through: its parameters are valid, and its query
fails or finds no row. -/
def Passes (w : World ι) (i : ι) (failure : Option ℤ) : Prop :=
  0 < (w.calls i).request.amount ∧ isBlank (w.calls i).request.bifrostHash = false
    ∧ (failure ≠ none
      ∨ ∀ row ∈ w.ledger, row.bifrostHash ≠ (w.calls i).request.bifrostHash)

/-- The chain has a settlement of the hash, or another call that has passed its check
is to append one. -/
def InWindow (w : World ι) (i : ι) : Prop :=
  (∃ e ∈ w.chain, settles (trim (w.calls i).request.bifrostHash) e = true)
    ∨ ∃ j, (w.calls j).pc = .append
        ∧ trim (w.calls j).request.bifrostHash = trim (w.calls i).request.bifrostHash

/-- A step that is no check passed in the window. -/
def Careful (w : World ι) (a : Action ι) : Prop :=
  Possible w a ∧ ∀ i failure, a = .check i failure → Passes w i failure → ¬ InWindow w i

/-! ### What a step does -/

/-- A call that is still about the same request and has not succeeded on the way. -/
structure Carries (c c' : Call) : Prop where
  request : c'.request = c.request
  success : c'.errorMsg = some .success →
    c.errorMsg = some .success ∧ c'.settlementId = c.settlementId

/-- The world with a call replaced. -/
def World.put (w : World ι) (i : ι) (c : Call) : World ι :=
  { w with calls := Function.update w.calls i c }

inductive Effect (w : World ι) : Action ι → World ι → Prop
  | ended {a : Action ι} {i : ι} {c : Call} (hc : Carries (w.calls i) c)
      (hpc : c.pc = .returned ∨ c.pc = .killed) : Effect w a (w.put i c)
  | passed {i : ι} {failure : Option ℤ} {c : Call} (hc : Carries (w.calls i) c)
      (hpc : c.pc = .append) (hpasses : Passes w i failure) :
      Effect w (.check i failure) (w.put i c)
  | appended {i : ι} {timestamp : String} {c : Call} {e : Event} (hold : (w.calls i).pc = .append)
      (hc : Carries (w.calls i) c) (hpc : c.pc = .insert) (hoffset : c.sebOffset = e.offset)
      (he : ∀ hash, settles hash e = true ↔ hash = trim (w.calls i).request.bifrostHash) :
      Effect w (.append i (.ok e.offset) timestamp) { w.put i c with chain := w.chain ++ [e] }
  | inserted {a : Action ι} {i : ι} {c : Call} {row : Row} (hold : (w.calls i).pc = .insert)
      (hc : Carries (w.calls i) c) (hpc : c.pc = .confirm)
      (hoffset : c.sebOffset = (w.calls i).sebOffset)
      (hrow : row.bifrostHash = (w.calls i).request.bifrostHash
        ∧ row.sebOffset = (w.calls i).sebOffset)
      (hnew : ∀ r ∈ w.ledger, r.bifrostHash ≠ row.bifrostHash) :
      Effect w a { w.put i c with ledger := w.ledger ++ [row] }
  | conflicted {a : Action ι} {i : ι} {c : Call} {row : Row} (hold : (w.calls i).pc = .insert)
      (hc : Carries (w.calls i) c) (hpc : c.pc = .confirm)
      (hoffset : c.sebOffset = (w.calls i).sebOffset) (hmem : row ∈ w.ledger)
      (hrow : row.bifrostHash = (w.calls i).request.bifrostHash) :
      Effect w a (w.put i c)
  | confirmed {a : Action ι} {i : ι} {c : Call} {e : Event} (hold : (w.calls i).pc = .confirm)
      (hrequest : c.request = (w.calls i).request) (hpc : c.pc = .returned)
      (hid : c.settlementId = some (w.calls i).sebOffset) (he : ∀ hash, settles hash e = false) :
      Effect w a { w.put i c with chain := w.chain ++ [e] }

variable {w w' : World ι} {a : Action ι} {i : ι} {failure : Option ℤ}

omit [DecidableEq ι] in
lemma check_of_passes (hp : Possible w (.check i failure)) (h : Passes w i failure) :
    check failure w.ledger (w.calls i)
      = { w.calls i with settlementError := false, pc := .append } := by
  obtain ⟨hamount, hblank, hquery⟩ := h
  cases failure with
  | some code => exact check_of_failure (hp code rfl).1 hamount hblank
  | none =>
      rcases hquery with hquery | hquery
      · exact absurd rfl hquery
      · exact check_of_new hamount hblank hquery

omit [DecidableEq ι] in
/-- A check that does not let the call through ends it with a message. -/
lemma check_of_not_passes (h : ¬ Passes w i failure) :
    ∃ error offset msg, msg ≠ .success ∧ check failure w.ledger (w.calls i)
      = { w.calls i with settlementError := error, chainOffset := offset }.fail msg := by
  by_cases hamount : 0 < (w.calls i).request.amount
  · cases hblank : isBlank (w.calls i).request.bifrostHash with
    | true => exact ⟨_, _, .hashRequired, by simp, check_of_blank failure hamount hblank⟩
    | false =>
        have hquery : ¬ (failure ≠ none
            ∨ ∀ row ∈ w.ledger, row.bifrostHash ≠ (w.calls i).request.bifrostHash) :=
          fun hquery => h ⟨hamount, hblank, hquery⟩
        push Not at hquery
        obtain ⟨rfl, hrow⟩ := hquery
        obtain ⟨offset, hcheck⟩ := check_of_row hamount hblank hrow
        exact ⟨_, offset, .alreadyProcessed, by simp, hcheck⟩
  · exact ⟨_, _, .amountNotPositive, by simp, check_of_amount failure (not_lt.mp hamount)⟩

lemma check_effect (hp : Possible w (.check i failure)) :
    Effect w (.check i failure) (w.put i (check failure w.ledger (w.calls i))) := by
  by_cases hpasses : Passes w i failure
  · rw [check_of_passes hp hpasses]
    exact .passed ⟨rfl, fun h => ⟨h, rfl⟩⟩ rfl hpasses
  · obtain ⟨error, offset, msg, hmsg, hcheck⟩ := check_of_not_passes hpasses
    rw [hcheck]
    exact .ended ⟨rfl, fun h => absurd (Option.some.inj h) hmsg⟩ (.inl rfl)

lemma append_effect {outcome : Except ℤ ℕ} {timestamp : String}
    (hp : Possible w (.append i outcome timestamp)) (hpc : (w.calls i).pc = .append) :
    Effect w (.append i outcome timestamp)
      { w.put i (appendToSebChain outcome timestamp w.chain (w.calls i)).2 with
        chain := (appendToSebChain outcome timestamp w.chain (w.calls i)).1 } := by
  cases outcome with
  | error code =>
      rw [appendToSebChain_error hp]
      exact .ended ⟨rfl, fun h => absurd (Option.some.inj h) (by simp)⟩ (.inl rfl)
  | ok offset =>
      rw [appendToSebChain_ok]
      refine .appended (e := ⟨offset, timestamp, gAgentId, .settlement, _, _⟩) hpc
        ⟨rfl, fun h => ⟨h, rfl⟩⟩ rfl rfl fun hash => ?_
      rw [eq_comm (a := hash)]
      exact beq_iff_eq

lemma insert_effect (hp : Possible w (.insert i failure)) (hpc : (w.calls i).pc = .insert) :
    Effect w (.insert i failure)
      { w.put i (insertIntoLedger failure w.ledger (w.calls i)).2 with
        ledger := (insertIntoLedger failure w.ledger (w.calls i)).1 } := by
  cases failure with
  | some code =>
      rw [insertIntoLedger_failed (hp code rfl)]
      exact .ended ⟨rfl, fun h => absurd (Option.some.inj h) (by simp)⟩ (.inl rfl)
  | none =>
      by_cases hrow : ∃ row ∈ w.ledger, row.bifrostHash = (w.calls i).request.bifrostHash
      · rw [insertIntoLedger_row hrow]
        obtain ⟨row, hmem, hhash⟩ := hrow
        exact .conflicted hpc ⟨rfl, fun h => ⟨h, rfl⟩⟩ rfl rfl hmem hhash
      · push Not at hrow
        rw [insertIntoLedger_new hrow]
        exact .inserted hpc ⟨rfl, fun h => ⟨h, rfl⟩⟩ rfl rfl ⟨rfl, rfl⟩ hrow

lemma confirm_effect {outcome : Except ℤ ℕ} {timestamp : String}
    (hp : Possible w (.confirm i outcome timestamp)) (hpc : (w.calls i).pc = .confirm) :
    Effect w (.confirm i outcome timestamp)
      { w.put i (emitConfirmation outcome timestamp w.chain (w.calls i)).2 with
        chain := (emitConfirmation outcome timestamp w.chain (w.calls i)).1 } := by
  cases outcome with
  | error code =>
      rw [emitConfirmation_error hp]
      exact .ended ⟨rfl, fun h => absurd (Option.some.inj h) (by simp)⟩ (.inl rfl)
  | ok offset =>
      rw [emitConfirmation_ok]
      exact .confirmed hpc rfl rfl rfl fun hash => rfl

lemma step_effect (hp : Possible w a) (h : step w a = some w') : Effect w a w' := by
  cases a with
  | check i failure =>
      simp only [step] at h
      split_ifs at h
      obtain rfl := Option.some.inj h
      exact check_effect hp
  | append i outcome timestamp =>
      simp only [step] at h
      split_ifs at h with hpc
      obtain rfl := Option.some.inj h
      exact append_effect hp hpc
  | insert i failure =>
      simp only [step] at h
      split_ifs at h with hpc
      obtain rfl := Option.some.inj h
      exact insert_effect hp hpc
  | confirm i outcome timestamp =>
      simp only [step] at h
      split_ifs at h with hpc
      obtain rfl := Option.some.inj h
      exact confirm_effect hp hpc
  | kill i =>
      simp only [step] at h
      split_ifs at h
      obtain rfl := Option.some.inj h
      exact .ended ⟨rfl, fun h => ⟨h, rfl⟩⟩ (.inr rfl)

/-! ### The invariant of careful runs -/

/-- What a call may rely on: nobody has settled the hash it is to append, its
settlement is in the chain, then its row in the ledger. -/
structure CallOk (chain : List Event) (ledger : List Row) (c : Call) : Prop where
  pending : c.pc = .append → ∀ e ∈ chain, settles (trim c.request.bifrostHash) e = false
  appended : c.pc = .insert → ∃ e ∈ chain,
    settles (trim c.request.bifrostHash) e = true ∧ e.offset = c.sebOffset
  inserted : c.pc = .confirm → ∃ row ∈ ledger,
    row.bifrostHash = c.request.bifrostHash ∧ row.sebOffset = c.sebOffset
  returned : c.errorMsg = some .success → ∃ row ∈ ledger,
    row.bifrostHash = c.request.bifrostHash ∧ c.settlementId = some row.sebOffset

/-- A hash has one settlement, in the chain or to be appended, and every row quotes the
settlement of its hash. -/
structure Consistent (w : World ι) : Prop where
  one : ∀ hash, (w.chain.filter (settles hash)).length ≤ 1
  single : ∀ i j, (w.calls i).pc = .append → (w.calls j).pc = .append →
    trim (w.calls i).request.bifrostHash = trim (w.calls j).request.bifrostHash → i = j
  recorded : ∀ row ∈ w.ledger, ∃ e ∈ w.chain,
    settles (trim row.bifrostHash) e = true ∧ e.offset = row.sebOffset
  rows : ∀ hash, (w.ledger.filter fun row => row.bifrostHash == hash).length ≤ 1
  calls : ∀ i, CallOk w.chain w.ledger (w.calls i)

omit [DecidableEq ι] in
lemma consistent_init (requests : ι → Request) : Consistent (World.init requests) := by
  refine ⟨?_, ?_, ?_, ?_, fun i => ⟨?_, ?_, ?_, ?_⟩⟩ <;> simp [World.init, Call.start]

omit [DecidableEq ι] in
/-- Two settlements of a hash in the chain are one. -/
lemma Consistent.eq_of_settles (h : Consistent w) {hash : List Char} {e e' : Event}
    (hmem : e ∈ w.chain) (he : settles hash e = true) (hmem' : e' ∈ w.chain)
    (he' : settles hash e' = true) : e = e' := by
  have hone := h.one hash
  have h1 : e ∈ w.chain.filter (settles hash) := List.mem_filter.mpr ⟨hmem, he⟩
  have h2 : e' ∈ w.chain.filter (settles hash) := List.mem_filter.mpr ⟨hmem', he'⟩
  rcases hl : w.chain.filter (settles hash) with _ | ⟨x, _ | ⟨y, l⟩⟩
  · simp [hl] at h1
  · rw [hl, List.mem_singleton] at h1 h2
    rw [h1, h2]
  · simp [hl] at hone

variable {c : Call} {chain chain' : List Event} {ledger ledger' : List Row}

/-- Events and rows that are added take nothing from a call that does not wait for its
append. -/
lemma CallOk.mono (h : CallOk chain ledger c) (hchain : chain ⊆ chain') (hledger : ledger ⊆ ledger')
    (hpending : c.pc = .append → ∀ e ∈ chain', settles (trim c.request.bifrostHash) e = false) :
    CallOk chain' ledger' c := by
  refine ⟨hpending, fun hpc => ?_, fun hpc => ?_, fun hmsg => ?_⟩
  · obtain ⟨e, hmem, he⟩ := h.appended hpc
    exact ⟨e, hchain hmem, he⟩
  · obtain ⟨row, hmem, hrow⟩ := h.inserted hpc
    exact ⟨row, hledger hmem, hrow⟩
  · obtain ⟨row, hmem, hrow⟩ := h.returned hmsg
    exact ⟨row, hledger hmem, hrow⟩

/-- What a call says about its return, it says as long as it goes on. -/
lemma CallOk.returned_of_carries {c' : Call} (h : CallOk chain ledger c) (hc : Carries c c')
    (hmsg : c'.errorMsg = some .success) : ∃ row ∈ ledger,
      row.bifrostHash = c'.request.bifrostHash ∧ c'.settlementId = some row.sebOffset := by
  obtain ⟨hmsg', hid⟩ := hc.success hmsg
  rw [hc.request, hid]
  exact h.returned hmsg'

lemma put_calls (c : Call) (j : ι) : (w.put i c).calls j = if j = i then c else w.calls j :=
  Function.update_apply w.calls i c j

/-- A call that is replaced by one that waits for no append. -/
lemma Consistent.single_put (h : Consistent w) (hpc : c.pc ≠ .append) {j k : ι}
    (hj : ((w.put i c).calls j).pc = .append) (hk : ((w.put i c).calls k).pc = .append)
    (hjk : trim ((w.put i c).calls j).request.bifrostHash
      = trim ((w.put i c).calls k).request.bifrostHash) : j = k := by
  rw [put_calls] at hj hk hjk
  rw [put_calls] at hjk
  split_ifs at hj hk hjk with hji hki
  · exact absurd hj hpc
  · exact absurd hj hpc
  · exact absurd hk hpc
  · exact h.single j k hj hk hjk

/-- The calls of a world with one call replaced. -/
lemma callOk_put (hc : CallOk chain ledger c)
    (hothers : ∀ j, j ≠ i → CallOk chain ledger (w.calls j)) (j : ι) :
    CallOk chain ledger ((w.put i c).calls j) := by
  rw [put_calls]
  split_ifs with hji
  · exact hc
  · exact hothers j hji

/-- Filters of a list with one more element. -/
lemma length_filter_concat_le {E : Type*} {p : E → Bool} {l : List E} {x : E}
    (h : (l.filter p).length ≤ 1) (hx : p x = true → ∀ y ∈ l, p y = false) :
    ((l ++ [x]).filter p).length ≤ 1 := by
  rw [List.filter_append, List.length_append]
  cases hpx : p x with
  | true =>
      have hnil : l.filter p = [] := by
        rw [List.filter_eq_nil_iff]
        intro y hy
        rw [hx hpx y hy]
        exact Bool.false_ne_true
      simp [hnil, hpx]
  | false => simpa [hpx] using h

lemma Consistent.ended (h : Consistent w) (hc : Carries (w.calls i) c)
    (hpc : c.pc = .returned ∨ c.pc = .killed) : Consistent (w.put i c) := by
  have hnot : c.pc ≠ .append := by rcases hpc with hpc | hpc <;> simp [hpc]
  refine ⟨h.one, fun j k => h.single_put hnot, h.recorded, h.rows, fun j => ?_⟩
  refine callOk_put ⟨fun hp => absurd hp hnot, fun hp => ?_, fun hp => ?_,
    (h.calls i).returned_of_carries hc⟩ (fun j _ => h.calls j) j
  · rcases hpc with hpc | hpc <;> simp [hpc] at hp
  · rcases hpc with hpc | hpc <;> simp [hpc] at hp

lemma Consistent.passed (h : Consistent w) (hc : Carries (w.calls i) c) (hpc : c.pc = .append)
    (hwindow : ¬ InWindow w i) : Consistent (w.put i c) := by
  have hfree : ∀ k, (w.calls k).pc = .append →
      trim (w.calls k).request.bifrostHash ≠ trim c.request.bifrostHash := by
    intro k hk hsame
    rw [hc.request] at hsame
    exact hwindow (.inr ⟨k, hk, hsame⟩)
  refine ⟨h.one, fun j k hj hk hjk => ?_, h.recorded, h.rows, fun j => ?_⟩
  · rw [put_calls] at hj hk hjk
    rw [put_calls] at hjk
    split_ifs at hj hk hjk with hji hki hki
    · rw [hji, hki]
    · exact absurd hjk.symm (hfree k hk)
    · exact absurd hjk (hfree j hj)
    · exact h.single j k hj hk hjk
  · refine callOk_put ⟨fun _ e hmem => ?_, fun hp => ?_, fun hp => ?_,
      (h.calls i).returned_of_carries hc⟩ (fun j _ => h.calls j) j
    · rw [hc.request, ← Bool.not_eq_true]
      exact fun he => hwindow (.inl ⟨e, hmem, he⟩)
    · simp [hpc] at hp
    · simp [hpc] at hp

lemma Consistent.appended (h : Consistent w) {e : Event} (hold : (w.calls i).pc = .append)
    (hc : Carries (w.calls i) c) (hpc : c.pc = .insert) (hoffset : c.sebOffset = e.offset)
    (he : ∀ hash, settles hash e = true ↔ hash = trim (w.calls i).request.bifrostHash) :
    Consistent { w.put i c with chain := w.chain ++ [e] } := by
  have hnot : c.pc ≠ .append := by simp [hpc]
  have hsub : w.chain ⊆ w.chain ++ [e] := List.subset_append_left _ _
  have hown : settles (trim c.request.bifrostHash) e = true := by rw [hc.request, he]
  refine ⟨fun hash => ?_, fun j k => h.single_put hnot, fun row hrow => ?_, h.rows, fun j => ?_⟩
  · refine length_filter_concat_le (h.one hash) fun hsettles e' hmem => ?_
    rw [(he hash).mp hsettles]
    exact (h.calls i).pending hold e' hmem
  · obtain ⟨e', hmem, he'⟩ := h.recorded row hrow
    exact ⟨e', hsub hmem, he'⟩
  · refine callOk_put ⟨fun hp => absurd hp hnot, fun _ => ⟨e, by simp, hown, hoffset.symm⟩,
      fun hp => ?_, (h.calls i).returned_of_carries hc⟩ (fun j hji => ?_) j
    · simp [hpc] at hp
    · refine (h.calls j).mono hsub (fun _ => id) fun hp e' hmem => ?_
      rcases List.mem_append.mp hmem with hmem | hmem
      · exact (h.calls j).pending hp e' hmem
      · rw [List.mem_singleton.mp hmem, ← Bool.not_eq_true, he]
        exact fun hsame => hji (h.single j i hp hold hsame)

lemma Consistent.inserted (h : Consistent w) {row : Row} (hold : (w.calls i).pc = .insert)
    (hc : Carries (w.calls i) c) (hpc : c.pc = .confirm)
    (hoffset : c.sebOffset = (w.calls i).sebOffset)
    (hrow : row.bifrostHash = (w.calls i).request.bifrostHash
      ∧ row.sebOffset = (w.calls i).sebOffset)
    (hnew : ∀ r ∈ w.ledger, r.bifrostHash ≠ row.bifrostHash) :
    Consistent { w.put i c with ledger := w.ledger ++ [row] } := by
  have hnot : c.pc ≠ .append := by simp [hpc]
  have hsub : w.ledger ⊆ w.ledger ++ [row] := List.subset_append_left _ _
  refine ⟨h.one, fun j k => h.single_put hnot, fun r hr => ?_, fun hash => ?_, fun j => ?_⟩
  · rcases List.mem_append.mp hr with hr | hr
    · exact h.recorded r hr
    · obtain ⟨e, hmem, he, hoff⟩ := (h.calls i).appended hold
      rw [List.mem_singleton.mp hr, hrow.1, hrow.2]
      exact ⟨e, hmem, he, hoff⟩
  · refine length_filter_concat_le (h.rows hash) fun hhash r hr => ?_
    rw [← beq_iff_eq.mp hhash]
    simpa using hnew r hr
  · refine callOk_put ⟨fun hp => absurd hp hnot, fun hp => ?_, fun _ => ⟨row, by simp, ?_, ?_⟩,
      fun hmsg => ?_⟩ (fun j _ => ?_) j
    · simp [hpc] at hp
    · rw [hc.request, hrow.1]
    · rw [hoffset, hrow.2]
    · obtain ⟨r, hmem, hr⟩ := (h.calls i).returned_of_carries hc hmsg
      exact ⟨r, hsub hmem, hr⟩
    · exact (h.calls j).mono (fun _ => id) hsub (h.calls j).pending

lemma Consistent.conflicted (h : Consistent w) {row : Row} (hold : (w.calls i).pc = .insert)
    (hc : Carries (w.calls i) c) (hpc : c.pc = .confirm)
    (hoffset : c.sebOffset = (w.calls i).sebOffset) (hmem : row ∈ w.ledger)
    (hrow : row.bifrostHash = (w.calls i).request.bifrostHash) : Consistent (w.put i c) := by
  have hnot : c.pc ≠ .append := by simp [hpc]
  refine ⟨h.one, fun j k => h.single_put hnot, h.recorded, h.rows, fun j => ?_⟩
  refine callOk_put ⟨fun hp => absurd hp hnot, fun hp => ?_, fun _ => ⟨row, hmem, ?_, ?_⟩,
    (h.calls i).returned_of_carries hc⟩ (fun j _ => h.calls j) j
  · simp [hpc] at hp
  · rw [hc.request, hrow]
  · -- the row and the call quote the one settlement of the hash
    obtain ⟨e, he, hsettles, hoff⟩ := h.recorded row hmem
    obtain ⟨e', he', hsettles', hoff'⟩ := (h.calls i).appended hold
    rw [hrow] at hsettles
    rw [hoffset, ← hoff, ← hoff', h.eq_of_settles he hsettles he' hsettles']

lemma Consistent.confirmed (h : Consistent w) {e : Event} (hold : (w.calls i).pc = .confirm)
    (hrequest : c.request = (w.calls i).request) (hpc : c.pc = .returned)
    (hid : c.settlementId = some (w.calls i).sebOffset) (he : ∀ hash, settles hash e = false) :
    Consistent { w.put i c with chain := w.chain ++ [e] } := by
  have hnot : c.pc ≠ .append := by simp [hpc]
  have hsub : w.chain ⊆ w.chain ++ [e] := List.subset_append_left _ _
  refine ⟨fun hash => ?_, fun j k => h.single_put hnot, fun row hrow => ?_, h.rows, fun j => ?_⟩
  · exact length_filter_concat_le (h.one hash) fun hsettles => by simp [he] at hsettles
  · obtain ⟨e', hmem, he'⟩ := h.recorded row hrow
    exact ⟨e', hsub hmem, he'⟩
  · refine callOk_put ⟨fun hp => absurd hp hnot, fun hp => ?_, fun hp => ?_, fun _ => ?_⟩
      (fun j _ => ?_) j
    · simp [hpc] at hp
    · simp [hpc] at hp
    · obtain ⟨row, hmem, hhash, hoff⟩ := (h.calls i).inserted hold
      exact ⟨row, hmem, by rw [hrequest, hhash], by rw [hid, hoff]⟩
    · refine (h.calls j).mono hsub (fun _ => id) fun hp e' hmem => ?_
      rcases List.mem_append.mp hmem with hmem | hmem
      · exact (h.calls j).pending hp e' hmem
      · rw [List.mem_singleton.mp hmem, he]

/-- A careful step keeps the world consistent. -/
lemma Consistent.step (h : Consistent w) (ha : Careful w a) (he : Effect w a w') :
    Consistent w' := by
  cases he with
  | ended hc hpc => exact h.ended hc hpc
  | passed hc hpc hpasses => exact h.passed hc hpc (ha.2 _ _ rfl hpasses)
  | appended hold hc hpc hoffset he => exact h.appended hold hc hpc hoffset he
  | inserted hold hc hpc hoffset hrow hnew => exact h.inserted hold hc hpc hoffset hrow hnew
  | conflicted hold hc hpc hoffset hmem hrow =>
      exact h.conflicted hold hc hpc hoffset hmem hrow
  | confirmed hold hrequest hpc hid he => exact h.confirmed hold hrequest hpc hid he

lemma consistent_of_reaches {requests : ι → Request}
    (h : Reaches step Careful (World.init requests) w) : Consistent w :=
  h.invariant (consistent_init requests) fun _ _ _ hv ha hs => hv.step ha (step_effect ha.1 hs)

/-! ### Exactly once -/

omit [DecidableEq ι] in
lemma exists_offset (w : World ι) : ∃ offset, ∀ e ∈ w.chain, e.offset ≠ offset := by
  obtain ⟨offset, hnew⟩ := Infinite.exists_notMem_finset (w.chain.map Event.offset).toFinset
  refine ⟨offset, fun e hmem he => hnew ?_⟩
  rw [List.mem_toFinset, List.mem_map]
  exact ⟨e, hmem, he⟩

/-- A call that has passed its check can append its settlement. -/
lemma exists_append (hpc : (w.calls i).pc = .append) :
    ∃ w', Reaches step Possible w w' ∧ (∀ j, j ≠ i → w'.calls j = w.calls j)
      ∧ ∃ e, w'.chain = w.chain ++ [e]
        ∧ settles (trim (w.calls i).request.bifrostHash) e = true := by
  obtain ⟨offset, hnew⟩ := exists_offset w
  refine ⟨{ w.put i (appendToSebChain (.ok offset) "" w.chain (w.calls i)).2 with
      chain := (appendToSebChain (.ok offset) "" w.chain (w.calls i)).1 },
    Reaches.refl.tail (a := .append i (.ok offset) "") hnew ?_, fun j hj => ?_, _, rfl, ?_⟩
  · rw [step, if_pos hpc]
    rfl
  · exact Function.update_of_ne hj _ _
  · exact beq_iff_eq.mpr rfl

omit [DecidableEq ι] in
/-- Two settlements of a hash are too many. -/
lemma not_exactlyOnce {hash : Chars 128} {chain : List Event} {e e' : Event}
    (hchain : w.chain = chain ++ [e']) (hmem : e ∈ chain) (he : settles (trim hash) e = true)
    (he' : settles (trim hash) e' = true) : ¬ ExactlyOnce w := by
  intro honce
  have hone := honce.settlements hash
  have hpos : 0 < (chain.filter (settles (trim hash))).length :=
    List.length_pos_of_mem (List.mem_filter.mpr ⟨hmem, he⟩)
  rw [hchain, List.filter_append, List.length_append] at hone
  simp only [List.filter_cons, he', if_true, List.filter_nil, List.length_singleton] at hone
  omega

/-- A check that passes in the window leads to two settlements. -/
lemma goes_wrong {v : World ι} (h : Reaches step Possible v w) (hpc : (w.calls i).pc = .append)
    (hwindow : (∃ e ∈ w.chain, settles (trim (w.calls i).request.bifrostHash) e = true)
      ∨ ∃ j, j ≠ i ∧ (w.calls j).pc = .append
        ∧ trim (w.calls j).request.bifrostHash = trim (w.calls i).request.bifrostHash) :
    ∃ w', Reaches step Possible v w' ∧ ¬ ExactlyOnce w' := by
  rcases hwindow with ⟨e, hmem, he⟩ | ⟨j, hji, hj, hhash⟩
  · obtain ⟨w', hrun, -, e', hchain, he'⟩ := exists_append hpc
    exact ⟨w', h.trans hrun, not_exactlyOnce hchain hmem he he'⟩
  · obtain ⟨w1, hrun1, hcalls, e, hchain, he⟩ := exists_append hj
    have hsame := hcalls i hji.symm
    obtain ⟨w2, hrun2, -, e', hchain', he'⟩ := exists_append (w := w1) (by rw [hsame, hpc])
    rw [hhash] at he
    rw [hsame] at he'
    refine ⟨w2, h.trans (hrun1.trans hrun2), not_exactlyOnce hchain' ?_ he he'⟩
    rw [hchain]
    exact List.mem_append_right _ (List.mem_singleton_self e)

/-- As long as no duplicate check passes while a settlement of its hash is in the chain
or about to be, settlements are counted once. A check that does pass then can be
followed by a second settlement. -/
theorem settlements_exactly_once (requests : ι → Request) :
    (∀ w, Reaches step Careful (World.init requests) w → ExactlyOnce w)
      ∧ ∀ w i failure w', Reaches step Possible (World.init requests) w →
          Possible w (.check i failure) → Passes w i failure → InWindow w i →
          step w (.check i failure) = some w' →
          ∃ w'', Reaches step Possible w' w'' ∧ ¬ ExactlyOnce w'' := by
  refine ⟨fun w hrun => ?_, fun w i failure w' _ hp hpasses hwindow hstep => ?_⟩
  · have h := consistent_of_reaches hrun
    exact ⟨fun hash => h.one _, h.rows, fun i => (h.calls i).returned⟩
  · simp only [step] at hstep
    split_ifs at hstep with hpc
    obtain rfl := Option.some.inj hstep
    rw [check_of_passes hp hpasses]
    refine goes_wrong (i := i) .refl (by simp) ?_
    rcases hwindow with hchain | ⟨j, hj, hhash⟩
    · exact .inl (by simpa using hchain)
    · have hji : j ≠ i := by
        rintro rfl
        simp [hpc] at hj
      exact .inr ⟨j, hji, by simpa [hji] using ⟨hj, hhash⟩⟩

/-- A settlement of one unit, under a hash of letters. -/
def sampleRequest : Request :=
  ⟨List.Vector.replicate 16 'f', 1, List.Vector.replicate 32 'u', List.Vector.replicate 128 'a'⟩

/-- Two calls with one hash. The second one checks behind the row of the first one, which is
still to confirm. -/
theorem settlements_exactly_once_repeated :
    ∃ w : World ℕ, Reaches step Careful (World.init fun _ => sampleRequest) w
      ∧ (w.calls 0).errorMsg = some .success ∧ (w.calls 1).errorMsg = some .alreadyProcessed
      ∧ ExactlyOnce w := by
  have h0 : Reaches step Careful (World.init fun _ : ℕ => sampleRequest)
      (World.init fun _ => sampleRequest) := .refl
  have hcheck : Careful (World.init fun _ : ℕ => sampleRequest) (.check 0 none) := by
    refine ⟨by simp [Possible], fun i failure _ _ hwindow => ?_⟩
    simp [InWindow, World.init, Call.start] at hwindow
  have h1 := h0.tail hcheck rfl
  have h2 := h1.tail (a := .append 0 (.ok 0) "") ⟨by simp [Possible, World.init], by simp⟩ rfl
  have h3 := h2.tail (a := .insert 0 none) ⟨by simp [Possible], by simp⟩ rfl
  -- the check of the second call finds the row
  have h4 := h3.tail (a := .check 1 none) ⟨by simp [Possible], fun i failure ha hpasses => by
    obtain ⟨rfl, rfl⟩ := Action.check.inj ha
    rcases hpasses.2.2 with hquery | hnew
    · exact absurd rfl hquery
    · exact absurd rfl (hnew _ List.mem_cons_self)⟩ rfl
  have h5 := h4.tail (a := .confirm 0 (.ok 1) "")
    ⟨by simp [Possible, World.init], by simp⟩ rfl
  exact ⟨_, h5, rfl, rfl, (settlements_exactly_once _).1 _ h5⟩

/-- Two calls with one hash, both checked before either appends. -/
theorem settlement_twice :
    ¬ ∀ w : World ℕ, Reaches step Possible (World.init fun _ => sampleRequest) w →
      ExactlyOnce w := by
  intro honce
  have h0 : Reaches step Possible (World.init fun _ : ℕ => sampleRequest)
      (World.init fun _ => sampleRequest) := .refl
  have h1 := h0.tail (a := .check 0 none) (by simp [Possible]) rfl
  have h2 := h1.tail (a := .check 1 none) (by simp [Possible]) rfl
  obtain ⟨w, hrun, hnot⟩ := goes_wrong (i := 1) h2 rfl (.inr ⟨0, by simp, rfl, rfl⟩)
  exact hnot (honce w hrun)

end Fiscal

end SovereignBus
