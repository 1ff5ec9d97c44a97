import SovereignBus.Library.Labelled
import Mathlib.Data.Vector.Defs

/-!
The settlement adapter, `seb/adapters/SEB_FISCAL_ADAPTER.rpgle`.

* `select`, `sebAppend`, `insertRow`: the steps outside the program, on the ledger and
  on the chain. One that fails reports a code and has no effect.
* `check`, `appendToSebChain`, `insertIntoLedger`, `emitConfirmation`: the parts of
  `SEB_Fiscal_Settlement` up to the next step outside.
* `World`, `step`: any number of calls, whose parts interleave in any order. A call can
  be killed between two parts.
-/

namespace SovereignBus

namespace Fiscal

/-! ### Data -/

/-- A character field of fixed length. -/
abbrev Chars (n : ℕ) := List.Vector Char n

/-- `%TRIM`. -/
def trim {n : ℕ} (s : Chars n) : List Char :=
  ((s.toList.dropWhile (· == ' ')).reverse.dropWhile (· == ' ')).reverse

/-- The comparison with `''`, which pads with blanks. -/
def isBlank {n : ℕ} (s : Chars n) : Bool := s.toList.all (· == ' ')

/-- The parameters of a call. -/
structure Request where
  agentId : Chars 16
  amount : ℤ
  assetId : Chars 32
  bifrostHash : Chars 128

/-- The parts of the two payloads that depend on the call. A settlement id is the text
of an offset, and kept as the offset. -/
inductive Payload where
  | settlement (subject : List Char) (amount : ℤ) (principal bifrostHash : List Char)
  | confirm (settlementId : ℕ) (bifrostHash : List Char) (sebOffset : ℕ)

/-- The JSON texts of `build_settlement_payload` and `emit_confirmation_event`. -/
def Payload.text : Payload → List Char
  | .settlement subject amount principal bifrostHash =>
      "\x7b\"intent\": \x7b\"action\": \"settle_fiscal\",\"subject\": \"".toList ++ subject
        ++ "\",\"parameters\": \x7b\"amount\": ".toList ++ (toString amount).toList
        ++ ",\"currency\": \"USD\"\x7d\x7d,".toList
        ++ "\"context\": \x7b\"environment\": \"production\",\"constraints\": \x7b".toList
        ++ "\"network\": \"restricted\",\"max_runtime_ms\": 30000,".toList
        ++ "\"max_memory_bytes\": 10485760\x7d\x7d,".toList
        ++ "\"authority\": \x7b\"principal\": \"".toList ++ principal
        ++ "\",\"credentials\": \x7b\"credential_type\": \"agent_signature\"\x7d,".toList
        ++ "\"scope\": [\"settle_fiscal\"]\x7d,\"evidence\": [\x7b".toList
        ++ "\"evidence_type\": \"bifrost_hash\",\"hash\": \"".toList ++ bifrostHash
        ++ "\"\x7d]\x7d".toList
  | .confirm settlementId bifrostHash sebOffset =>
      "\x7b\"settlement_id\": \"".toList ++ (toString settlementId).toList
        ++ "\",\"bifrost_hash\": \"".toList ++ bifrostHash
        ++ "\",\"status\": \"CONFIRMED\",\"seb_offset\": ".toList
        ++ (toString sebOffset).toList ++ "\x7d".toList

inductive EventType where
  | settlement
  | confirm
  deriving DecidableEq

/-- An event of the chain, with the offset that the kernel gave it. -/
structure Event where
  offset : ℕ
  timestamp : String
  agentId : String
  eventType : EventType
  payloadSize : ℕ
  payload : Payload

inductive Status where
  | success
  | pending
  deriving DecidableEq

/-- A row of `SOVEREIGN_LEDGER`. -/
structure Row where
  settlementId : ℕ
  bifrostHash : Chars 128
  agentId : Chars 16
  amount : ℤ
  assetId : Chars 32
  sebOffset : ℕ
  status : Status

/-- The texts of `po_error_msg`. -/
inductive ErrorMsg where
  | amountNotPositive
  | hashRequired
  | alreadyProcessed
  | appendFailed (code : ℤ)
  | insertFailed (code : ℤ)
  | confirmFailed (code : ℤ)
  | success
  deriving DecidableEq

def ErrorMsg.text : ErrorMsg → String
  | .amountNotPositive => "SEB_FISCAL_ADAPTER: Settlement amount must be positive"
  | .hashRequired => "SEB_FISCAL_ADAPTER: Bifrost_Hash required for idempotency"
  | .alreadyProcessed =>
      "SEB_FISCAL_ADAPTER: Settlement already processed for this Bifrost_Hash"
  | .appendFailed code =>
      "SEB_FISCAL_ADAPTER: Failed to append event to SEB chain (error code: " ++ toString code
        ++ ")"
  | .insertFailed code =>
      "SEB_FISCAL_ADAPTER: Failed to insert into SOVEREIGN_LEDGER (error code: "
        ++ toString code ++ ")"
  | .confirmFailed code =>
      "SEB_FISCAL_ADAPTER: Failed to emit confirmation event (error code: " ++ toString code
        ++ ")"
  | .success => "SUCCESS"

/-- What a call does next, or how it ended. -/
inductive Pc where
  | check
  | append
  | insert
  | confirm
  | returned
  | killed
  deriving DecidableEq

/-- A call with its variables and output parameters. `chainOffset` is
`g_seb_chain_offset`. -/
structure Call where
  request : Request
  pc : Pc
  sebOffset : ℕ
  errorCode : ℤ
  settlementError : Bool
  chainOffset : ℕ
  settlementId : Option ℕ
  errorMsg : Option ErrorMsg

/-- A call before its first part. -/
def Call.start (request : Request) : Call := ⟨request, .check, 0, 0, false, 0, none, none⟩

/-- `RETURN` with an error message. -/
def Call.fail (call : Call) (msg : ErrorMsg) : Call :=
  { call with pc := .returned, errorMsg := some msg }

/-- `g_agent_id`. -/
def gAgentId : String := "FISCAL_SETTLE"

/-! ### The steps outside the program -/

/-- The query of `check_duplicate_settlement`: the code, and the offset of the first
row. The code 100 says that there is no row. -/
def select (failure : Option ℤ) (ledger : List Row) (hash : Chars 128) : ℤ × Option ℕ :=
  match failure with
  | some code => (code, none)
  | none =>
      match ledger.find? fun row =>
          row.bifrostHash == hash && (row.status == .success || row.status == .pending) with
      | some row => (0, some row.sebOffset)
      | none => (100, none)

/-- `SEB_APPEND`, which appends at the offset it is given by the kernel. -/
def sebAppend (outcome : Except ℤ ℕ) (chain : List Event) (timestamp : String)
    (eventType : EventType) (payload : Payload) : List Event × Option ℕ × ℤ :=
  match outcome with
  | .ok offset =>
      (chain ++ [⟨offset, timestamp, gAgentId, eventType, payload.text.length, payload⟩],
        some offset, 0)
  | .error code => (chain, none, code)

/-- The insertion with `ON CONFLICT (BIFROST_HASH) DO NOTHING`. -/
def insertRow (failure : Option ℤ) (ledger : List Row) (row : Row) : List Row × ℤ :=
  match failure with
  | some code => (ledger, code)
  | none =>
      if ledger.any fun r => r.bifrostHash == row.bifrostHash then (ledger, 100)
      else (ledger ++ [row], 0)

/-! ### The parts of a call -/

/-- The validation and `check_duplicate_settlement`. -/
def check (failure : Option ℤ) (ledger : List Row) (call : Call) : Call :=
  if call.request.amount ≤ 0 then call.fail .amountNotPositive
  else if isBlank call.request.bifrostHash then call.fail .hashRequired
  else
    match select failure ledger call.request.bifrostHash with
    | (sqlcode, offset) =>
        if sqlcode = 0 then
          { call with settlementError := true, chainOffset := offset.getD 0 }.fail .alreadyProcessed
        else { call with settlementError := false, pc := .append }

/-- `build_settlement_payload`. -/
def settlementPayload (request : Request) : Payload :=
  .settlement (trim request.assetId) request.amount (trim request.agentId)
    (trim request.bifrostHash)

/-- `append_to_seb_chain`, with the test of its code. -/
def appendToSebChain (outcome : Except ℤ ℕ) (timestamp : String) (chain : List Event)
    (call : Call) : List Event × Call :=
  let (chain, offset, code) :=
    sebAppend outcome chain timestamp .settlement (settlementPayload call.request)
  let call := { call with sebOffset := offset.getD call.sebOffset, errorCode := code }
  if code ≠ 0 then (chain, call.fail (.appendFailed code)) else (chain, { call with pc := .insert })

/-- The row of a call. -/
def rowOf (call : Call) : Row :=
  ⟨call.sebOffset, call.request.bifrostHash, call.request.agentId, call.request.amount,
    call.request.assetId, call.sebOffset, .success⟩

/-- `insert_into_ledger`, with the test of its code. -/
def insertIntoLedger (failure : Option ℤ) (ledger : List Row) (call : Call) : List Row × Call :=
  let (ledger, sqlcode) := insertRow failure ledger (rowOf call)
  let code := if sqlcode ≠ 0 ∧ sqlcode ≠ 100 then sqlcode else 0
  let call := { call with errorCode := code }
  if code ≠ 0 then (ledger, call.fail (.insertFailed code))
  else (ledger, { call with pc := .confirm })

/-- `emit_confirmation_event` with the test of its code, the placeholder
`call_seb_kernel_nif`, and the return of the settlement id. -/
def emitConfirmation (outcome : Except ℤ ℕ) (timestamp : String) (chain : List Event)
    (call : Call) : List Event × Call :=
  let (chain, offset, code) := sebAppend outcome chain timestamp .confirm
    (.confirm call.sebOffset (trim call.request.bifrostHash) call.sebOffset)
  let call := { call with chainOffset := offset.getD call.chainOffset, errorCode := code }
  if code ≠ 0 then (chain, call.fail (.confirmFailed code))
  else
    (chain, { call with
      pc := .returned
      errorCode := 0
      settlementId := some call.sebOffset
      errorMsg := some .success })

/-! ### What the parts do -/

variable {call : Call} {ledger : List Row} {chain : List Event} {timestamp : String}

lemma check_of_amount (failure : Option ℤ) (h : call.request.amount ≤ 0) :
    check failure ledger call = call.fail .amountNotPositive := by
  rw [check, if_pos h]

lemma check_of_blank (failure : Option ℤ) (hamount : 0 < call.request.amount)
    (h : isBlank call.request.bifrostHash = true) :
    check failure ledger call = call.fail .hashRequired := by
  rw [check, if_neg (not_le.mpr hamount), if_pos h]

/-- A query that fails lets the call through. -/
lemma check_of_failure {code : ℤ} (hcode : code ≠ 0) (hamount : 0 < call.request.amount)
    (hblank : isBlank call.request.bifrostHash = false) :
    check (some code) ledger call = { call with settlementError := false, pc := .append } := by
  rw [check, if_neg (not_le.mpr hamount), if_neg (by simp [hblank])]
  exact if_neg hcode

/-- So does a query that finds no row. -/
lemma check_of_new (hamount : 0 < call.request.amount)
    (hblank : isBlank call.request.bifrostHash = false)
    (hnew : ∀ row ∈ ledger, row.bifrostHash ≠ call.request.bifrostHash) :
    check none ledger call = { call with settlementError := false, pc := .append } := by
  have hfind : (ledger.find? fun row => row.bifrostHash == call.request.bifrostHash
      && (row.status == .success || row.status == .pending)) = none := by
    rw [List.find?_eq_none]
    intro row hmem
    simp [hnew row hmem]
  rw [check, if_neg (not_le.mpr hamount), if_neg (by simp [hblank])]
  simp only [select, hfind]
  rfl

/-- A row of the hash ends the call. -/
lemma check_of_row (hamount : 0 < call.request.amount)
    (hblank : isBlank call.request.bifrostHash = false)
    (hrow : ∃ row ∈ ledger, row.bifrostHash = call.request.bifrostHash) :
    ∃ offset, check none ledger call
      = { call with settlementError := true, chainOffset := offset }.fail .alreadyProcessed := by
  obtain ⟨row, hmem, hhash⟩ := hrow
  rw [check, if_neg (not_le.mpr hamount), if_neg (by simp [hblank])]
  cases hfind : ledger.find? fun row => row.bifrostHash == call.request.bifrostHash
      && (row.status == .success || row.status == .pending) with
  | some found =>
      refine ⟨found.sebOffset, ?_⟩
      simp only [select, hfind]
      rfl
  | none =>
      have hrow := List.find?_eq_none.mp hfind row hmem
      cases hstatus : row.status <;> simp [hhash, hstatus] at hrow

lemma appendToSebChain_error {code : ℤ} (hcode : code ≠ 0) :
    appendToSebChain (.error code) timestamp chain call
      = (chain, { call with errorCode := code }.fail (.appendFailed code)) :=
  if_pos hcode

lemma appendToSebChain_ok (offset : ℕ) :
    appendToSebChain (.ok offset) timestamp chain call
      = (chain ++ [⟨offset, timestamp, gAgentId, .settlement,
            (settlementPayload call.request).text.length, settlementPayload call.request⟩],
          { call with sebOffset := offset, errorCode := 0, pc := .insert }) := rfl

lemma insertIntoLedger_failed {code : ℤ} (hcode : code ≠ 0 ∧ code ≠ 100) :
    insertIntoLedger (some code) ledger call
      = (ledger, { call with errorCode := code }.fail (.insertFailed code)) := by
  simp [insertIntoLedger, insertRow, hcode.1, hcode.2]

/-- A row of the hash stays, and the call goes on. -/
lemma insertIntoLedger_row (hrow : ∃ row ∈ ledger, row.bifrostHash = call.request.bifrostHash) :
    insertIntoLedger none ledger call = (ledger, { call with errorCode := 0, pc := .confirm }) := by
  have hany : (ledger.any fun r => r.bifrostHash == (rowOf call).bifrostHash) = true := by
    obtain ⟨row, hmem, hhash⟩ := hrow
    exact List.any_eq_true.mpr ⟨row, hmem, beq_iff_eq.mpr hhash⟩
  simp only [insertIntoLedger, insertRow, if_pos hany]
  rfl

lemma insertIntoLedger_new (hnew : ∀ row ∈ ledger, row.bifrostHash ≠ call.request.bifrostHash) :
    insertIntoLedger none ledger call
      = (ledger ++ [rowOf call], { call with errorCode := 0, pc := .confirm }) := by
  have hany : ¬ (ledger.any fun r => r.bifrostHash == (rowOf call).bifrostHash) = true := by
    rintro hany
    obtain ⟨row, hmem, hhash⟩ := List.any_eq_true.mp hany
    exact hnew row hmem (beq_iff_eq.mp hhash)
  simp only [insertIntoLedger, insertRow, if_neg hany]
  rfl

lemma emitConfirmation_error {code : ℤ} (hcode : code ≠ 0) :
    emitConfirmation (.error code) timestamp chain call
      = (chain, { call with errorCode := code }.fail (.confirmFailed code)) :=
  if_pos hcode

lemma emitConfirmation_ok (offset : ℕ) :
    emitConfirmation (.ok offset) timestamp chain call
      = (chain ++ [⟨offset, timestamp, gAgentId, .confirm,
            (Payload.confirm call.sebOffset (trim call.request.bifrostHash)
              call.sebOffset).text.length,
            .confirm call.sebOffset (trim call.request.bifrostHash) call.sebOffset⟩],
          { call with
            chainOffset := offset
            pc := .returned
            errorCode := 0
            settlementId := some call.sebOffset
            errorMsg := some .success }) := rfl

/-! ### Interleaved calls -/

variable {ι : Type*} [DecidableEq ι]

/-- The chain, the ledger and the calls. -/
structure World (ι : Type*) where
  chain : List Event
  ledger : List Row
  calls : ι → Call

/-- The world before any call. -/
def World.init (requests : ι → Request) : World ι := ⟨[], [], fun i => .start (requests i)⟩

/-- The next part of a call, with the outcome of its step outside, or a kill. -/
inductive Action (ι : Type*) where
  | check (i : ι) (failure : Option ℤ)
  | append (i : ι) (outcome : Except ℤ ℕ) (timestamp : String)
  | insert (i : ι) (failure : Option ℤ)
  | confirm (i : ι) (outcome : Except ℤ ℕ) (timestamp : String)
  | kill (i : ι)

/-- What a step outside can report: a failure has a code of its own, and an offset is
a new one. -/
def Possible (w : World ι) : Action ι → Prop
  | .check _ failure => ∀ code, failure = some code → code ≠ 0 ∧ code ≠ 100
  | .insert _ failure => ∀ code, failure = some code → code ≠ 0 ∧ code ≠ 100
  | .append _ (.error code) _ => code ≠ 0
  | .append _ (.ok offset) _ => ∀ e ∈ w.chain, e.offset ≠ offset
  | .confirm _ (.error code) _ => code ≠ 0
  | .confirm _ (.ok offset) _ => ∀ e ∈ w.chain, e.offset ≠ offset
  | .kill _ => True

/-- One part of one call. -/
def step (w : World ι) : Action ι → Option (World ι)
  | .check i failure =>
      if (w.calls i).pc = .check then
        some { w with calls := Function.update w.calls i (check failure w.ledger (w.calls i)) }
      else none
  | .append i outcome timestamp =>
      if (w.calls i).pc = .append then
        let (chain, call) := appendToSebChain outcome timestamp w.chain (w.calls i)
        some { w with chain := chain, calls := Function.update w.calls i call }
      else none
  | .insert i failure =>
      if (w.calls i).pc = .insert then
        let (ledger, call) := insertIntoLedger failure w.ledger (w.calls i)
        some { w with ledger := ledger, calls := Function.update w.calls i call }
      else none
  | .confirm i outcome timestamp =>
      if (w.calls i).pc = .confirm then
        let (chain, call) := emitConfirmation outcome timestamp w.chain (w.calls i)
        some { w with chain := chain, calls := Function.update w.calls i call }
      else none
  | .kill i =>
      if (w.calls i).pc = .returned then none
      else some { w with calls := Function.update w.calls i { w.calls i with pc := .killed } }

end Fiscal

end SovereignBus
