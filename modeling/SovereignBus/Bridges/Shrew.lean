import SovereignBus.Bridges.Wire

/-!
How `seb/runtime/src/seb_shrew_bridge.erl` seals the messages of the Shrew.

* `WormEntry`, `GovernanceCommand`, `State`, `Exit`: what is read of a message,
  the state of the process, and the ways in which a message ends it.
* `buildHeader`, `buildPayload`, `buildGovernancePayload`, `handleShrewWorm`,
  `handleShrewdGovernance`, `handleInfo`: the functions of the source.
* `handleShrewWorm_cases`, `handleShrewdGovernance_cases`: what a message does.
* `run`: a run of messages.
-/

namespace SovereignBus

namespace Bridges

namespace Shrew

open WalNif

/-- The fields of a decoded verdict. -/
structure WormEntry where
  verdict : Option (List UInt8)
  tick : Option ℤ
  ts : Option ℤ
  agentKey : Option (List UInt8)
  shrewSeal : Option (List UInt8)

/-- The field of a decoded governance message. -/
structure GovernanceCommand where
  command : Option (List UInt8)

/-- `kernel` and `tick_sealed` of `#state`, and how often the clock was read. -/
structure State where
  kernel : Option WalHandle
  tickSealed : ℕ
  readings : ℕ

/-- The ends of the process: no tip of a kernel that is not there, and an answer
of the NIF that no clause has. -/
inductive Exit where
  | badmatch
  | caseClause
  deriving DecidableEq

/-- A text in a binary. -/
def bin (s : String) : List UInt8 := s.toUTF8.toList

/-- `?EVENT_SHREW_PROVEN`, `?EVENT_SHREW_SHREWD` and `?EVENT_SHREWD_GOVERN`. -/
def eventShrewProven : ℤ := 0x0600

def eventShrewShrewd : ℤ := 0x0601

def eventShrewdGovern : ℤ := 0x0602

/-- The event type of a verdict. -/
def eventType (verdict : List UInt8) : ℤ :=
  if verdict = bin "SKER_PROVEN" then eventShrewProven
  else if verdict = bin "SKER_SHREWD" then eventShrewShrewd
  else eventShrewProven

/-- `build_header`. -/
def buildHeader (systemTime eventType payloadSize : ℤ) : List UInt8 :=
  Bridges.buildHeader 6 systemTime eventType payloadSize

/-- `build_payload`. -/
def buildPayload (sha256 : List UInt8 → List UInt8) (eventType tick ts : ℤ)
    (agentKey shrewSeal : List UInt8) : List UInt8 :=
  littleUnsigned 8 eventType
    ++ littleUnsigned 8 tick
    ++ littleUnsigned 8 ts
    ++ sha256 agentKey
    ++ (sha256 shrewSeal).take 8

/-- `build_governance_payload`. -/
def buildGovernancePayload (sha256 : List UInt8 → List UInt8) (command : List UInt8) (ts : ℤ) :
    List UInt8 :=
  littleUnsigned 8 eventShrewdGovern
    ++ littleUnsigned 8 ts
    ++ sha256 command
    ++ zeros 16

/-- What `handle_shrew_worm` appends. -/
def wormBinaries (sha256 : List UInt8 → List UInt8) (headerTime : ℤ) (entry : WormEntry)
    (prevTip : List UInt8) : Binaries :=
  let type := eventType (entry.verdict.getD (bin "SKER_NOISE"))
  let payload := buildPayload sha256 type (entry.tick.getD 0) (entry.ts.getD 0)
    (entry.agentKey.getD []) (entry.shrewSeal.getD [])
  { header := buildHeader headerTime type payload.length
    payload := payload
    footer := buildFooter prevTip }

/-- What `handle_shrewd_governance` appends; `ts` is in milliseconds. -/
def governanceBinaries (sha256 : List UInt8 → List UInt8) (ts headerTime : ℤ)
    (cmd : GovernanceCommand) (prevTip : List UInt8) : Binaries :=
  let payload := buildGovernancePayload sha256 (cmd.command.getD (bin "UNKNOWN")) ts
  { header := buildHeader headerTime eventShrewdGovern payload.length
    payload := payload
    footer := buildFooter prevTip }

/-- `handle_shrew_worm`. -/
def handleShrewWorm (env : Env) (decode : List UInt8 → Option WormEntry) (body : List UInt8)
    (state : State) : Except Exit State :=
  match state.kernel with
  | none => .ok state
  | some kernel =>
      match decode body with
      | none => .ok state
      | some entry =>
          let (answer, kernel') := appendEvent kernel
            (wormBinaries env.sha256 (env.systemTime state.readings) entry (getTipHash kernel))
          match answer with
          | .ok _ => .ok ⟨some kernel', state.tickSealed + 1, state.readings + 1⟩
          | .err _ => .ok ⟨some kernel', state.tickSealed, state.readings + 1⟩
          | _ => .error .caseClause

/-- `handle_shrewd_governance`. It has no clause for a kernel that is not
connected. -/
def handleShrewdGovernance (env : Env) (decode : List UInt8 → Option GovernanceCommand)
    (body : List UInt8) (state : State) : Except Exit State :=
  match decode body with
  | none => .ok state
  | some cmd =>
      match state.kernel with
      | none => .error .badmatch
      | some kernel =>
          let ts := env.systemTime state.readings / 1000000
          let (answer, kernel') := appendEvent kernel
            (governanceBinaries env.sha256 ts (env.systemTime (state.readings + 1)) cmd
              (getTipHash kernel))
          match answer with
          | .ok _ | .err _ => .ok ⟨some kernel', state.tickSealed, state.readings + 2⟩
          | _ => .error .caseClause

/-- A message of one of the two subjects. -/
inductive Message where
  | worm (body : List UInt8)
  | governance (body : List UInt8)

variable (env : Env) (decodeWorm : List UInt8 → Option WormEntry)
  (decodeCommand : List UInt8 → Option GovernanceCommand)

/-- `handle_info`. -/
def handleInfo (message : Message) (state : State) : Except Exit State :=
  match message with
  | .worm body => handleShrewWorm env decodeWorm body state
  | .governance body => handleShrewdGovernance env decodeCommand body state

/-- A run of messages. -/
def run (messages : List Message) (state : State) : Except Exit State :=
  messages.foldlM (fun state message => handleInfo env decodeWorm decodeCommand message state) state

/-! ### What a message does -/

variable {env decodeWorm decodeCommand} {body : List UInt8} {state state' : State}

/-- A verdict is dropped, or it is appended, and counted if it was accepted. -/
lemma handleShrewWorm_cases (h : handleShrewWorm env decodeWorm body state = .ok state') :
    state' = state ∨ ∃ kernel entry answer kernel', state.kernel = some kernel
      ∧ appendEvent kernel (wormBinaries env.sha256 (env.systemTime state.readings) entry
          (getTipHash kernel)) = (answer, kernel')
      ∧ state'.kernel = some kernel'
      ∧ ((∃ n, answer = .ok n) ∧ state'.tickSealed = state.tickSealed + 1
        ∨ (∃ reason, answer = .err reason) ∧ state'.tickSealed = state.tickSealed) := by
  rw [handleShrewWorm] at h
  split at h
  · obtain ⟨⟩ := h
    exact .inl rfl
  · next kernel hkernel =>
      split at h
      · obtain ⟨⟩ := h
        exact .inl rfl
      · next entry _ =>
          dsimp only at h
          split at h
          · next n hn =>
              obtain ⟨⟩ := h
              exact .inr ⟨kernel, entry, _, _, hkernel, rfl, rfl, .inl ⟨⟨n, hn⟩, rfl⟩⟩
          · next reason hreason =>
              obtain ⟨⟩ := h
              exact .inr ⟨kernel, entry, _, _, hkernel, rfl, rfl, .inr ⟨⟨reason, hreason⟩, rfl⟩⟩
          · simp at h

/-- A governance message is dropped or appended. -/
lemma handleShrewdGovernance_cases
    (h : handleShrewdGovernance env decodeCommand body state = .ok state') :
    state' = state ∨ ∃ kernel cmd answer kernel', state.kernel = some kernel
      ∧ appendEvent kernel (governanceBinaries env.sha256
          (env.systemTime state.readings / 1000000) (env.systemTime (state.readings + 1)) cmd
          (getTipHash kernel)) = (answer, kernel')
      ∧ state'.kernel = some kernel' ∧ state'.tickSealed = state.tickSealed := by
  rw [handleShrewdGovernance] at h
  split at h
  · obtain ⟨⟩ := h
    exact .inl rfl
  · next cmd _ =>
      split at h
      · simp at h
      · next kernel hkernel =>
          dsimp only at h
          split at h
          · obtain ⟨⟩ := h
            exact .inr ⟨kernel, cmd, _, _, hkernel, rfl, rfl, rfl⟩
          · obtain ⟨⟩ := h
            exact .inr ⟨kernel, cmd, _, _, hkernel, rfl, rfl, rfl⟩
          · simp at h

end Shrew

end Bridges

end SovereignBus
