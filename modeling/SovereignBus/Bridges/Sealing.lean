import SovereignBus.Bridges.Pnp
import SovereignBus.Bridges.Shrew

/-!
What becomes of the messages of the bridges in `seb_wal_nif.c`.

* `Event`, `offer`: a message of either bridge, and the call of `append_event`
  it comes to.
* `SealsInOrder`: a run of messages is sealed, each once and in order.
* `offer_eq`: the NIF refuses every message, and what follows from it for the
  handlers (`sealEntry_keeps`, `handleInfo_keeps`) and their runs
  (`bridges_never_seal`).
-/

namespace SovereignBus

namespace Bridges

open WalNif Machine

/-- A decoded message of one of the bridges, with what its handler reads from the
clock. -/
inductive Event where
  | convergence (entry : Pnp.Entry) (payloadTime headerTime : ℤ)
  | verdict (entry : Shrew.WormEntry) (headerTime : ℤ)
  | governance (cmd : Shrew.GovernanceCommand) (ts headerTime : ℤ)

/-- What the handler of the message appends on a tip. -/
def Event.binaries (sha256 : List UInt8 → List UInt8) (prevTip : List UInt8) :
    Event → Binaries
  | .convergence entry payloadTime headerTime =>
      Pnp.binaries sha256 payloadTime headerTime entry prevTip
  | .verdict entry headerTime => Shrew.wormBinaries sha256 headerTime entry prevTip
  | .governance cmd ts headerTime => Shrew.governanceBinaries sha256 ts headerTime cmd prevTip

/-- The message is offered to the kernel. -/
def offer (sha256 : List UInt8 → List UInt8) (kernel : WalHandle) (event : Event) :
    Reply × WalHandle :=
  appendEvent kernel (event.binaries sha256 (getTipHash kernel))

/-- The messages of a run that were sealed. -/
def sealedEvents (hist : List (Event × Reply)) : List Event :=
  hist.filterMap fun c =>
    match c.2 with
    | .ok _ => some c.1
    | _ => none

/-- The run seals its messages, each once and in order. -/
def SealsInOrder (sha256 : List UInt8 → List UInt8) (kernel : WalHandle)
    (events : List Event) : Prop :=
  sealedEvents (exec (offer sha256) kernel events).1 = events

/-! ### One message -/

variable {sha256 : List UInt8 → List UInt8}

/-- All three handlers build a header of 64 bytes. -/
lemma Event.length_header (prevTip : List UInt8) (event : Event) :
    (event.binaries sha256 prevTip).header.length = 64 := by
  cases event with
  | convergence entry payloadTime headerTime => exact length_buildHeader _ _ _ _
  | verdict entry headerTime => exact length_buildHeader _ _ _ _
  | governance cmd ts headerTime => exact length_buildHeader _ _ _ _

variable (sha256) in
/-- The NIF refuses every message, whatever its handle is. -/
lemma offer_eq (kernel : WalHandle) (event : Event) :
    offer sha256 kernel event
      = (.err (if kernel.initialized then .invalidHeader else .notInitialized), kernel) := by
  refine appendEvent_of_length_ne kernel ?_
  rw [event.length_header]
  decide

/-- An entry of the convergence log leaves the kernel as it is. -/
lemma sealEntry_keeps {env : Env} {entry : Pnp.Entry} {s s' : Pnp.Sealing}
    (h : Pnp.sealEntry env entry s = .ok s') : s'.kernel = s.kernel := by
  rw [Pnp.sealEntry_kernel h]
  exact congrArg Prod.snd (offer_eq env.sha256 s.kernel (.convergence entry _ _))

/-- A verdict or a governance message leaves the kernel and the count of sealed
verdicts as they are. -/
lemma handleInfo_keeps {env : Env} {decodeWorm : List UInt8 → Option Shrew.WormEntry}
    {decodeCommand : List UInt8 → Option Shrew.GovernanceCommand} {message : Shrew.Message}
    {state state' : Shrew.State}
    (h : Shrew.handleInfo env decodeWorm decodeCommand message state = .ok state') :
    state'.kernel = state.kernel ∧ state'.tickSealed = state.tickSealed := by
  cases message with
  | worm body =>
      rw [Shrew.handleInfo] at h
      rcases Shrew.handleShrewWorm_cases h with
        rfl | ⟨kernel, entry, answer, kernel', hkernel, happend, hkernel', hticks⟩
      · exact ⟨rfl, rfl⟩
      · have hoffer := offer_eq env.sha256 kernel (.verdict entry (env.systemTime state.readings))
        rw [offer, Event.binaries, happend] at hoffer
        obtain ⟨rfl, rfl⟩ := Prod.mk.inj hoffer
        refine ⟨hkernel'.trans hkernel.symm, ?_⟩
        rcases hticks with ⟨⟨n, hok⟩, -⟩ | ⟨-, hticks⟩
        · simp at hok
        · exact hticks
  | governance body =>
      rw [Shrew.handleInfo] at h
      rcases Shrew.handleShrewdGovernance_cases h with
        rfl | ⟨kernel, cmd, answer, kernel', hkernel, happend, hkernel', hticks⟩
      · exact ⟨rfl, rfl⟩
      · have hoffer := offer_eq env.sha256 kernel
          (.governance cmd (env.systemTime state.readings / 1000000)
            (env.systemTime (state.readings + 1)))
        rw [offer, Event.binaries, happend] at hoffer
        obtain ⟨-, rfl⟩ := Prod.mk.inj hoffer
        exact ⟨hkernel'.trans hkernel.symm, hticks⟩

/-! ### Runs -/

/-- Nothing of a run is sealed, and the handle is in the end what it was. -/
lemma exec_offer (kernel : WalHandle) (events : List Event) :
    sealedEvents (exec (offer sha256) kernel events).1 = []
      ∧ (exec (offer sha256) kernel events).2 = kernel := by
  induction events with
  | nil => exact ⟨rfl, rfl⟩
  | cons event events ih =>
      obtain ⟨hnone, hsame⟩ := ih
      rw [exec, offer_eq]
      refine ⟨?_, hsame⟩
      rw [sealedEvents, List.filterMap_cons_none rfl]
      exact hnone

/-- No message of a bridge is ever sealed: not on any handle, so that no run but
the empty one seals its messages, and not by the polls of the one bridge or the
messages of the other. -/
theorem bridges_never_seal (sha256 : List UInt8 → List UInt8) :
    (∀ kernel event n, (offer sha256 kernel event).1 ≠ .ok n)
      ∧ (∀ kernel events, SealsInOrder sha256 kernel events ↔ events = [])
      ∧ (∀ systemTime decode files state state',
          runPolls decode (Pnp.sealEntry ⟨sha256, systemTime⟩) files state = .ok state' →
            state'.sealing.kernel = state.sealing.kernel)
      ∧ ∀ systemTime decodeWorm decodeCommand messages state state',
          Shrew.run ⟨sha256, systemTime⟩ decodeWorm decodeCommand messages state = .ok state' →
            state'.kernel = state.kernel ∧ state'.tickSealed = state.tickSealed := by
  refine ⟨fun kernel event n => ?_, fun kernel events => ?_, ?_, ?_⟩
  · rw [offer_eq]
    simp
  · rw [SealsInOrder, (exec_offer kernel events).1]
    exact eq_comm
  · intro systemTime decode files state state' hrun
    refine runPolls_preserves (P := fun s => s.kernel = state.sealing.kernel) ?_ rfl hrun
    intro entry s s' hs h
    rw [sealEntry_keeps h, hs]
  · intro systemTime decodeWorm decodeCommand messages state state' hrun
    refine foldlM_preserves
      (P := fun s => s.kernel = state.kernel ∧ s.tickSealed = state.tickSealed)
      ?_ ⟨rfl, rfl⟩ hrun
    intro s message s' hs h
    obtain ⟨hkernel, hticks⟩ := handleInfo_keeps h
    exact ⟨hkernel.trans hs.1, hticks.trans hs.2⟩

/-- The handle that `init_kernel(4, 0)` creates, and an entry without a delta for
the problem `p`. -/
def bridgeWal : WalHandle := ⟨4, 0, 0, 0, 0, 0, true⟩

def problemSolved : Event := .convergence ⟨none, some [112]⟩ 0 0

/-- The hash of the text `p`. -/
def digest : List UInt8 :=
  [20, 141, 233, 197, 167, 164, 77, 25, 229, 108, 217, 174, 26, 85, 75, 246,
    120, 71, 175, 176, 197, 143, 110, 18, 250, 41, 172, 125, 223, 202, 153, 64]

/-- The first entry on a new handle is refused for its header. -/
theorem entry_refused :
    (offer (fun _ => digest) bridgeWal problemSolved).1 = .err .invalidHeader
      ∧ ¬ SealsInOrder (fun _ => digest) bridgeWal [problemSolved] := by
  refine ⟨by rw [offer_eq]; rfl, ?_⟩
  rw [SealsInOrder, (exec_offer bridgeWal [problemSolved]).1]
  simp

end Bridges

end SovereignBus
