import SovereignBus.Bridges.Tail
import SovereignBus.Bridges.Wire

/-!
How `seb/runtime/src/seb_pnp_bridge.erl` seals the entries of the convergence
log.

* `Entry`, `Sealing`, `Exit`: what is read of an entry, the state `seal_entry`
  works on, and the ways in which it ends the process.
* `buildHeader`, `buildPayload`, `handleAttack`, `sealEntry`: the functions of
  the source.
* `sealEntry_kernel`: what an entry does to the kernel.
-/

namespace SovereignBus

namespace Bridges

namespace Pnp

open WalNif

/-- The fields of a decoded entry that are used. -/
structure Entry where
  universeSumDelta : Option Float
  problemId : Option (List UInt8)

/-- `kernel` and `universe_sum` of `#state`, and how often the clock was read. -/
structure Sealing where
  kernel : WalHandle
  universeSum : Float
  readings : ℕ

/-- The ends of the process: a sum that is no float, an answer of the NIF that no
clause has, and the exits of `handle_attack`. -/
inductive Exit where
  | badarith
  | caseClause
  | chainIntegrityFailure (sum : Float)
  | attackThresholdExceeded (sum : Float)

/-- `?ATTACK_THRESHOLD`. -/
def attackThreshold : Float := -1.0

/-- `A + B` on floats, which fails where the sum is not finite. -/
def add (a b : Float) : Option Float := if (a + b).isFinite then some (a + b) else none

def Entry.delta (entry : Entry) : Float := entry.universeSumDelta.getD 0.0

/-- `ATTACK_DETECTED` or `PROBLEM_SOLVED`. -/
def eventType (delta : Float) : ℤ := if delta < 0 then 0x0401 else 0x0400

/-- `build_header`. -/
def buildHeader (systemTime eventType payloadSize : ℤ) : List UInt8 :=
  Bridges.buildHeader 0 systemTime eventType payloadSize

/-- `build_payload`. -/
def buildPayload (sha256 : List UInt8 → List UInt8) (systemTime : ℤ) (entry : Entry)
    (delta : Float) : List UInt8 :=
  littleUnsigned 8 (eventType delta)
    ++ littleUnsigned 8 systemTime
    ++ sha256 (entry.problemId.getD [])
    ++ littleFloat delta
    ++ zeros 8

/-- What `seal_entry` appends. The payload is built before the header, each with
a reading of the clock. -/
def binaries (sha256 : List UInt8 → List UInt8) (payloadTime headerTime : ℤ) (entry : Entry)
    (prevTip : List UInt8) : Binaries :=
  let payload := buildPayload sha256 payloadTime entry entry.delta
  { header := buildHeader headerTime (eventType entry.delta) payload.length
    payload := payload
    footer := buildFooter prevTip }

/-- `handle_attack`. -/
def handleAttack (kernel : WalHandle) (sum : Float) : Except Exit Unit :=
  match verifyChain kernel with
  | .error _ => .error (.chainIntegrityFailure sum)
  | .ok _ => if sum < attackThreshold then .error (.attackThresholdExceeded sum) else .ok ()

/-- `seal_entry`. An event that is not accepted is logged, and the sum goes on. -/
def sealEntry (env : Env) (entry : Entry) (s : Sealing) : Except Exit Sealing :=
  match add s.universeSum entry.delta with
  | none => .error .badarith
  | some newSum =>
      let (answer, kernel) := appendEvent s.kernel
        (binaries env.sha256 (env.systemTime s.readings) (env.systemTime (s.readings + 1)) entry
          (getTipHash s.kernel))
      let s' : Sealing := ⟨kernel, newSum, s.readings + 2⟩
      match answer with
      | .ok _ =>
          if entry.delta < 0 then
            match handleAttack kernel newSum with
            | .error exit => .error exit
            | .ok () => .ok s'
          else .ok s'
      | .err _ => .ok s'
      | _ => .error .caseClause

/-- The kernel changes by the call of `append_event`. -/
lemma sealEntry_kernel {env : Env} {entry : Entry} {s s' : Sealing}
    (h : sealEntry env entry s = .ok s') :
    s'.kernel = (appendEvent s.kernel
      (binaries env.sha256 (env.systemTime s.readings) (env.systemTime (s.readings + 1)) entry
        (getTipHash s.kernel))).2 := by
  rw [sealEntry] at h
  split at h
  · simp at h
  · dsimp only at h
    split at h
    · split_ifs at h
      · split at h
        · simp at h
        · obtain ⟨⟩ := h
          rfl
      · obtain ⟨⟩ := h
        rfl
    · obtain ⟨⟩ := h
      rfl
    · simp at h

end Pnp

end Bridges

end SovereignBus
