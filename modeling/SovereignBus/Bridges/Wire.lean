import SovereignBus.Nif.Wal

/-!
What the bridges of `seb/runtime/src` hand to the WAL NIF.

* `littleUnsigned`, `littleFloat`, `zeros`: segments of the bit syntax.
* `Binaries`, `appendEvent`, `getTipHash`, `verifyChain`: the calls of the NIF.
* `buildHeader`, `buildFooter`: the header and the footer of both bridges, and
  `length_buildHeader`, the length of the header.
* `appendEvent_of_length_ne`: what the NIF makes of a header of another length
  than its own.
-/

namespace SovereignBus

namespace Bridges

open WalNif Framing

/-- `X:(8 * size)/little-unsigned`: the low bytes of an integer, the lowest
first. -/
def littleUnsigned (size : ℕ) (x : ℤ) : List UInt8 :=
  (List.range size).map fun i => UInt8.ofInt (x / 256 ^ i)

@[simp] lemma length_littleUnsigned (size : ℕ) (x : ℤ) :
    (littleUnsigned size x).length = size := by
  simp [littleUnsigned]

/-- `X:64/little-float`. -/
def littleFloat (x : Float) : List UInt8 := littleUnsigned 8 x.toBits.toNat

/-- `binary:copy(<<0>>, N)`. -/
def zeros (n : ℕ) : List UInt8 := List.replicate n 0

/-- What the bridges get from the runtime: `crypto:hash(sha256, _)`, and the
readings of `erlang:system_time(nanosecond)`, one after another. -/
structure Env where
  sha256 : List UInt8 → List UInt8
  systemTime : ℕ → ℤ

/-- The binaries of a call of `append_event`. -/
structure Binaries where
  header : List UInt8
  payload : List UInt8
  footer : List UInt8

/-- `seb_kernel_nif:append_event`. -/
def appendEvent (kernel : WalHandle) (b : Binaries) : Reply × WalHandle :=
  nifAppendEvent kernel [.handle, .bin b.header, .bin b.payload, .bin b.footer]

/-- `seb_kernel_nif:get_tip_hash`. -/
def getTipHash (kernel : WalHandle) : List UInt8 := List.ofFn kernel.tipHash

@[simp] lemma length_getTipHash (kernel : WalHandle) : (getTipHash kernel).length = 32 := by
  rw [getTipHash, List.length_ofFn]

/-- `seb_kernel_nif:verify_chain`: the NIF only counts the events. -/
def verifyChain (kernel : WalHandle) : Except Reason UInt64 := .ok kernel.eventsSealed

/-- `build_header`. The bridges differ in the partition; `systemTime` is
`erlang:system_time(nanosecond)`. -/
def buildHeader (partitionId systemTime eventType payloadSize : ℤ) : List UInt8 :=
  littleUnsigned 8 eventType
    ++ littleUnsigned 8 systemTime
    ++ littleUnsigned 8 0            -- agent_id
    ++ littleUnsigned 4 payloadSize
    ++ littleUnsigned 4 partitionId
    ++ littleUnsigned 8 0            -- prev_offset
    ++ littleUnsigned 8 0            -- sequence_no
    ++ littleUnsigned 8 0            -- reserved
    ++ littleUnsigned 4 0            -- reserved2
    ++ littleUnsigned 4 0            -- reserved3

/-- The footer of both bridges: the tip, no event hash and no signature. -/
def buildFooter (prevTip : List UInt8) : List UInt8 := prevTip ++ zeros 32 ++ zeros 64

/-- The fields make up 64 bytes, not the 68 of the comment. -/
@[simp] lemma length_buildHeader (partitionId systemTime eventType payloadSize : ℤ) :
    (buildHeader partitionId systemTime eventType payloadSize).length = 64 := by
  simp [buildHeader]

/-- The NIF refuses a header of another length and leaves the handle alone. -/
lemma appendEvent_of_length_ne (kernel : WalHandle) {b : Binaries}
    (hb : b.header.length ≠ fixedHeaderSize) :
    appendEvent kernel b
      = (.err (if kernel.initialized then .invalidHeader else .notInitialized), kernel) := by
  have hinspect : inspectEvent fixedFooterSize (.bin b.header) (.bin b.payload) (.bin b.footer)
      = .error .invalidHeader := by
    simp [inspectEvent, inspectSized, inspectBinary, hb]
  rw [appendEvent, nifAppendEvent, hinspect]
  cases kernel.initialized <;> simp

end Bridges

end SovereignBus
