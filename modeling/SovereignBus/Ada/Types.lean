import Mathlib

/-!
The wire types of `seb/kernel/src/seb_types.ads`, and the calls that
`seb_kernel.adb` and `seb_wal.adb` both answer.

* `EventHeader`, `EventFooter`: the fields a write path reads. An `Unsigned_64`
  is a `UInt64`, and so is the modular type `Segment_Offset` derived from it.
* `Operation`, `Reply`: the calls after an initialization, and their `out`
  parameters.
* `eventTotalSize_toNat`: the size of an event does not wrap.
-/

namespace SovereignBus

namespace SebTypes

/-- `Hash_Type`. -/
abbrev HashType := Fin 32 → UInt8

/-- `Genesis_Hash`. -/
def genesisHash : HashType := fun _ => 0

/-- `Fixed_Header_Size`. -/
def fixedHeaderSize : UInt64 := 68

/-- `Fixed_Footer_Size`. -/
def fixedFooterSize : UInt64 := 128

/-- `Payload_Max_Size`. -/
def payloadMaxSize : UInt32 := 1073741564

/-- `Max_Offset`. -/
def maxOffset : UInt64 := 1073741823

structure EventHeader where
  payloadSize : UInt32
  prevOffset : UInt64

structure EventFooter where
  prevHash : HashType
  eventHash : HashType

/-- `Verification_Status`, with the name `Offset_Overflow` that `seb_kernel.adb`
assigns to it. -/
inductive VerificationStatus where
  | valid
  | invalidSignature
  | invalidHash
  | invalidOffset
  | invalidSequence
  | replayDetected
  | segmentFull
  | unknownError
  | offsetOverflow
  deriving DecidableEq

/-- `Is_Valid_Header`. -/
def isValidHeader (h : EventHeader) : Bool :=
  decide (h.payloadSize > 0) && decide (h.payloadSize ≤ payloadMaxSize)

/-- `Event_Total_Size`. -/
def eventTotalSize (h : EventHeader) : UInt64 :=
  (fixedHeaderSize + fixedFooterSize) + h.payloadSize.toUInt64

/-- The calls of a write path. -/
inductive Operation where
  | append (header : EventHeader) (footer : EventFooter)
  | rotate (newSegmentId newSequence : UInt64)

/-- The event of an append. -/
def Operation.event : Operation → Option (EventHeader × EventFooter)
  | .append header footer => some (header, footer)
  | .rotate _ _ => none

/-- The status and the offset a call puts out. -/
structure Reply where
  status : VerificationStatus
  offset : UInt64

lemma eventTotalSize_toNat (h : EventHeader) :
    (eventTotalSize h).toNat = 196 + h.payloadSize.toNat := by
  have hlt := h.payloadSize.toNat_lt
  have hfixed : (fixedHeaderSize + fixedFooterSize).toNat = 196 := rfl
  rw [eventTotalSize, UInt64.toNat_add, hfixed, UInt32.toNat_toUInt64]
  omega

/-- The new offset of an event does not wrap. -/
lemma add_eventTotalSize_toNat {tip : UInt64} (htip : tip ≤ maxOffset) (h : EventHeader) :
    (tip + eventTotalSize h).toNat = tip.toNat + (196 + h.payloadSize.toNat) := by
  have hlt := h.payloadSize.toNat_lt
  have hmax : tip.toNat ≤ 1073741823 := UInt64.le_iff_toNat_le.mp htip
  rw [UInt64.toNat_add, eventTotalSize_toNat]
  omega

end SebTypes

end SovereignBus
