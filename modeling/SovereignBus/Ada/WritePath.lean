import SovereignBus.Library.SegmentedLog
import SovereignBus.Ada.Types

/-!
What the write paths of `seb_kernel.adb` and `seb_wal.adb` have in common.

* `WritePath`: a state with a tip, whose accepted calls append an event behind
  the tip or go back to offset 0. `log` says that it is a log of segments.
* `RunInvariant`, `runInvariant`: what holds behind every run of a write path.
-/

namespace SovereignBus

open SebTypes Machine

/-- A write path: its calls, the parts of the state they look at, and what they
do to them. -/
structure WritePath (S : Type) where
  step : S → Operation → Reply × S
  tipOffset : S → UInt64
  tipHash : S → HashType
  eventsSealed : S → UInt64
  rejected : ∀ s op, (step s op).1.status ≠ .valid → (step s op).2 = s
  append : ∀ s header footer, (step s (.append header footer)).1.status = .valid →
    (eventsSealed s > 0 → footer.prevHash = tipHash s)
      ∧ tipOffset s + eventTotalSize header ≤ maxOffset
      ∧ tipOffset (step s (.append header footer)).2 = tipOffset s + eventTotalSize header
      ∧ tipHash (step s (.append header footer)).2 = footer.eventHash
      ∧ eventsSealed (step s (.append header footer)).2 = eventsSealed s + 1
  rotate : ∀ s newSegmentId newSequence,
    (step s (.rotate newSegmentId newSequence)).1.status = .valid →
      tipOffset (step s (.rotate newSegmentId newSequence)).2 = 0
        ∧ tipHash (step s (.rotate newSegmentId newSequence)).2 = tipHash s
        ∧ eventsSealed (step s (.rotate newSegmentId newSequence)).2 = eventsSealed s

/-- The events a history accepted. -/
def acceptedEvents (hist : List (Operation × Reply)) : List (EventHeader × EventFooter) :=
  hist.filterMap fun x => if x.2.status = .valid then x.1.event else none

/-- What a write path keeps behind the run `ops` from `s`: the offset stays in the
segment, the next call that is accepted adds the size of its event to it, one
that is rejected changes nothing, and the accepted events are chained. -/
structure RunInvariant {S : Type} (step : S → Operation → Reply × S) (tipOffset : S → UInt64)
    (s : S) (ops : List Operation) : Prop where
  inside : tipOffset (exec step s ops).2 ≤ maxOffset
  grows : ∀ header footer,
    (step (exec step s ops).2 (.append header footer)).1.status = .valid →
      (tipOffset (step (exec step s ops).2 (.append header footer)).2).toNat
        = (tipOffset (exec step s ops).2).toNat + (196 + header.payloadSize.toNat)
  rejected : ∀ op, (step (exec step s ops).2 op).1.status ≠ .valid →
    (step (exec step s ops).2 op).2 = (exec step s ops).2
  chained : (acceptedEvents (exec step s ops).1).IsChain
    fun e e' => e'.2.prevHash = e.2.eventHash

namespace WritePath

variable {S : Type} (W : WritePath S)

/-- A write path as a log of segments. -/
def log : SegmentedLog S Operation Reply (EventHeader × EventFooter) HashType where
  step := W.step
  accepted r := decide (r.status = .valid)
  entry := Operation.event
  size e := 196 + e.1.payloadSize.toNat
  prev e := e.2.prevHash
  hash e := e.2.eventHash
  offset s := (W.tipOffset s).toNat
  tip := W.tipHash
  count s := (W.eventsSealed s).toNat
  limit := maxOffset.toNat
  modulus := 2 ^ 64
  rejected s op h := W.rejected s op (of_decide_eq_false h)
  append s op e hentry hoff hacc := by
    cases op with
    | append header footer =>
        obtain rfl := Option.some.inj hentry
        obtain ⟨hprev, hfits, htip, hhash, hsealed⟩ :=
          W.append s header footer (of_decide_eq_true hacc)
        have hnew := add_eventTotalSize_toNat (UInt64.le_iff_toNat_le.mpr hoff) header
        rw [UInt64.le_iff_toNat_le, hnew] at hfits
        refine ⟨fun hpos => hprev (UInt64.lt_iff_toNat_lt.mpr hpos), hfits, ?_, hhash, ?_⟩
        · rw [htip, hnew]
        · rw [hsealed, UInt64.toNat_add]
          rfl
    | rotate newSegmentId newSequence => simp [Operation.event] at hentry
  rotate s op hentry hacc := by
    cases op with
    | append header footer => simp [Operation.event] at hentry
    | rotate newSegmentId newSequence =>
        obtain ⟨htip, hhash, hsealed⟩ :=
          W.rotate s newSegmentId newSequence (of_decide_eq_true hacc)
        rw [htip, hhash, hsealed]
        exact ⟨rfl, rfl, rfl⟩

lemma entries_log (hist : List (Operation × Reply)) : W.log.entries hist = acceptedEvents hist := by
  simp [SegmentedLog.entries, acceptedEvents, log]

variable {W}

/-- No call leaves the segment. -/
lemma tipOffset_step {s : S} (h : W.tipOffset s ≤ maxOffset) (op : Operation) :
    W.tipOffset (W.step s op).2 ≤ maxOffset :=
  UInt64.le_iff_toNat_le.mpr
    (SegmentedLog.offset_step (L := W.log) (UInt64.le_iff_toNat_le.mp h) op)

/-- No run leaves the segment. -/
lemma tipOffset_exec {s : S} (h : W.tipOffset s ≤ maxOffset) (ops : List Operation) :
    W.tipOffset (exec W.step s ops).2 ≤ maxOffset :=
  UInt64.le_iff_toNat_le.mpr
    (SegmentedLog.offset_le (L := W.log) (UInt64.le_iff_toNat_le.mp h) ops)

/-- The invariant behind every run from offset 0 and no event, as long as the
accepted events fit the count. -/
theorem runInvariant {s : S} (htip : W.tipOffset s = 0) (hsealed : W.eventsSealed s = 0)
    (ops : List Operation)
    (hlen : (acceptedEvents (exec W.step s ops).1).length < 2 ^ 64) :
    RunInvariant W.step W.tipOffset s ops := by
  have hzero : W.tipOffset s ≤ maxOffset := by
    rw [htip]
    decide
  have hinside := tipOffset_exec hzero ops
  have hchained := SegmentedLog.chained_exec (L := W.log) (UInt64.le_iff_toNat_le.mp hzero)
    (UInt64.toNat_inj.mpr hsealed) ops (by rw [entries_log]; exact hlen)
  refine ⟨hinside, fun header footer hvalid => ?_, fun op => W.rejected _ op, ?_⟩
  · rw [(W.append _ header footer hvalid).2.2.1, add_eventTotalSize_toNat hinside]
  · rw [← entries_log]
    exact hchained.chain

end WritePath

end SovereignBus
