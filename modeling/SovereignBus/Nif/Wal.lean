import SovereignBus.Nif.Calls

/-!
The WAL NIF of `seb/runtime/c_src/seb_wal_nif.c`.

* `WalHandle`, `nifInitKernel`, `nifAppendEvent`, `nifRotateSegment`: the handle
  and the functions of the source.
* `nifAppendEvent_cases`, `nifRotateSegment_cases` and `step_of_ne` say once
  what a call can do, `nifAppendEvent_eq_ok` when an event is accepted.
-/

namespace SovereignBus

namespace WalNif

open Framing

/-- `seb_wal_handle`. -/
structure WalHandle where
  segmentId : UInt64
  sequence : UInt64
  tipHash : Poly
  tipOffset : UInt64
  eventsSealed : UInt64
  segmentsRotated : UInt64
  initialized : Bool

/-- `nif_init_kernel`: the genesis tip and nothing sealed. -/
def nifInitKernel (alloc : Bool) (argv : List Term) : Except Reply WalHandle :=
  match initRequest alloc argv with
  | .error reply => .error reply
  | .ok (segId, seq) => .ok ⟨segId, seq, 0, 0, 0, 0, true⟩

/-- `FIXED_FOOTER_SIZE`: the previous hash, the event hash and the signature. -/
abbrev fixedFooterSize : ℕ := 128

/-- The footer's `prev_hash`. -/
def prevHash (e : EventBytes fixedFooterSize) : Poly := field e.footer 32 0

/-- The footer's `event_hash`. -/
def eventHash (e : EventBytes fixedFooterSize) : Poly := field e.footer 32 32

/-- The loop that reads `new_offset` from the header bytes 0 to 7. -/
def newOffset (e : EventBytes fixedFooterSize) : UInt64 :=
  (List.range 8).foldl
    (fun off i => off ||| ((e.header.getD i 0).toUInt64 <<< UInt64.ofNat (i * 8))) 0

/-- The loop that reads `payload_size` from the header bytes 24 to 27. -/
def payloadSize (e : EventBytes fixedFooterSize) : UInt32 :=
  (List.range 4).foldl
    (fun size i => size ||| ((e.header.getD (24 + i) 0).toUInt32 <<< UInt32.ofNat (i * 8))) 0

/-- The size the header declares; the sum is one of 32 bits. -/
def eventSize (e : EventBytes fixedFooterSize) : UInt64 :=
  (68 + payloadSize e + 128 : UInt32).toUInt64

/-- `nif_append_event`. -/
def nifAppendEvent (h : WalHandle) : List Term → Reply × WalHandle
  | [resource, header, payload, footer] =>
      if resource ≠ .handle then (.error, h)
      else if h.initialized = false then (.err .notInitialized, h)
      else
        match inspectEvent fixedFooterSize header payload footer with
        | .error reason => (.err reason, h)
        | .ok e =>
            if h.eventsSealed > 0 ∧ ctDiff (prevHash e) h.tipHash ≠ 0 then
              (.err .hashChainBroken, h)
            else if
                ctDiff (circuit (List.ofFn h.tipHash ++ e.header.take 64)) (eventHash e) ≠ 0 then
              (.err .invalidCommitment, h)
            else if h.eventsSealed > 0 ∧ newOffset e ≤ h.tipOffset then
              (.err .offsetNotMonotonic, h)
            else if eventSize e > segmentSize then (.err .segmentFull, h)
            else
              (.ok h.tipOffset,
                { h with
                  tipHash := eventHash e
                  tipOffset := newOffset e
                  eventsSealed := h.eventsSealed + 1 })
  | _ => (.badarg, h)

/-- `nif_rotate_segment`. -/
def nifRotateSegment (h : WalHandle) (argv : List Term) : Reply × WalHandle :=
  match rotateRequest h.sequence argv with
  | .error reply => (reply, h)
  | .ok (newId, newSeq) =>
      (.ok 0,
        { h with
          segmentId := newId
          sequence := newSeq
          tipOffset := 0
          segmentsRotated := h.segmentsRotated + 1 })

/-- One call on the handle. -/
def step (h : WalHandle) : Op → Reply × WalHandle
  | .append argv => nifAppendEvent h argv
  | .rotate argv => nifRotateSegment h argv

/-! ### What a call does -/

/-- The tests an event has to pass once its binaries have the right sizes. The
first two and the third are made only when something has been sealed before. -/
structure Admitted (h : WalHandle) (e : EventBytes fixedFooterSize) : Prop where
  chain : h.eventsSealed > 0 → prevHash e = h.tipHash
  commitment : eventHash e = sebLatticeCommit h.tipHash e.block
  monotonic : h.eventsSealed > 0 → h.tipOffset < newOffset e
  fits : eventSize e ≤ segmentSize

/-- What the commit of an event makes of the handle. -/
def WalHandle.commit (h : WalHandle) (e : EventBytes fixedFooterSize) : WalHandle :=
  { h with
    tipHash := eventHash e
    tipOffset := newOffset e
    eventsSealed := h.eventsSealed + 1 }

/-- An admitted event is sealed, and the call answers with the offset before
it. -/
lemma nifAppendEvent_eq_ok {h : WalHandle} (hinit : h.initialized = true)
    {e : EventBytes fixedFooterSize} (hadm : Admitted h e) :
    nifAppendEvent h e.argv = (.ok h.tipOffset, h.commit e) := by
  have hev : inspectEvent fixedFooterSize (.bin e.header) (.bin e.payload) (.bin e.footer)
      = .ok e := inspectEvent_eq_ok.mpr ⟨rfl, rfl, rfl⟩
  have hchain : ¬ (h.eventsSealed > 0 ∧ ctDiff (prevHash e) h.tipHash ≠ 0) := fun hc =>
    hc.2 (ctDiff_eq_zero_iff.mpr (hadm.chain hc.1))
  have hmono : ¬ (h.eventsSealed > 0 ∧ newOffset e ≤ h.tipOffset) := fun hm =>
    UInt64.not_le.mpr (hadm.monotonic hm.1) hm.2
  have hfits : ¬ eventSize e > segmentSize := UInt64.not_lt.mpr hadm.fits
  simp only [nifAppendEvent, EventBytes.argv, hev, hinit, circuit_tip_header, hadm.commitment,
    ctDiff_eq_zero_iff.mpr, hchain, hmono, hfits, ne_eq, not_true, if_false, WalHandle.commit]
  simp

/-- A call of `append_event` either answers without `ok` and leaves the handle
alone, or it seals an admitted event. -/
lemma nifAppendEvent_cases (h : WalHandle) (argv : List Term) :
    ((∀ n, (nifAppendEvent h argv).1 ≠ .ok n) ∧ (nifAppendEvent h argv).2 = h)
      ∨ ∃ e : EventBytes fixedFooterSize, argv = e.argv ∧ Admitted h e
          ∧ nifAppendEvent h argv = (.ok h.tipOffset, h.commit e) := by
  match argv with
  | [] | [_] | [_, _] | [_, _, _] | _ :: _ :: _ :: _ :: _ :: _ =>
      exact Or.inl (by simp [nifAppendEvent])
  | [resource, header, payload, footer] =>
      rw [nifAppendEvent]
      split_ifs with hres hinit
      · exact Or.inl (by simp)
      · exact Or.inl (by simp)
      split
      · exact Or.inl (by simp)
      next e he =>
      obtain ⟨rfl, rfl, rfl⟩ := inspectEvent_eq_ok.mp he
      split_ifs with hchain hcommit hmono hfits
      · exact Or.inl (by simp)
      · exact Or.inl (by simp)
      · exact Or.inl (by simp)
      · exact Or.inl (by simp)
      · refine Or.inr ⟨e, by rw [not_not.mp hres]; rfl, ?_, rfl⟩
        rw [not_not, ctDiff_eq_zero_iff, circuit_tip_header] at hcommit
        exact
          { chain := fun hpos => ctDiff_eq_zero_iff.mp (not_not.mp fun hne => hchain ⟨hpos, hne⟩)
            commitment := hcommit.symm
            monotonic := fun hpos => UInt64.not_le.mp fun hle => hmono ⟨hpos, hle⟩
            fits := UInt64.not_lt.mp hfits }

/-- A call of `rotate_segment` either answers without `ok` and leaves the
handle alone, or it opens a segment. -/
lemma nifRotateSegment_cases (h : WalHandle) (argv : List Term) :
    ((∀ n, (nifRotateSegment h argv).1 ≠ .ok n) ∧ (nifRotateSegment h argv).2 = h)
      ∨ ∃ newId newSeq, rotatedTo (.rotate argv, (nifRotateSegment h argv).1) = some newSeq
          ∧ (nifRotateSegment h argv).2
              = { h with
                  segmentId := newId
                  sequence := newSeq
                  tipOffset := 0
                  segmentsRotated := h.segmentsRotated + 1 } := by
  rw [nifRotateSegment]
  rcases rotateRequest_cases h.sequence argv with
    ⟨reply, hreq, hne⟩ | ⟨newId, newSeq, hreq, -, hrot⟩
  · rw [hreq]
    exact Or.inl ⟨hne, rfl⟩
  · rw [hreq]
    exact Or.inr ⟨newId, newSeq, hrot 0, rfl⟩

/-- A call that does not answer `ok` leaves the handle exactly as it was. -/
lemma step_of_ne (h : WalHandle) (op : Op) (hne : ∀ n, (step h op).1 ≠ .ok n) :
    (step h op).2 = h := by
  cases op with
  | append argv =>
      rcases nifAppendEvent_cases h argv with ⟨-, hsame⟩ | ⟨e, -, -, heq⟩
      · exact hsame
      · exact absurd (by rw [step, heq]) (hne h.tipOffset)
  | rotate argv =>
      rcases nifRotateSegment_cases h argv with ⟨-, hsame⟩ | ⟨newId, newSeq, hrot, -⟩
      · exact hsame
      · rw [step] at hne
        rw [rotatedTo_of_ne hne] at hrot
        simp at hrot

/-! ### Events that carry only an offset -/

/-- The handle that `init_kernel(1, 0)` creates. -/
def firstWal : WalHandle := ⟨1, 0, 0, 0, 0, 0, true⟩

lemma nifInitKernel_firstWal : nifInitKernel true [.int 1, .int 0] = .ok firstWal := rfl

/-- The event with an empty payload and a header that is zero behind its first
byte, committed to `tip`, with the previous hash `prev`. -/
def offsetEvent (prev tip : Poly) (offset : UInt8) : EventBytes fixedFooterSize where
  header := offset :: List.replicate 67 0
  payload := []
  footer := List.ofFn prev
    ++ (List.ofFn (sebLatticeCommit tip (field (offset :: List.replicate 67 0) 64 0))
      ++ List.replicate 64 0)
  header_length := by rw [List.length_cons, List.length_replicate]
  footer_length := by
    rw [List.length_append, List.length_append, List.length_ofFn, List.length_ofFn,
      List.length_replicate]

lemma prevHash_offsetEvent (prev tip : Poly) (offset : UInt8) :
    prevHash (offsetEvent prev tip offset) = prev := by
  rw [prevHash, offsetEvent, field_append_left _ (by rw [List.length_ofFn]), field_ofFn]

lemma eventHash_offsetEvent (prev tip : Poly) (offset : UInt8) :
    eventHash (offsetEvent prev tip offset)
      = sebLatticeCommit tip (offsetEvent prev tip offset).block := by
  rw [eventHash, offsetEvent, field_append_right _ (by rw [List.length_ofFn]), List.length_ofFn,
    Nat.sub_self, field_append_left _ (by rw [List.length_ofFn]), field_ofFn]
  rfl

lemma newOffset_offsetEvent (prev tip : Poly) (offset : UInt8) :
    newOffset (offsetEvent prev tip offset) = offset.toUInt64 := by
  simp [newOffset, offsetEvent, List.range_succ]

lemma payloadSize_offsetEvent (prev tip : Poly) (offset : UInt8) :
    payloadSize (offsetEvent prev tip offset) = 0 := by
  simp [payloadSize, offsetEvent, List.range_succ]

/-- Such an event is admitted as far as its hash and offset are. -/
lemma admitted_offsetEvent {h : WalHandle} {prev : Poly} {offset : UInt8}
    (hchain : h.eventsSealed > 0 → prev = h.tipHash)
    (hmono : h.eventsSealed > 0 → h.tipOffset < offset.toUInt64) :
    Admitted h (offsetEvent prev h.tipHash offset) where
  chain hpos := by rw [prevHash_offsetEvent, hchain hpos]
  commitment := eventHash_offsetEvent _ _ _
  monotonic hpos := by rw [newOffset_offsetEvent]; exact hmono hpos
  fits := by rw [eventSize, payloadSize_offsetEvent]; decide

end WalNif

end SovereignBus
