import SovereignBus.Ada.WritePath

/-!
The write-ahead log of `seb/kernel/src/seb_wal.adb`.

* `WalState`, `protectedInitialize`, `appendEventInternal`,
  `rotateSegmentInternal`: the protected state and its procedures. `Admits` says
  which events are committed, and `writePath` that the procedures are a write
  path.
* `Open`: every valid event that fits can still be appended. `open_iff` says that
  this is lost at offset 0 behind the first event.
* `wal_open_iff`: a run never loses it exactly when it does not rotate behind an
  event.
-/

namespace SovereignBus

namespace SebWal

open SebTypes Machine

/-! ### The protected state -/

/-- `Kernel_State_Protected`, without the segment mappings. -/
structure WalState where
  segIndex : ℕ
  curSegmentId : UInt64
  curSequence : UInt64
  tipHash : HashType
  tipOffset : UInt64
  eventsSealed : UInt64
  segmentsRotated : UInt64

/-- `Max_Segments`. -/
def maxSegments : ℕ := 1024

/-- `Initialize`. -/
def protectedInitialize (initialSegmentId initialSequence : UInt64) : WalState :=
  ⟨1, initialSegmentId, initialSequence, genesisHash, 0, 0, 0⟩

/-- `Append_Event_Internal`. -/
def appendEventInternal (s : WalState) (header : EventHeader) (footer : EventFooter) :
    Reply × WalState :=
  if s.eventsSealed > 0 ∧ footer.prevHash ≠ s.tipHash then (⟨.invalidHash, 0⟩, s)
  else if header.prevOffset ≥ s.tipOffset ∧ s.eventsSealed > 0 then (⟨.invalidOffset, 0⟩, s)
  else
    let eventSize := eventTotalSize header
    let newOffset := s.tipOffset + eventSize
    if newOffset > maxOffset then (⟨.segmentFull, 0⟩, s)
    else
      (⟨.valid, s.tipOffset⟩, { s with
        tipHash := footer.eventHash, tipOffset := newOffset, eventsSealed := s.eventsSealed + 1 })

/-- `Rotate_Segment_Internal`. -/
def rotateSegmentInternal (s : WalState) (newSegmentId newSequence : UInt64) : Reply × WalState :=
  if s.segIndex ≥ maxSegments then (⟨.unknownError, 0⟩, s)
  else
    (⟨.valid, 0⟩, { s with
      segIndex := s.segIndex + 1, curSegmentId := newSegmentId, curSequence := newSequence,
      tipOffset := 0, segmentsRotated := s.segmentsRotated + 1 })

/-- The calls of the protected state. -/
def step (s : WalState) : Operation → Reply × WalState
  | .append header footer => appendEventInternal s header footer
  | .rotate newSegmentId newSequence => rotateSegmentInternal s newSegmentId newSequence

/-- The tests an event passes. -/
structure Admits (s : WalState) (header : EventHeader) (footer : EventFooter) : Prop where
  prevHash : s.eventsSealed > 0 → footer.prevHash = s.tipHash
  prevOffset : s.eventsSealed > 0 → header.prevOffset < s.tipOffset
  fits : s.tipOffset + eventTotalSize header ≤ maxOffset

/-- The state an admitted event leaves. -/
def WalState.commit (s : WalState) (header : EventHeader) (footer : EventFooter) : WalState :=
  { s with
    tipHash := footer.eventHash, tipOffset := s.tipOffset + eventTotalSize header,
    eventsSealed := s.eventsSealed + 1 }

/-- An event that passes the tests is committed, and the offset before it is put
out. -/
lemma appendEventInternal_of_admits {s : WalState} {header : EventHeader} {footer : EventFooter}
    (h : Admits s header footer) :
    appendEventInternal s header footer = (⟨.valid, s.tipOffset⟩, s.commit header footer) := by
  rw [appendEventInternal, if_neg fun hbad => hbad.2 (h.prevHash hbad.1),
    if_neg fun hbad => absurd (h.prevOffset hbad.2) (UInt64.not_lt.mpr hbad.1)]
  exact if_neg (UInt64.not_lt.mpr h.fits)

/-- Any other event changes nothing. -/
lemma appendEventInternal_of_not_admits {s : WalState} {header : EventHeader}
    {footer : EventFooter} (h : ¬ Admits s header footer) :
    (appendEventInternal s header footer).1.status ≠ .valid
      ∧ (appendEventInternal s header footer).2 = s := by
  rw [appendEventInternal]
  dsimp only
  split_ifs with hhash hoffset hfits
  · exact ⟨by simp, rfl⟩
  · exact ⟨by simp, rfl⟩
  · exact ⟨by simp, rfl⟩
  · refine absurd ⟨fun hpos => ?_, fun hpos => ?_, UInt64.not_lt.mp hfits⟩ h
    · by_contra hne
      exact hhash ⟨hpos, hne⟩
    · by_contra hge
      exact hoffset ⟨UInt64.not_lt.mp hge, hpos⟩

lemma appendEventInternal_valid_iff {s : WalState} {header : EventHeader} {footer : EventFooter} :
    (appendEventInternal s header footer).1.status = .valid ↔ Admits s header footer := by
  constructor
  · intro h
    by_contra hnot
    exact (appendEventInternal_of_not_admits hnot).1 h
  · intro h
    rw [appendEventInternal_of_admits h]

/-- What a rotation does. -/
lemma rotateSegmentInternal_cases (s : WalState) (newSegmentId newSequence : UInt64) :
    (s.segIndex < maxSegments
      ∧ rotateSegmentInternal s newSegmentId newSequence
        = (⟨.valid, 0⟩, { s with
          segIndex := s.segIndex + 1, curSegmentId := newSegmentId, curSequence := newSequence,
          tipOffset := 0, segmentsRotated := s.segmentsRotated + 1 }))
    ∨ (¬ s.segIndex < maxSegments
      ∧ rotateSegmentInternal s newSegmentId newSequence = (⟨.unknownError, 0⟩, s)) := by
  rw [rotateSegmentInternal]
  split_ifs with hfull
  · exact .inr ⟨not_lt.mpr hfull, rfl⟩
  · exact .inl ⟨not_le.mp hfull, rfl⟩

/-- The write-ahead log as a write path. -/
def writePath : WritePath WalState where
  step := step
  tipOffset := WalState.tipOffset
  tipHash := WalState.tipHash
  eventsSealed := WalState.eventsSealed
  rejected s op h := by
    cases op with
    | append header footer =>
        exact (appendEventInternal_of_not_admits (h ∘ appendEventInternal_valid_iff.mpr)).2
    | rotate newSegmentId newSequence =>
        rcases rotateSegmentInternal_cases s newSegmentId newSequence with ⟨-, heq⟩ | ⟨-, heq⟩
        · simp [step, heq] at h
        · rw [step, heq]
  append s header footer h := by
    have hadm := appendEventInternal_valid_iff.mp h
    refine ⟨hadm.prevHash, hadm.fits, ?_⟩
    rw [step, appendEventInternal_of_admits hadm]
    exact ⟨rfl, rfl, rfl⟩
  rotate s newSegmentId newSequence h := by
    rcases rotateSegmentInternal_cases s newSegmentId newSequence with ⟨-, heq⟩ | ⟨-, heq⟩
    · rw [step, heq]
      exact ⟨rfl, rfl, rfl⟩
    · simp [step, heq] at h

/-! ### Open logs -/

/-- Every valid event that fits in the segment and continues the chain is
accepted with some previous offset. -/
def Open (s : WalState) : Prop :=
  ∀ header footer, isValidHeader header = true →
    s.tipOffset.toNat + (eventTotalSize header).toNat ≤ maxOffset.toNat →
    footer.prevHash = s.tipHash →
    ∃ prevOffset, (appendEventInternal s { header with prevOffset } footer).1.status = .valid

/-- A log is open unless its offset is 0 behind an event. -/
lemma open_iff (s : WalState) : Open s ↔ (s.eventsSealed > 0 → s.tipOffset > 0) := by
  simp only [Open, appendEventInternal_valid_iff]
  constructor
  · intro h hpos
    by_contra hnot
    have hzero : s.tipOffset.toNat = 0 := by
      rw [gt_iff_lt, UInt64.lt_iff_toNat_lt, UInt64.toNat_zero] at hnot
      omega
    -- the smallest event fits, but no previous offset is below 0
    obtain ⟨prevOffset, hadm⟩ := h ⟨1, 0⟩ ⟨s.tipHash, s.tipHash⟩ rfl
      (by rw [hzero]; decide) rfl
    have hlt := UInt64.lt_iff_toNat_lt.mp (hadm.prevOffset hpos)
    omega
  · intro h header footer _ hfits hprev
    refine ⟨0, fun _ => hprev, h, ?_⟩
    have hmax : maxOffset.toNat = 1073741823 := rfl
    have hsize : eventTotalSize { header with prevOffset := 0 } = eventTotalSize header := rfl
    rw [hsize, UInt64.le_iff_toNat_le, UInt64.toNat_add]
    omega

/-- A rotation that succeeds behind an event. -/
def RotatesBehindEvent (s : WalState) : Operation → Prop
  | .append _ _ => False
  | .rotate _ _ => s.segIndex < maxSegments ∧ s.eventsSealed > 0

/-- Exactly a rotation behind an event closes an open log. -/
lemma open_step {s : WalState} (htip : s.tipOffset ≤ maxOffset) (h : Open s) (op : Operation) :
    Open (step s op).2 ↔ ¬ RotatesBehindEvent s op := by
  cases op with
  | append header footer =>
      refine iff_of_true ?_ not_false
      by_cases hadm : Admits s header footer
      · have hnew := add_eventTotalSize_toNat htip header
        rw [step, appendEventInternal_of_admits hadm, open_iff]
        intro _
        rw [gt_iff_lt, UInt64.lt_iff_toNat_lt, WalState.commit, hnew, UInt64.toNat_zero]
        omega
      · rwa [step, (appendEventInternal_of_not_admits hadm).2]
  | rotate newSegmentId newSequence =>
      rw [step, RotatesBehindEvent]
      rcases rotateSegmentInternal_cases s newSegmentId newSequence with ⟨hroom, heq⟩ | ⟨hfull, heq⟩
      · rw [heq, open_iff]
        simp [hroom]
      · rw [heq]
        exact iff_of_true h fun hbad => hfull hbad.1

/-- A run keeps the log open exactly when no rotation of it succeeds behind an
event. -/
theorem wal_open_iff (initialSegmentId initialSequence : UInt64) (ops : List Operation) :
    (∀ ops', ops' <+: ops →
        Open (exec step (protectedInitialize initialSegmentId initialSequence) ops').2)
      ↔ ∀ ops' op, ops' ++ [op] <+: ops → ¬ RotatesBehindEvent
        (exec step (protectedInitialize initialSegmentId initialSequence) ops').2 op := by
  have h0 : (protectedInitialize initialSegmentId initialSequence).tipOffset ≤ maxOffset
      ∧ Open (protectedInitialize initialSegmentId initialSequence) :=
    ⟨UInt64.le_iff_toNat_le.mpr (Nat.zero_le _),
      (open_iff _).mpr fun h => absurd h (UInt64.lt_irrefl 0)⟩
  have hstep : ∀ (s : WalState) op, s.tipOffset ≤ maxOffset ∧ Open s →
      ((step s op).2.tipOffset ≤ maxOffset ∧ Open (step s op).2 ↔ ¬ RotatesBehindEvent s op) := by
    rintro s op ⟨htip, hopen⟩
    have htip' := WritePath.tipOffset_step (W := writePath) htip op
    exact (and_iff_right htip').trans (open_step htip hopen op)
  rw [← run_iff (P := fun s => s.tipOffset ≤ maxOffset ∧ Open s) h0 hstep ops]
  constructor
  · intro h ops' hpre
    have htip := WritePath.tipOffset_exec (W := writePath)
      (s := protectedInitialize initialSegmentId initialSequence) h0.1 ops'
    exact ⟨htip, h ops' hpre⟩
  · exact fun h ops' hpre => (h ops' hpre).2

/-- One event and a rotation close the log. -/
theorem wal_closed_by_rotation :
    ¬ Open (exec step (protectedInitialize 1 1)
      [.append ⟨1, 0⟩ ⟨genesisHash, genesisHash⟩, .rotate 2 2]).2 := by
  rw [open_iff]
  decide

end SebWal

end SovereignBus
