import SovereignBus.Ada.WritePath

/-!
The kernel of `seb/kernel/src/seb_kernel.adb`.

* `KernelState`, `protectedInitialize`, `appendEventSafe`, `rotateSegmentSafe`: the
  protected state and its procedures. `Admits` says which events are committed,
  and `writePath` that the procedures are a write path.
* `KernelHandle`, `System`, `call`: the public interface, with the handle of the
  caller beside the protected state. Contracts are not executed.
* `rotation_law_iff`: the sequence of a handle grows with every rotation of a run
  only when the run has none.
-/

namespace SovereignBus

namespace SebKernel

open SebTypes Machine

/-! ### The protected state -/

/-- `Kernel_State`, with the fields the body uses. -/
structure KernelState where
  tipHash : HashType
  tipOffset : UInt64
  currentSegmentId : UInt64
  eventsSealed : UInt64
  segmentsRotated : UInt64

/-- `Initialize`, which does not use the sequence. -/
def protectedInitialize (initialSegmentId _initialSegmentSequence : UInt64) : KernelState :=
  ⟨genesisHash, 0, initialSegmentId, 0, 0⟩

/-- `Append_Event_Safe`. -/
def appendEventSafe (s : KernelState) (header : EventHeader) (footer : EventFooter) :
    Reply × KernelState :=
  if s.eventsSealed > 0 ∧ footer.prevHash ≠ s.tipHash then (⟨.invalidHash, 0⟩, s)
  else if header.prevOffset > s.tipOffset then (⟨.invalidOffset, 0⟩, s)
  else
    let eventSize := fixedHeaderSize + header.payloadSize.toUInt64 + fixedFooterSize
    let newOffset := s.tipOffset + eventSize
    if newOffset > maxOffset then (⟨.offsetOverflow, 0⟩, s)
    else
      let s' := { s with
        tipHash := footer.eventHash, tipOffset := newOffset, eventsSealed := s.eventsSealed + 1 }
      (⟨.valid, s'.tipOffset⟩, s')

/-- `Rotate_Segment_Safe`, which does not use the sequence. -/
def rotateSegmentSafe (s : KernelState) (newSegmentId _newSegmentSequence : UInt64) :
    Reply × KernelState :=
  (⟨.valid, 0⟩, { s with
    currentSegmentId := newSegmentId, tipOffset := 0, segmentsRotated := s.segmentsRotated + 1 })

/-- The calls of the protected state. -/
def step (s : KernelState) : Operation → Reply × KernelState
  | .append header footer => appendEventSafe s header footer
  | .rotate newSegmentId newSequence => rotateSegmentSafe s newSegmentId newSequence

/-- The tests an event passes. -/
structure Admits (s : KernelState) (header : EventHeader) (footer : EventFooter) : Prop where
  prevHash : s.eventsSealed > 0 → footer.prevHash = s.tipHash
  prevOffset : header.prevOffset ≤ s.tipOffset
  fits : s.tipOffset + eventTotalSize header ≤ maxOffset

/-- The state an admitted event leaves. -/
def KernelState.commit (s : KernelState) (header : EventHeader) (footer : EventFooter) :
    KernelState :=
  { s with
    tipHash := footer.eventHash, tipOffset := s.tipOffset + eventTotalSize header,
    eventsSealed := s.eventsSealed + 1 }

lemma eventSize_eq (header : EventHeader) :
    fixedHeaderSize + header.payloadSize.toUInt64 + fixedFooterSize = eventTotalSize header := by
  rw [eventTotalSize, UInt64.add_assoc, UInt64.add_comm _ fixedFooterSize, UInt64.add_assoc]

/-- An event that passes the tests is committed, and the offset behind it is put
out. -/
lemma appendEventSafe_of_admits {s : KernelState} {header : EventHeader} {footer : EventFooter}
    (h : Admits s header footer) :
    appendEventSafe s header footer
      = (⟨.valid, s.tipOffset + eventTotalSize header⟩, s.commit header footer) := by
  rw [appendEventSafe, if_neg fun hbad => hbad.2 (h.prevHash hbad.1),
    if_neg (UInt64.not_lt.mpr h.prevOffset), eventSize_eq]
  exact if_neg (UInt64.not_lt.mpr h.fits)

/-- Any other event changes nothing. -/
lemma appendEventSafe_of_not_admits {s : KernelState} {header : EventHeader} {footer : EventFooter}
    (h : ¬ Admits s header footer) :
    (appendEventSafe s header footer).1.status ≠ .valid
      ∧ (appendEventSafe s header footer).2 = s := by
  rw [appendEventSafe, eventSize_eq]
  dsimp only
  split_ifs with hhash hoffset hfits
  · exact ⟨by simp, rfl⟩
  · exact ⟨by simp, rfl⟩
  · exact ⟨by simp, rfl⟩
  · refine absurd ⟨fun hpos => ?_, UInt64.not_lt.mp hoffset, UInt64.not_lt.mp hfits⟩ h
    by_contra hne
    exact hhash ⟨hpos, hne⟩

lemma appendEventSafe_valid_iff {s : KernelState} {header : EventHeader} {footer : EventFooter} :
    (appendEventSafe s header footer).1.status = .valid ↔ Admits s header footer := by
  constructor
  · intro h
    by_contra hnot
    exact (appendEventSafe_of_not_admits hnot).1 h
  · intro h
    rw [appendEventSafe_of_admits h]

/-- The kernel as a write path. -/
def writePath : WritePath KernelState where
  step := step
  tipOffset := KernelState.tipOffset
  tipHash := KernelState.tipHash
  eventsSealed := KernelState.eventsSealed
  rejected s op h := by
    cases op with
    | append header footer =>
        exact (appendEventSafe_of_not_admits (h ∘ appendEventSafe_valid_iff.mpr)).2
    | rotate newSegmentId newSequence => exact absurd rfl h
  append s header footer h := by
    have hadm := appendEventSafe_valid_iff.mp h
    refine ⟨hadm.prevHash, hadm.fits, ?_⟩
    rw [step, appendEventSafe_of_admits hadm]
    exact ⟨rfl, rfl, rfl⟩
  rotate _ _ _ _ := ⟨rfl, rfl, rfl⟩

/-! ### The public interface -/

/-- `Kernel_Handle`. -/
structure KernelHandle where
  currentSegmentId : UInt64
  currentSequence : UInt64
  tipHash : HashType
  tipOffset : UInt64
  eventsSealed : UInt64
  segmentsRotated : UInt64

/-- The handle of the caller and the protected state. -/
structure System where
  handle : KernelHandle
  state : KernelState

/-- How a call comes back: with its `out` offset if it has one, or by an
exception. -/
inductive Outcome where
  | initialized
  | returned (offset : UInt64)
  | integrityError
  | segmentFullError

/-- `Initialize_Kernel`. -/
def initializeKernel (initialSegmentId initialSegmentSequence : UInt64) : System :=
  ⟨⟨initialSegmentId, initialSegmentSequence, genesisHash, 0, 0, 0⟩,
    protectedInitialize initialSegmentId initialSegmentSequence⟩

/-- `Append_Event`. -/
def appendEvent (sys : System) (header : EventHeader) (footer : EventFooter) : Outcome × System :=
  let r := appendEventSafe sys.state header footer
  if r.1.status ≠ .valid then (.integrityError, { sys with state := r.2 })
  else
    let handle := { sys.handle with
      tipHash := footer.eventHash, tipOffset := r.1.offset,
      eventsSealed := sys.handle.eventsSealed + 1 }
    (.returned r.1.offset, ⟨handle, r.2⟩)

/-- `Rotate_Segment`. -/
def rotateSegment (sys : System) (newSegmentId newSegmentSequence : UInt64) : Outcome × System :=
  let r := rotateSegmentSafe sys.state newSegmentId newSegmentSequence
  if r.1.status ≠ .valid then (.segmentFullError, { sys with state := r.2 })
  else
    let handle := { sys.handle with
      currentSegmentId := newSegmentId, segmentsRotated := sys.handle.segmentsRotated + 1 }
    (.returned r.1.offset, ⟨handle, r.2⟩)

/-- `Get_Current_Sequence`. -/
def getCurrentSequence (handle : KernelHandle) : UInt64 := handle.currentSequence

inductive Call where
  | initializeKernel (initialSegmentId initialSegmentSequence : UInt64)
  | appendEvent (header : EventHeader) (footer : EventFooter)
  | rotateSegment (newSegmentId newSegmentSequence : UInt64)

def call (sys : System) : Call → Outcome × System
  | .initializeKernel initialSegmentId initialSegmentSequence =>
      (.initialized, initializeKernel initialSegmentId initialSegmentSequence)
  | .appendEvent header footer => appendEvent sys header footer
  | .rotateSegment newSegmentId newSegmentSequence =>
      rotateSegment sys newSegmentId newSegmentSequence

/-! ### Rotation -/

/-- A rotation that succeeds raises the reported sequence to the requested one,
and a request that would not raise it is refused and changes nothing. -/
structure RotationLaw (sys : System) (newSegmentId newSegmentSequence : UInt64) : Prop where
  raises : ∀ offset, (rotateSegment sys newSegmentId newSegmentSequence).1 = .returned offset →
    getCurrentSequence sys.handle
        < getCurrentSequence (rotateSegment sys newSegmentId newSegmentSequence).2.handle
      ∧ getCurrentSequence (rotateSegment sys newSegmentId newSegmentSequence).2.handle
        = newSegmentSequence
  refuses : newSegmentSequence ≤ getCurrentSequence sys.handle →
    (∀ offset, (rotateSegment sys newSegmentId newSegmentSequence).1 ≠ .returned offset)
      ∧ (rotateSegment sys newSegmentId newSegmentSequence).2 = sys

/-- Every rotation succeeds and keeps the sequence. -/
lemma rotateSegment_returned (sys : System) (newSegmentId newSegmentSequence : UInt64) :
    (rotateSegment sys newSegmentId newSegmentSequence).1 = .returned 0
      ∧ getCurrentSequence (rotateSegment sys newSegmentId newSegmentSequence).2.handle
        = getCurrentSequence sys.handle :=
  ⟨rfl, rfl⟩

lemma not_rotationLaw (sys : System) (newSegmentId newSegmentSequence : UInt64) :
    ¬ RotationLaw sys newSegmentId newSegmentSequence := by
  intro h
  obtain ⟨hreturned, hkeeps⟩ := rotateSegment_returned sys newSegmentId newSegmentSequence
  have hlt := (h.raises 0 hreturned).1
  rw [hkeeps] at hlt
  exact UInt64.lt_irrefl _ hlt

/-- The law of rotation holds in a run exactly when the run does not rotate. -/
theorem rotation_law_iff (sys : System) (calls : List Call) :
    (∀ calls' newSegmentId newSegmentSequence,
        calls' ++ [.rotateSegment newSegmentId newSegmentSequence] <+: calls →
        RotationLaw (exec call sys calls').2 newSegmentId newSegmentSequence)
      ↔ ∀ newSegmentId newSegmentSequence,
        .rotateSegment newSegmentId newSegmentSequence ∉ calls := by
  constructor
  · intro h newSegmentId newSegmentSequence hmem
    obtain ⟨calls', rest, rfl⟩ := List.append_of_mem hmem
    refine not_rotationLaw _ _ _ (h calls' newSegmentId newSegmentSequence ?_)
    exact ⟨rest, by rw [List.append_assoc, List.singleton_append]⟩
  · intro h calls' newSegmentId newSegmentSequence hpre
    exact absurd (hpre.subset (by simp)) (h newSegmentId newSegmentSequence)

/-- A rotation from sequence 5 to sequence 6 leaves 5, and one to sequence 3 is
not refused. -/
theorem rotation_law_fails :
    ¬ RotationLaw (initializeKernel 1 5) 2 6 ∧ ¬ RotationLaw (initializeKernel 1 5) 2 3 :=
  ⟨fun h => absurd (h.raises 0 rfl).1 (by decide), fun h => (h.refuses (by decide)).1 0 rfl⟩

end SebKernel

end SovereignBus
