import SovereignBus.Ada.Kernel
import SovereignBus.Ada.Wal

/-!
Runs of the two Ada write paths.

* `ada_run_invariant`: the run invariant of the kernel and of the write-ahead
  log.
* `AgreeAt`: the two write paths answer an append alike. `ada_paths_agree_iff`
  says that only runs agree in which both refuse every event.
-/

namespace SovereignBus

open SebTypes Machine

/-- The invariant behind every run of the kernel and of the write-ahead log, as
long as fewer than `2 ^ 64` events were accepted. -/
theorem ada_run_invariant (segmentId sequence : UInt64) (ops : List Operation) :
    ((acceptedEvents
          (exec SebKernel.step (SebKernel.protectedInitialize segmentId sequence) ops).1).length
        < 2 ^ 64 →
      RunInvariant SebKernel.step SebKernel.KernelState.tipOffset
        (SebKernel.protectedInitialize segmentId sequence) ops)
    ∧ ((acceptedEvents
          (exec SebWal.step (SebWal.protectedInitialize segmentId sequence) ops).1).length
        < 2 ^ 64 →
      RunInvariant SebWal.step SebWal.WalState.tipOffset
        (SebWal.protectedInitialize segmentId sequence) ops) :=
  ⟨WritePath.runInvariant (W := SebKernel.writePath) rfl rfl ops,
    WritePath.runInvariant (W := SebWal.writePath) rfl rfl ops⟩

lemma acceptedEvents_length_le (hist : List (Operation × Reply)) :
    (acceptedEvents hist).length ≤ hist.length :=
  List.length_filterMap_le _ hist

/-- Two chained events with a rotation between them. -/
theorem ada_run_invariant_rotated :
    RunInvariant SebKernel.step SebKernel.KernelState.tipOffset
        (SebKernel.protectedInitialize 1 1)
        [.append ⟨1, 0⟩ ⟨genesisHash, fun _ => 1⟩, .rotate 2 2,
          .append ⟨1, 0⟩ ⟨fun _ => 1, fun _ => 2⟩]
      ∧ RunInvariant SebWal.step SebWal.WalState.tipOffset (SebWal.protectedInitialize 1 1)
        [.append ⟨1, 0⟩ ⟨genesisHash, fun _ => 1⟩, .rotate 2 2,
          .append ⟨1, 0⟩ ⟨fun _ => 1, fun _ => 2⟩] := by
  obtain ⟨hkernel, hwal⟩ := ada_run_invariant 1 1
    [.append ⟨1, 0⟩ ⟨genesisHash, fun _ => 1⟩, .rotate 2 2,
      .append ⟨1, 0⟩ ⟨fun _ => 1, fun _ => 2⟩]
  have hshort : 3 < 2 ^ 64 := by decide
  refine ⟨hkernel ((acceptedEvents_length_le _).trans_lt ?_),
    hwal ((acceptedEvents_length_le _).trans_lt ?_)⟩
  · rw [exec_length]
    exact hshort
  · rw [exec_length]
    exact hshort

/-! ### Agreement -/

/-- The two write paths answer an append alike: both accept it, with one offset,
or neither does. -/
def AgreeAt (k : SebKernel.KernelState) (w : SebWal.WalState) (header : EventHeader)
    (footer : EventFooter) : Prop :=
  ((SebKernel.appendEventSafe k header footer).1.status = .valid
      ↔ (SebWal.appendEventInternal w header footer).1.status = .valid)
    ∧ ((SebKernel.appendEventSafe k header footer).1.status = .valid →
      (SebKernel.appendEventSafe k header footer).1.offset
        = (SebWal.appendEventInternal w header footer).1.offset)

/-- The event does not fit in an empty segment. -/
def TooLarge (header : EventHeader) : Prop :=
  maxOffset.toNat < 196 + header.payloadSize.toNat

/-- Nothing was sealed, and the segment is empty. -/
structure Fresh (k : SebKernel.KernelState) (w : SebWal.WalState) : Prop where
  kernelSealed : k.eventsSealed = 0
  kernelOffset : k.tipOffset = 0
  walSealed : w.eventsSealed = 0
  walOffset : w.tipOffset = 0

lemma fits_iff (header : EventHeader) :
    0 + eventTotalSize header ≤ maxOffset ↔ ¬ TooLarge header := by
  rw [UInt64.le_iff_toNat_le, UInt64.zero_add, eventTotalSize_toNat, TooLarge, not_lt]

/-- Neither write path commits an event that is too large. -/
lemma Fresh.not_admits {k : SebKernel.KernelState} {w : SebWal.WalState} (h : Fresh k w)
    {header : EventHeader} (hlarge : TooLarge header) (footer : EventFooter) :
    ¬ SebKernel.Admits k header footer ∧ ¬ SebWal.Admits w header footer := by
  constructor
  · exact fun hadm => (fits_iff header).mp (h.kernelOffset ▸ hadm.fits) hlarge
  · exact fun hadm => (fits_iff header).mp (h.walOffset ▸ hadm.fits) hlarge

/-- On empty segments the two write paths agree about no event that fits: the
write-ahead log commits it at 0, and the kernel behind it or not at all. -/
lemma Fresh.agreeAt_iff {k : SebKernel.KernelState} {w : SebWal.WalState} (h : Fresh k w)
    (header : EventHeader) (footer : EventFooter) :
    AgreeAt k w header footer ↔ TooLarge header := by
  rw [AgreeAt, SebKernel.appendEventSafe_valid_iff, SebWal.appendEventInternal_valid_iff]
  constructor
  · rintro ⟨hiff, hoffset⟩
    by_contra hroom
    have hsealed : ¬ w.eventsSealed > 0 := by
      rw [h.walSealed]
      exact UInt64.lt_irrefl 0
    have hwal : SebWal.Admits w header footer := by
      refine ⟨fun hpos => absurd hpos hsealed, fun hpos => absurd hpos hsealed, ?_⟩
      rw [h.walOffset]
      exact (fits_iff header).mpr hroom
    have hkernel := hiff.mpr hwal
    have heq := hoffset hkernel
    rw [SebKernel.appendEventSafe_of_admits hkernel, SebWal.appendEventInternal_of_admits hwal,
      h.kernelOffset, h.walOffset, UInt64.zero_add, ← UInt64.toNat_inj, eventTotalSize_toNat,
      UInt64.toNat_zero] at heq
    omega
  · intro hlarge
    obtain ⟨hkernel, hwal⟩ := h.not_admits hlarge footer
    exact ⟨iff_of_false hkernel hwal, fun hadm => absurd hadm hkernel⟩

/-- Every event of the run is too large for an empty segment. -/
def AllTooLarge (ops : List Operation) : Prop :=
  ∀ header footer, .append header footer ∈ ops → TooLarge header

/-- A call that appends no event that fits keeps the segments empty. -/
lemma Fresh.step {k : SebKernel.KernelState} {w : SebWal.WalState} (h : Fresh k w)
    {op : Operation} (hop : AllTooLarge [op]) :
    Fresh (SebKernel.step k op).2 (SebWal.step w op).2 := by
  cases op with
  | append header footer =>
      obtain ⟨hkernel, hwal⟩ := h.not_admits (hop header footer List.mem_cons_self) footer
      rwa [SebKernel.step, SebWal.step, (SebKernel.appendEventSafe_of_not_admits hkernel).2,
        (SebWal.appendEventInternal_of_not_admits hwal).2]
  | rotate newSegmentId newSequence =>
      rcases SebWal.rotateSegmentInternal_cases w newSegmentId newSequence with ⟨-, heq⟩ | ⟨-, heq⟩
      · rw [SebWal.step, heq]
        exact ⟨h.kernelSealed, rfl, h.walSealed, rfl⟩
      · rw [SebWal.step, heq]
        exact ⟨h.kernelSealed, rfl, h.walSealed, h.walOffset⟩

/-- A run without an event that fits keeps the segments empty. -/
lemma fresh_exec (segmentId sequence : UInt64) {ops : List Operation} (hops : AllTooLarge ops) :
    Fresh (exec SebKernel.step (SebKernel.protectedInitialize segmentId sequence) ops).2
      (exec SebWal.step (SebWal.protectedInitialize segmentId sequence) ops).2 := by
  induction ops using List.reverseRecOn with
  | nil => exact ⟨rfl, rfl, rfl, rfl⟩
  | append_singleton ops op ih =>
      rw [exec_concat, exec_concat]
      exact (ih fun header footer hmem => hops header footer (List.mem_append_left _ hmem)).step
        fun header footer hmem => hops header footer (List.mem_append_right _ hmem)

/-- The two write paths answer every append of a run alike exactly when no event
of the run fits in a segment, so that both refuse all of them. -/
theorem ada_paths_agree_iff (segmentId sequence : UInt64) (ops : List Operation) :
    (∀ ops' header footer, ops' ++ [.append header footer] <+: ops →
        AgreeAt (exec SebKernel.step (SebKernel.protectedInitialize segmentId sequence) ops').2
          (exec SebWal.step (SebWal.protectedInitialize segmentId sequence) ops').2 header footer)
      ↔ AllTooLarge ops := by
  constructor
  · intro h
    induction ops using List.reverseRecOn with
    | nil => exact fun header footer hmem => absurd hmem List.not_mem_nil
    | append_singleton ops op ih =>
        have hops := ih fun ops' header footer hpre =>
          h ops' header footer (hpre.trans (List.prefix_append ops [op]))
        intro header footer hmem
        rcases List.mem_append.mp hmem with hmem | hmem
        · exact hops header footer hmem
        · obtain rfl := List.mem_singleton.mp hmem
          exact ((fresh_exec segmentId sequence hops).agreeAt_iff header footer).mp
            (h ops header footer (List.prefix_refl _))
  · intro hops ops' header footer hpre
    have hops' : AllTooLarge ops' := fun header' footer' hmem =>
      hops header' footer' (hpre.subset (List.mem_append_left _ hmem))
    exact ((fresh_exec segmentId sequence hops').agreeAt_iff header footer).mpr
      (hops header footer (hpre.subset (List.mem_append_right _ List.mem_cons_self)))

/-- The first event of one byte: the kernel puts out 197, and the write-ahead log
0. -/
theorem ada_paths_disagree :
    ¬ AgreeAt (SebKernel.protectedInitialize 1 1) (SebWal.protectedInitialize 1 1) ⟨1, 0⟩
      ⟨genesisHash, genesisHash⟩ := by
  rintro ⟨-, hoffset⟩
  exact absurd (hoffset (by decide)) (by decide)

end SovereignBus
