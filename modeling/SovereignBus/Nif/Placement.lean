import SovereignBus.Nif.Wal
import SovereignBus.Library.Extents

/-!
Where the WAL NIF places the events of a segment.

* `wal_follows`: the offset returned for an event is the header offset of the
  event before it in the segment, and 0 for the first. The size of an event
  does not enter.
* `wal_placed_iff`: so the placement is sound exactly when the callers' header
  offsets leave room for the events.
-/

namespace SovereignBus

namespace WalNif

open Framing Extents

/-- The two sizes an event has: the one its header declares, and the one of its
bytes on the wire. -/
inductive Sizing where
  | declared
  | wire

/-- The total size of an accepted event. -/
def Sizing.size : Sizing → Accepted fixedFooterSize → ℕ
  | declared, a => 68 + (payloadSize a.event).toNat + 128
  | wire, a => a.size

/-- The offset in the header of an accepted event, which the next one gets. -/
def headerOffset (a : Accepted fixedFooterSize) : ℕ := (newOffset a.event).toNat

lemma Sizing.size_pos (sizing : Sizing) (a : Accepted fixedFooterSize) : 0 < sizing.size a := by
  cases sizing with
  | declared => rw [size]; omega
  | wire => exact a.size_pos

/-- What ties the tip offset to the history: every event follows the header
offset of the event before it, and so will the next one. -/
structure PlaceInv (hist : List (Op × Reply)) (h : WalHandle) : Prop where
  follows : ∀ seg ∈ (segments fixedFooterSize hist).all, Follows Accepted.start headerOffset 0 seg
  tipOffset : h.tipOffset.toNat = cursor headerOffset 0 (segments fixedFooterSize hist).current

lemma placeInv_init {alloc : Bool} {argv : List Term} {h : WalHandle}
    (hinit : nifInitKernel alloc argv = .ok h) : PlaceInv [] h := by
  rw [nifInitKernel] at hinit
  split at hinit
  · exact absurd hinit (by simp)
  · obtain rfl := Except.ok.inj hinit
    exact ⟨by simp [segments, Epochs.all, Follows], by simp [segments]⟩

/-- An accepted event keeps the invariant. -/
lemma PlaceInv.of_append {hist : List (Op × Reply)} {h : WalHandle} (inv : PlaceInv hist h)
    (e : EventBytes fixedFooterSize) :
    PlaceInv (hist ++ [(.append e.argv, .ok h.tipOffset)]) (h.commit e) := by
  have hseg := segments_concat_accepted hist (rotatedTo_append _ _)
    (acceptedEvent_append e h.tipOffset)
  constructor
  · intro seg hmem
    rw [hseg, Epochs.mem_all] at hmem
    rcases hmem with hpast | rfl
    · exact inv.follows seg (Epochs.mem_all.mpr (Or.inl hpast))
    · refine (follows_concat _ _).mpr ⟨inv.follows _ (Epochs.mem_all.mpr (Or.inr rfl)), ?_⟩
      rw [← inv.tipOffset]
      rfl
  · rw [hseg, cursor_concat]
    rfl

/-- A rotation keeps the invariant. -/
lemma PlaceInv.of_rotate {hist : List (Op × Reply)} {h h' : WalHandle} (inv : PlaceInv hist h)
    {c : Op × Reply} {newSeq : UInt64} (hrot : rotatedTo c = some newSeq)
    (hoff : h'.tipOffset = 0) : PlaceInv (hist ++ [c]) h' := by
  have hseg : segments fixedFooterSize (hist ++ [c]) = _ := segments_concat_rotated hist hrot
  constructor
  · intro seg hmem
    rw [hseg, Epochs.mem_all] at hmem
    rcases hmem with hpast | rfl
    · exact inv.follows seg hpast
    · trivial
  · rw [hseg, hoff]
    rfl

/-- A call that does not answer `ok` keeps the invariant. -/
lemma PlaceInv.of_ne {hist : List (Op × Reply)} {h : WalHandle} (inv : PlaceInv hist h) {op : Op}
    {reply : Reply} (hne : ∀ n, reply ≠ .ok n) : PlaceInv (hist ++ [(op, reply)]) h := by
  have hseg : segments fixedFooterSize (hist ++ [(op, reply)]) = segments fixedFooterSize hist :=
    segments_concat_other hist (rotatedTo_of_ne hne) (acceptedEvent_of_ne hne)
  obtain ⟨hfollows, htip⟩ := inv
  exact ⟨by rwa [hseg], by rwa [hseg]⟩

/-- The offsets of every run follow the header offsets. -/
lemma wal_follows {alloc : Bool} {argv : List Term} {h : WalHandle}
    (hinit : nifInitKernel alloc argv = .ok h) (ops : List Op) :
    PlaceInv (Machine.exec step h ops).1 (Machine.exec step h ops).2 := by
  refine Machine.exec_induction step (C := fun _ => True) (placeInv_init hinit)
    (fun hist t op _ inv => ?_) ops (fun _ _ => trivial)
  cases op with
  | append argv =>
      rcases nifAppendEvent_cases t argv with ⟨hne, hsame⟩ | ⟨e, rfl, -, heq⟩
      · rw [step, hsame]
        exact inv.of_ne hne
      · rw [step, heq]
        exact inv.of_append e
  | rotate argv =>
      rcases nifRotateSegment_cases t argv with ⟨hne, hsame⟩ | ⟨newId, newSeq, hrot, heq⟩
      · rw [step, hsame]
        exact inv.of_ne hne
      · rw [step, heq]
        exact inv.of_rotate hrot rfl

/-- Exactly when the events of a segment are placed with increasing offsets,
disjoint ranges and inside the segment, over every run of calls on a handle
that `init_kernel` created: when every event ends within the segment and before
the header offset it hands to its successor. -/
theorem wal_placed_iff {alloc : Bool} {argv : List Term} {h : WalHandle}
    (hinit : nifInitKernel alloc argv = .ok h) (ops : List Op) (sizing : Sizing) :
    (∀ seg ∈ (segments fixedFooterSize (Machine.exec step h ops).1).all,
        Placed Accepted.start sizing.size (2 ^ 30) seg)
      ↔ ∀ seg ∈ (segments fixedFooterSize (Machine.exec step h ops).1).all,
          Spaced sizing.size headerOffset (2 ^ 30) 0 seg :=
  forall₂_congr fun seg hseg =>
    placed_iff_spaced ((wal_follows hinit ops).follows seg hseg) fun a _ => sizing.size_pos a

/-- A first event with an empty payload and the header offset 1, which leaves
no room for it. -/
def crowdingEvent : EventBytes fixedFooterSize :=
  offsetEvent firstWal.tipHash firstWal.tipHash 1

/-- The handle behind it. -/
def crowdedWal : WalHandle := firstWal.commit crowdingEvent

/-- The event it crowds. -/
def crowdedEvent : EventBytes fixedFooterSize :=
  offsetEvent crowdedWal.tipHash crowdedWal.tipHash 2

def crowdedCalls : List Op := [.append crowdingEvent.argv, .append crowdedEvent.argv]

/-- The placement after the calls `crowdedCalls`. -/
theorem wal_placed_iff_crowded :
    (∀ seg ∈ (segments fixedFooterSize (Machine.exec step firstWal crowdedCalls).1).all,
        Placed Accepted.start Sizing.wire.size (2 ^ 30) seg)
      ↔ ∀ seg ∈ (segments fixedFooterSize (Machine.exec step firstWal crowdedCalls).1).all,
          Spaced Sizing.wire.size headerOffset (2 ^ 30) 0 seg :=
  wal_placed_iff nifInitKernel_firstWal crowdedCalls .wire

lemma crowdedWal_tipOffset : crowdedWal.tipOffset = 1 := newOffset_offsetEvent _ _ _

/-- Both events are accepted, at the offsets 0 and 1. -/
lemma exec_crowdedCalls :
    (Machine.exec step firstWal crowdedCalls).1
      = [(.append crowdingEvent.argv, .ok 0), (.append crowdedEvent.argv, .ok 1)] := by
  have hadm : Admitted firstWal crowdingEvent :=
    admitted_offsetEvent (fun _ => rfl) (by simp [firstWal])
  have hadm' : Admitted crowdedWal crowdedEvent :=
    admitted_offsetEvent (fun _ => rfl) (by rw [crowdedWal_tipOffset]; decide)
  have hfirst : step firstWal (.append crowdingEvent.argv)
      = (.ok firstWal.tipOffset, crowdedWal) := by
    rw [step, nifAppendEvent_eq_ok rfl hadm, crowdedWal]
  have hsecond : step crowdedWal (.append crowdedEvent.argv)
      = (.ok crowdedWal.tipOffset, crowdedWal.commit crowdedEvent) := by
    rw [step, nifAppendEvent_eq_ok rfl hadm']
  simp only [crowdedCalls, Machine.exec, hfirst, hsecond, crowdedWal_tipOffset]
  rfl

/-- Two accepted events of one segment whose ranges overlap, by either size. -/
theorem wal_overlaps :
    nifInitKernel true [.int 1, .int 0] = .ok firstWal
      ∧ (Machine.exec step firstWal crowdedCalls).1
          = [(.append crowdingEvent.argv, .ok 0), (.append crowdedEvent.argv, .ok 1)]
      ∧ ∀ sizing : Sizing,
          ¬ ∀ seg ∈ (segments fixedFooterSize (Machine.exec step firstWal crowdedCalls).1).all,
            Placed Accepted.start sizing.size (2 ^ 30) seg := by
  refine ⟨nifInitKernel_firstWal, exec_crowdedCalls, fun sizing hplaced => ?_⟩
  have hseg : (segments fixedFooterSize (Machine.exec step firstWal crowdedCalls).1).all
      = [[⟨crowdingEvent, 0⟩, ⟨crowdedEvent, 1⟩]] := by
    rw [exec_crowdedCalls, ← List.singleton_append, ← List.nil_append [_],
      segments_concat_accepted _ (rotatedTo_append _ _) (acceptedEvent_append _ _),
      segments_concat_accepted _ (rotatedTo_append _ _) (acceptedEvent_append _ _)]
    rfl
  have hsize : sizing.size ⟨crowdingEvent, 0⟩ = 196 ∧ 0 < sizing.size ⟨crowdedEvent, 1⟩ := by
    refine ⟨?_, sizing.size_pos _⟩
    cases sizing with
    | declared => rw [Sizing.size, crowdingEvent, payloadSize_offsetEvent]; rfl
    | wire => rfl
  obtain ⟨hinc, hdisj, -⟩ := hplaced [⟨crowdingEvent, 0⟩, ⟨crowdedEvent, 1⟩] (by rw [hseg]; simp)
  have hend := (disjoint_range_iff hsize.2 (List.rel_of_pairwise_cons hinc (by simp))).mp
    (List.rel_of_pairwise_cons hdisj (by simp))
  rw [hsize.1] at hend
  exact absurd hend (by decide)

end WalNif

end SovereignBus
