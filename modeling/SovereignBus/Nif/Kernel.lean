import SovereignBus.Nif.Calls
import SovereignBus.Library.Extents

/-!
The kernel NIF of `seb/runtime/c_src/seb_kernel_nif.c`.

* `KernelHandle`, `nifInitKernel`, `nifAppendEvent`, `nifRotateSegment`: the
  handle and the functions of the source. `nifAppendEvent_cases` and
  `nifRotateSegment_cases` say once what a call can do.
* `RunInv`: what ties the handle to the history of its calls.
* `kernel_run_invariant`: the events of a segment are packed, the tip is the
  commitment of all accepted headers, and the counters count.
-/

namespace SovereignBus

namespace KernelNif

open Framing Extents

/-- `seb_kernel_handle`. -/
structure KernelHandle where
  currentSegmentId : UInt64
  currentSequence : UInt64
  tip : Poly
  tipOffset : UInt64
  eventsSealed : UInt64
  segmentsRotated : UInt64

/-- `nif_init_kernel`: the genesis tip and nothing sealed. -/
def nifInitKernel (alloc : Bool) (argv : List Term) : Except Reply KernelHandle :=
  match initRequest alloc argv with
  | .error reply => .error reply
  | .ok (segmentId, segmentSequence) => .ok ⟨segmentId, segmentSequence, 0, 0, 0, 0⟩

/-- `FIXED_FOOTER_SIZE`: the previous commitment and the commitment. -/
abbrev fixedFooterSize : ℕ := 64

/-- The sum of the three sizes on 64 bits. -/
def eventSize (e : EventBytes fixedFooterSize) : UInt64 := 68 + UInt64.ofNat e.payload.length + 64

/-- The footer's `prev_commit`. -/
def prevCommit (e : EventBytes fixedFooterSize) : Poly := field e.footer 32 0

/-- The footer's `recv_commit`. -/
def recvCommit (e : EventBytes fixedFooterSize) : Poly := field e.footer 32 32

/-- `nif_append_event`. -/
def nifAppendEvent (h : KernelHandle) : List Term → Reply × KernelHandle
  | [resource, header, payload, footer] =>
      if resource ≠ .handle then (.error, h)
      else
        match inspectEvent fixedFooterSize header payload footer with
        | .error reason => (.err reason, h)
        | .ok e =>
            if eventSize e > segmentSize - h.tipOffset then (.err .segmentFull, h)
            else if h.eventsSealed > 0 ∧ prevCommit e ≠ h.tip then (.err .hashChainBroken, h)
            else if circuit (List.ofFn h.tip ++ e.header.take 64) ≠ recvCommit e then
              (.err .invalidCommitment, h)
            else
              (.ok h.tipOffset,
                { h with
                  tipOffset := h.tipOffset + eventSize e
                  tip := recvCommit e
                  eventsSealed := h.eventsSealed + 1 })
  | _ => (.badarg, h)

/-- `nif_rotate_segment`. -/
def nifRotateSegment (h : KernelHandle) (argv : List Term) : Reply × KernelHandle :=
  match rotateRequest h.currentSequence argv with
  | .error reply => (reply, h)
  | .ok (newId, newSeq) =>
      (.ok 0,
        { h with
          currentSegmentId := newId
          currentSequence := newSeq
          tipOffset := 0
          segmentsRotated := h.segmentsRotated + 1 })

/-- One call on the handle. -/
def step (h : KernelHandle) : Op → Reply × KernelHandle
  | .append argv => nifAppendEvent h argv
  | .rotate argv => nifRotateSegment h argv

/-! ### What a call does -/

/-- A call of `append_event` either answers without `ok` and leaves the handle
alone, or it seals the event at the tip offset. -/
lemma nifAppendEvent_cases (h : KernelHandle) (argv : List Term) :
    ((∀ n, (nifAppendEvent h argv).1 ≠ .ok n) ∧ (nifAppendEvent h argv).2 = h)
      ∨ ∃ e : EventBytes fixedFooterSize,
          argv = e.argv
            ∧ eventSize e ≤ segmentSize - h.tipOffset
            ∧ recvCommit e = sebLatticeCommit h.tip e.block
            ∧ nifAppendEvent h argv
                = (.ok h.tipOffset,
                    { h with
                      tipOffset := h.tipOffset + eventSize e
                      tip := recvCommit e
                      eventsSealed := h.eventsSealed + 1 }) := by
  match argv with
  | [] | [_] | [_, _] | [_, _, _] | _ :: _ :: _ :: _ :: _ :: _ =>
      exact Or.inl (by simp [nifAppendEvent])
  | [resource, header, payload, footer] =>
      rw [nifAppendEvent]
      split_ifs with hres
      · exact Or.inl (by simp)
      split
      · exact Or.inl (by simp)
      next e he =>
      obtain ⟨rfl, rfl, rfl⟩ := inspectEvent_eq_ok.mp he
      split_ifs with hfull hchain hcommit
      · exact Or.inl (by simp)
      · exact Or.inl (by simp)
      · exact Or.inl (by simp)
      · rw [not_not, circuit_tip_header] at hcommit
        exact Or.inr ⟨e, by rw [not_not.mp hres]; rfl, UInt64.not_lt.mp hfull, hcommit.symm, rfl⟩

/-- A call of `rotate_segment` either answers without `ok` and leaves the
handle alone, or it opens a segment with a higher sequence. -/
lemma nifRotateSegment_cases (h : KernelHandle) (argv : List Term) :
    ((∀ n, (nifRotateSegment h argv).1 ≠ .ok n) ∧ (nifRotateSegment h argv).2 = h)
      ∨ ∃ newId newSeq, rotatedTo (.rotate argv, (nifRotateSegment h argv).1) = some newSeq
          ∧ h.currentSequence < newSeq
          ∧ (nifRotateSegment h argv).2
              = { h with
                  currentSegmentId := newId
                  currentSequence := newSeq
                  tipOffset := 0
                  segmentsRotated := h.segmentsRotated + 1 } := by
  rw [nifRotateSegment]
  rcases rotateRequest_cases h.currentSequence argv with
    ⟨reply, hreq, hne⟩ | ⟨newId, newSeq, hreq, hlt, hrot⟩
  · rw [hreq]
    exact Or.inl ⟨hne, rfl⟩
  · rw [hreq]
    exact Or.inr ⟨newId, newSeq, hrot 0, hlt, rfl⟩

/-- A call that does not answer `ok` leaves the handle exactly as it was. -/
lemma step_of_ne (h : KernelHandle) (op : Op) (hne : ∀ n, (step h op).1 ≠ .ok n) :
    (step h op).2 = h := by
  cases op with
  | append argv =>
      rcases nifAppendEvent_cases h argv with ⟨-, hsame⟩ | ⟨e, -, -, -, heq⟩
      · exact hsame
      · exact absurd (by rw [step, heq]) (hne h.tipOffset)
  | rotate argv =>
      rcases nifRotateSegment_cases h argv with ⟨-, hsame⟩ | ⟨newId, newSeq, hrot, -, -⟩
      · exact hsame
      · rw [step] at hne
        rw [rotatedTo_of_ne hne] at hrot
        simp at hrot

/-! ### Runs -/

/-- What ties the handle to the history of its calls, `seq` being the sequence
it was created with. -/
structure RunInv (seq : UInt64) (hist : List (Op × Reply)) (h : KernelHandle) : Prop where
  /-- the events of a segment are packed and fit into it -/
  packed : ∀ seg ∈ (segments fixedFooterSize hist).all,
    Packed Accepted.start Accepted.size 0 seg ∧ (seg.map Accepted.size).sum ≤ 2 ^ 30
  tipOffset : h.tipOffset.toNat = ((segments fixedFooterSize hist).current.map Accepted.size).sum
  tip : h.tip = ((segments fixedFooterSize hist).items.map fun a => a.event.block).foldl
    sebLatticeCommit 0
  eventsSealed : h.eventsSealed = UInt64.ofNat (segments fixedFooterSize hist).items.length
  increasing : (seq :: rotations hist).Pairwise (· < ·)
  last : (seq :: rotations hist).getLast (List.cons_ne_nil _ _) = h.currentSequence

lemma RunInv.tipOffset_le {seq : UInt64} {hist : List (Op × Reply)} {h : KernelHandle}
    (inv : RunInv seq hist h) : h.tipOffset.toNat ≤ 2 ^ 30 := by
  rw [inv.tipOffset]
  exact (inv.packed _ (Epochs.mem_all.mpr (Or.inr rfl))).2

lemma runInv_init {alloc : Bool} {argv : List Term} {h : KernelHandle}
    (hinit : nifInitKernel alloc argv = .ok h) : RunInv h.currentSequence [] h := by
  rw [nifInitKernel] at hinit
  split at hinit
  · exact absurd hinit (by simp)
  · obtain rfl := Except.ok.inj hinit
    exact
      { packed := by simp [segments, Epochs.all, Packed, Follows]
        tipOffset := by simp [segments]
        tip := by simp [segments, Epochs.items, Epochs.all]
        eventsSealed := by simp [segments, Epochs.items, Epochs.all]
        increasing := by simp [rotations]
        last := by simp [rotations] }

/-- A call that does not answer `ok` keeps the invariant. -/
lemma RunInv.of_ne {seq : UInt64} {hist : List (Op × Reply)} {h : KernelHandle}
    (inv : RunInv seq hist h) {op : Op} {reply : Reply} (hne : ∀ n, reply ≠ .ok n) :
    RunInv seq (hist ++ [(op, reply)]) h := by
  have hseg : segments fixedFooterSize (hist ++ [(op, reply)]) = segments fixedFooterSize hist :=
    segments_concat_other hist (rotatedTo_of_ne hne) (acceptedEvent_of_ne hne)
  have hrot : rotations (hist ++ [(op, reply)]) = rotations hist :=
    rotations_concat_none hist (rotatedTo_of_ne hne)
  obtain ⟨h1, h2, h3, h4, h5, h6⟩ := inv
  exact ⟨by rwa [hseg], by rwa [hseg], by rwa [hseg], by rwa [hseg], by rwa [hrot], by simpa [hrot]⟩

/-- The size test does not wrap: a short payload that passes it fits behind the
tip offset. -/
lemma eventSize_fits {h : KernelHandle} (hle : h.tipOffset.toNat ≤ 2 ^ 30)
    {e : EventBytes fixedFooterSize} (hshort : e.payload.length < 2 ^ 63)
    (hfits : eventSize e ≤ segmentSize - h.tipOffset) (n : UInt64) :
    (h.tipOffset + eventSize e).toNat = h.tipOffset.toNat + Accepted.size ⟨e, n⟩
      ∧ h.tipOffset.toNat + Accepted.size ⟨e, n⟩ ≤ 2 ^ 30 := by
  have hsub : (segmentSize - h.tipOffset).toNat = 2 ^ 30 - h.tipOffset.toNat := by
    rw [UInt64.toNat_sub_of_le _ _ (by rw [UInt64.le_iff_toNat_le, segmentSize_toNat]; exact hle),
      segmentSize_toNat]
  have hsize : (eventSize e).toNat = Accepted.size ⟨e, n⟩ := by
    have hlen : (UInt64.ofNat e.payload.length).toNat = e.payload.length :=
      UInt64.toNat_ofNat_of_lt' (by rw [UInt64.size]; omega)
    simp only [eventSize, UInt64.toNat_add, hlen, Accepted.size, fixedHeaderSize, fixedFooterSize]
    simp
    omega
  rw [UInt64.le_iff_toNat_le, hsub, hsize] at hfits
  refine ⟨?_, by omega⟩
  rw [UInt64.toNat_add, hsize]
  omega

/-- An accepted event keeps the invariant. -/
lemma RunInv.of_append {seq : UInt64} {hist : List (Op × Reply)} {h : KernelHandle}
    (inv : RunInv seq hist h) {e : EventBytes fixedFooterSize}
    (hshort : e.payload.length < 2 ^ 63) (hfits : eventSize e ≤ segmentSize - h.tipOffset)
    (hcommit : recvCommit e = sebLatticeCommit h.tip e.block) :
    RunInv seq (hist ++ [(.append e.argv, .ok h.tipOffset)])
      { h with
        tipOffset := h.tipOffset + eventSize e
        tip := recvCommit e
        eventsSealed := h.eventsSealed + 1 } := by
  obtain ⟨htip, hend⟩ := eventSize_fits inv.tipOffset_le hshort hfits h.tipOffset
  have hseg := segments_concat_accepted hist (rotatedTo_append _ _)
    (acceptedEvent_append e h.tipOffset)
  have hcur := inv.packed _ (Epochs.mem_all.mpr (Or.inr rfl))
  have hitems : ∀ (past : List (List (Accepted fixedFooterSize))) cur a,
      (Epochs.mk past (cur ++ [a])).items = (Epochs.mk past cur).items ++ [a] := by
    intro past cur a
    rw [Epochs.items_eq, Epochs.items_eq, List.append_assoc]
  refine
    { packed := ?_, tipOffset := ?_, tip := ?_, eventsSealed := ?_, increasing := ?_, last := ?_ }
  · intro seg hmem
    rw [hseg, Epochs.mem_all] at hmem
    rcases hmem with hpast | rfl
    · exact inv.packed seg (Epochs.mem_all.mpr (Or.inl hpast))
    · refine ⟨(follows_concat _ _).mpr ⟨hcur.1, ?_⟩, ?_⟩
      · rw [hcur.1.cursor_eq, Nat.zero_add, ← inv.tipOffset]
        rfl
      · rw [List.map_append, List.sum_append, ← inv.tipOffset]
        simpa using hend
  · rw [hseg, List.map_append, List.sum_append, ← inv.tipOffset, htip]
    simp
  · rw [hseg, hitems, List.map_append, List.foldl_append, ← inv.tip, hcommit]
    rfl
  · rw [hseg, hitems, List.length_append, inv.eventsSealed, UInt64.ofNat_add]
    rfl
  · rw [rotations_concat_none hist (rotatedTo_append _ _)]
    exact inv.increasing
  · simpa only [rotations_concat_none hist (rotatedTo_append _ _)] using inv.last

/-- A rotation keeps the invariant. -/
lemma RunInv.of_rotate {seq : UInt64} {hist : List (Op × Reply)} {h : KernelHandle}
    (inv : RunInv seq hist h) {c : Op × Reply} {newId newSeq : UInt64}
    (hrot : rotatedTo c = some newSeq) (hlt : h.currentSequence < newSeq) :
    RunInv seq (hist ++ [c])
      { h with
        currentSegmentId := newId
        currentSequence := newSeq
        tipOffset := 0
        segmentsRotated := h.segmentsRotated + 1 } := by
  have hseg : segments fixedFooterSize (hist ++ [c]) = _ := segments_concat_rotated hist hrot
  have hitems : ∀ e : Epochs (Accepted fixedFooterSize),
      (Epochs.mk (e.past ++ [e.current]) []).items = e.items := by
    intro e
    simp [Epochs.items_eq]
  refine
    { packed := ?_, tipOffset := ?_, tip := ?_, eventsSealed := ?_, increasing := ?_, last := ?_ }
  · intro seg hmem
    rw [hseg, Epochs.mem_all] at hmem
    rcases hmem with hpast | rfl
    · exact inv.packed seg hpast
    · simp [Packed, Follows]
  · rw [hseg]
    rfl
  · rw [hseg, hitems]
    exact inv.tip
  · rw [hseg, hitems]
    exact inv.eventsSealed
  · rw [rotations_concat_some hist hrot, ← List.cons_append]
    exact pairwise_lt_concat (List.cons_ne_nil _ _) inv.increasing (inv.last ▸ hlt)
  · simp [rotations_concat_some hist hrot]

/-- The invariant holds after every run. -/
lemma runInv_exec {seq : UInt64} {h : KernelHandle} (h0 : RunInv seq [] h) (ops : List Op)
    (hshort : ∀ op ∈ ops, op.Short) :
    RunInv seq (Machine.exec step h ops).1 (Machine.exec step h ops).2 := by
  refine Machine.exec_induction step h0 (fun hist t op hop inv => ?_) ops hshort
  cases op with
  | append argv =>
      rcases nifAppendEvent_cases t argv with ⟨hne, hsame⟩ | ⟨e, rfl, hfits, hcommit, heq⟩
      · rw [step, hsame]
        exact inv.of_ne hne
      · rw [step, heq]
        exact inv.of_append (hop e.payload (by simp [Op.argv, EventBytes.argv])) hfits hcommit
  | rotate argv =>
      rcases nifRotateSegment_cases t argv with ⟨hne, hsame⟩ | ⟨newId, newSeq, hrot, hlt, heq⟩
      · rw [step, hsame]
        exact inv.of_ne hne
      · rw [step, heq]
        exact inv.of_rotate hrot hlt

/-- The run invariant of the kernel NIF, over every run of calls on a handle
that `init_kernel` created. -/
theorem kernel_run_invariant {alloc : Bool} {argv : List Term} {h : KernelHandle}
    (hinit : nifInitKernel alloc argv = .ok h) (ops : List Op) (hshort : ∀ op ∈ ops, op.Short)
    (hcount : (segments fixedFooterSize (Machine.exec step h ops).1).items.length < 2 ^ 64) :
    let run := Machine.exec step h ops
    let segs := segments fixedFooterSize run.1
    run.2.tipOffset.toNat ≤ 2 ^ 30
      ∧ (∀ seg ∈ segs.all, ∀ i (hi : i < seg.length),
          seg[i].start = ((seg.take i).map Accepted.size).sum
            ∧ seg[i].start + seg[i].size ≤ 2 ^ 30)
      ∧ (∀ seg ∈ segs.all, seg.Pairwise fun a b => a.offset < b.offset ∧ a.start + a.size ≤ b.start)
      ∧ run.2.tip = (segs.items.map fun a => a.event.block).foldl sebLatticeCommit 0
      ∧ run.2.eventsSealed.toNat = segs.items.length
      ∧ (h.currentSequence :: rotations run.1).Pairwise (· < ·)
      ∧ (h.currentSequence :: rotations run.1).getLast (List.cons_ne_nil _ _)
          = run.2.currentSequence
      ∧ ∀ op, (∀ n, (step run.2 op).1 ≠ .ok n) → (step run.2 op).2 = run.2 := by
  intro run segs
  have inv := runInv_exec (runInv_init hinit) ops hshort
  refine ⟨inv.tipOffset_le, ?_, ?_, inv.tip, ?_, inv.increasing, inv.last, step_of_ne _⟩
  · intro seg hseg i hi
    obtain ⟨hpacked, hsum⟩ := inv.packed seg hseg
    have hstart := hpacked.start_getElem hi
    have hend := hpacked.end_le (List.getElem_mem hi)
    omega
  · intro seg hseg
    refine (inv.packed seg hseg).1.pairwise.imp fun {a b} hab => ⟨?_, hab⟩
    have hsize := a.size_pos
    rw [UInt64.lt_iff_toNat_lt]
    show a.start < b.start
    omega
  · rw [inv.eventsSealed]
    exact UInt64.toNat_ofNat_of_lt' hcount

/-- The event of zeros with an empty payload, which the circuit commits to the
zero tip, and a rotation. -/
def zeroCalls : List Op :=
  [.append [.handle, .bin (List.replicate 68 0), .bin [], .bin (List.replicate 64 0)],
    .rotate [.handle, .int 2, .int 1]]

/-- The kernel that `init_kernel(1, 0)` creates. -/
def firstKernel : KernelHandle := ⟨1, 0, 0, 0, 0, 0⟩

/-- The invariant after the calls `zeroCalls`. -/
theorem kernel_run_invariant_zeroCalls :
    (Machine.exec step firstKernel zeroCalls).2.tipOffset.toNat ≤ 2 ^ 30 :=
  (kernel_run_invariant
    (show nifInitKernel true [.int 1, .int 0] = .ok firstKernel from rfl) zeroCalls
    (by
      intro op hop b hb
      simp only [zeroCalls, List.mem_cons, List.not_mem_nil, or_false] at hop
      rcases hop with rfl | rfl <;> simp [Op.argv] at hb
      rcases hb with rfl | rfl | rfl <;> simp)
    (lt_of_le_of_lt (Epochs.items_of_length_le _) (by simp [zeroCalls]))).1

end KernelNif

end SovereignBus
