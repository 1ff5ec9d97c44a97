import SovereignBus.Ada.Kernel

/-!
Several handles on the kernel of `seb/kernel/src/seb_kernel.adb`.

* `Kernels`, `Kernels.step`: the handles of all callers beside the one protected
  state, and a call through one of them.
* `replay`: the calls of one handle alone, on a fresh kernel.
* `Isolated`: every handle looks as if its calls were the only ones.
  `handles_isolated_iff` says which runs are so.
-/

namespace SovereignBus

namespace SebKernel

open SebTypes Machine

/-- A record of type `Kernel_Handle` before any call. -/
def freshHandle : KernelHandle := ⟨0, 0, genesisHash, 0, 0, 0⟩

/-- The protected state before any call. -/
def freshState : KernelState := ⟨genesisHash, 0, 0, 0, 0⟩

variable {ι : Type*} [DecidableEq ι]

/-- The handles of all callers, and `Global_Kernel_State`. -/
structure Kernels (ι : Type*) where
  handles : ι → KernelHandle
  state : KernelState

def Kernels.fresh : Kernels ι := ⟨fun _ => freshHandle, freshState⟩

/-- A call through one of the handles. -/
def Kernels.step (k : Kernels ι) (op : ι × Call) : Outcome × Kernels ι :=
  let r := call ⟨k.handles op.1, k.state⟩ op.2
  (r.1, ⟨Function.update k.handles op.1 r.2.handle, r.2.state⟩)

/-- The calls issued through a handle. -/
def callsOf (i : ι) (ops : List (ι × Call)) : List Call :=
  (ops.filter fun op => op.1 = i).map Prod.snd

/-- The calls issued through a handle, on a fresh kernel of their own. -/
def replay (i : ι) (ops : List (ι × Call)) : System :=
  (exec call ⟨freshHandle, freshState⟩ (callsOf i ops)).2

/-- The fields of a handle that repeat the protected state. -/
structure Mirrors (h : KernelHandle) (s : KernelState) : Prop where
  tipHash : h.tipHash = s.tipHash
  tipOffset : h.tipOffset = s.tipOffset
  eventsSealed : h.eventsSealed = s.eventsSealed
  segmentsRotated : h.segmentsRotated = s.segmentsRotated

/-- Every handle looks as if its calls were the only ones, and its calls are
answered so. -/
structure Isolated (ops : List (ι × Call)) : Prop where
  fields : ∀ ops', ops' <+: ops → ∀ i,
    Mirrors ((exec Kernels.step Kernels.fresh ops').2.handles i) (replay i ops').state
  answers : ∀ ops' i c, ops' ++ [(i, c)] <+: ops →
    (Kernels.step (exec Kernels.step Kernels.fresh ops').2 (i, c)).1 = (call (replay i ops') c).1

/-- The handle as a protected state. -/
def KernelHandle.asState (h : KernelHandle) : KernelState :=
  ⟨h.tipHash, h.tipOffset, h.currentSegmentId, h.eventsSealed, h.segmentsRotated⟩

/-- The call through the handle `h` is not what it would be on the fields of `h`:
an event that only one of `h` and the protected state admits, or that they admit
at different offsets, or a rotation that leaves the offset of `h` behind. -/
def Interferes (h : KernelHandle) (s : KernelState) : Call → Prop
  | .initializeKernel _ _ => False
  | .appendEvent header footer =>
      ¬ (Admits s header footer ↔ Admits h.asState header footer)
        ∨ Admits s header footer ∧ s.tipOffset ≠ h.tipOffset
  | .rotateSegment _ _ => h.tipOffset ≠ 0

/-! ### One call -/

omit [DecidableEq ι] in
lemma Mirrors.admits_iff {h : KernelHandle} {s : KernelState} (hm : Mirrors h s)
    (header : EventHeader) (footer : EventFooter) :
    Admits h.asState header footer ↔ Admits s header footer := by
  obtain ⟨hhash, hoffset, hsealed, -⟩ := hm
  constructor
  · rintro ⟨hprev, hpos, hfits⟩
    exact ⟨hhash ▸ hsealed ▸ hprev, hoffset ▸ hpos, hoffset ▸ hfits⟩
  · rintro ⟨hprev, hpos, hfits⟩
    exact ⟨by rw [KernelHandle.asState, hhash, hsealed]; exact hprev,
      by rw [KernelHandle.asState, hoffset]; exact hpos,
      by rw [KernelHandle.asState, hoffset]; exact hfits⟩

/-- An append through a handle keeps it like the replay `sys` of its calls exactly
when the event is treated like the replay treats it. -/
lemma mirrors_append {h : KernelHandle} {s : KernelState} {sys : System}
    (hm : Mirrors h sys.state) (header : EventHeader) (footer : EventFooter) :
    Mirrors (appendEvent ⟨h, s⟩ header footer).2.handle (appendEvent sys header footer).2.state
      ↔ ¬ Interferes h s (.appendEvent header footer) := by
  rw [Interferes, hm.admits_iff, hm.tipOffset]
  have hsucc : ∀ n : UInt64, n + 1 ≠ n := fun n => by simp
  by_cases hs : Admits s header footer
  · by_cases hr : Admits sys.state header footer
    · simp only [appendEvent, appendEventSafe_of_admits hs, appendEventSafe_of_admits hr, hs, hr,
        ne_eq, not_true, if_false, true_and, false_or, not_not, KernelState.commit]
      constructor
      · rintro ⟨-, hoffset, -, -⟩
        exact (UInt64.add_left_inj _).mp hoffset
      · intro hoffset
        exact ⟨rfl, by rw [hoffset], by rw [hm.eventsSealed], hm.segmentsRotated⟩
    · obtain ⟨hinvalid, hsame⟩ := appendEventSafe_of_not_admits hr
      refine iff_of_false ?_ (by simp [hs, hr])
      simp only [appendEvent, appendEventSafe_of_admits hs, hinvalid, hsame, ne_eq, not_true,
        not_false_iff, if_true, if_false]
      rintro ⟨-, -, hsealed, -⟩
      exact hsucc _ (hsealed.trans hm.eventsSealed.symm)
  · obtain ⟨hinvalid, hsame⟩ := appendEventSafe_of_not_admits hs
    by_cases hr : Admits sys.state header footer
    · refine iff_of_false ?_ (by simp [hs, hr])
      simp only [appendEvent, appendEventSafe_of_admits hr, hinvalid, ne_eq, not_true,
        not_false_iff, if_true, if_false, KernelState.commit]
      rintro ⟨-, -, hsealed, -⟩
      exact hsucc _ (hsealed.symm.trans hm.eventsSealed)
    · obtain ⟨hinvalid', hsame'⟩ := appendEventSafe_of_not_admits hr
      refine iff_of_true ?_ (by simp [hs, hr])
      simpa only [appendEvent, hinvalid, hinvalid', hsame', ne_eq, not_false_iff, if_true] using hm

/-- A call through a handle keeps it like the replay of its calls exactly when it
does not interfere. -/
lemma mirrors_call {h : KernelHandle} {s : KernelState} {sys : System} (hm : Mirrors h sys.state)
    (c : Call) :
    Mirrors (call ⟨h, s⟩ c).2.handle (call sys c).2.state ↔ ¬ Interferes h s c := by
  cases c with
  | initializeKernel id sequence => exact iff_of_true ⟨rfl, rfl, rfl, rfl⟩ not_false
  | appendEvent header footer => exact mirrors_append hm header footer
  | rotateSegment id sequence =>
      rw [Interferes, not_not]
      constructor
      · rintro ⟨-, hoffset, -, -⟩
        exact hoffset
      · intro hoffset
        refine ⟨hm.tipHash, hoffset, hm.eventsSealed, ?_⟩
        exact congrArg (· + 1) hm.segmentsRotated

/-- A call that does not interfere is answered like the replay. -/
lemma call_answer {h : KernelHandle} {s : KernelState} {sys : System} (hm : Mirrors h sys.state)
    {c : Call} (hc : ¬ Interferes h s c) : (call ⟨h, s⟩ c).1 = (call sys c).1 := by
  cases c with
  | initializeKernel id sequence => rfl
  | rotateSegment id sequence => rfl
  | appendEvent header footer =>
      rw [Interferes, hm.admits_iff, hm.tipOffset, not_or, not_not, not_and, not_not] at hc
      obtain ⟨hiff, hoffset⟩ := hc
      by_cases hs : Admits s header footer
      · simp only [call, appendEvent, appendEventSafe_of_admits hs,
          appendEventSafe_of_admits (hiff.mp hs), ne_eq, not_true, if_false, hoffset hs]
      · simp only [call, appendEvent, (appendEventSafe_of_not_admits hs).1,
          (appendEventSafe_of_not_admits (mt hiff.mpr hs)).1, ne_eq, not_false_iff, if_true]

/-! ### Runs -/

lemma replay_concat (i : ι) (ops : List (ι × Call)) (op : ι × Call) :
    replay i (ops ++ [op]) = if op.1 = i then (call (replay i ops) op.2).2 else replay i ops := by
  by_cases h : op.1 = i
  · rw [if_pos h, replay, callsOf, List.filter_append, List.map_append]
    simp only [h, decide_true, List.filter_cons_of_pos, List.filter_nil, List.map_cons,
      List.map_nil]
    rw [exec_concat]
    rfl
  · rw [if_neg h, replay, replay, callsOf, callsOf, List.filter_append]
    simp [h]

lemma handles_step (k : Kernels ι) (op : ι × Call) (i : ι) :
    (k.step op).2.handles i
      = if op.1 = i then (call ⟨k.handles op.1, k.state⟩ op.2).2.handle else k.handles i := by
  rw [Kernels.step]
  simp only [Function.update_apply, eq_comm]

/-- A call keeps all handles like their replays exactly when it does not
interfere. -/
lemma mirrors_step {k : Kernels ι} {ops : List (ι × Call)}
    (hm : ∀ i, Mirrors (k.handles i) (replay i ops).state) (op : ι × Call) :
    (∀ i, Mirrors ((k.step op).2.handles i) (replay i (ops ++ [op])).state)
      ↔ ¬ Interferes (k.handles op.1) k.state op.2 := by
  rw [← mirrors_call (hm op.1)]
  constructor
  · intro h
    have hown := h op.1
    rwa [replay_concat, if_pos rfl, handles_step, if_pos rfl] at hown
  · intro h i
    rw [replay_concat, handles_step]
    split_ifs with hi
    · rw [← hi]
      exact h
    · exact hm i

/-- The handles of a run are isolated exactly when no call of it interferes. -/
theorem handles_isolated_iff (ops : List (ι × Call)) :
    Isolated ops ↔ ∀ ops' i c, ops' ++ [(i, c)] <+: ops →
      ¬ Interferes ((exec Kernels.step Kernels.fresh ops').2.handles i)
        (exec Kernels.step Kernels.fresh ops').2.state c := by
  have hrun := run_iff_inputs
    (fun (ops' : List (ι × Call)) (k : Kernels ι) =>
      ∀ i, Mirrors (k.handles i) (replay i ops').state)
    (fun k op => Interferes (k.handles op.1) k.state op.2)
    (s := Kernels.fresh) (fun _ => ⟨rfl, rfl, rfl, rfl⟩) (fun _ op hm => mirrors_step hm op) ops
  constructor
  · intro h ops' i c hpre
    exact hrun.mp h.fields ops' (i, c) hpre
  · intro h
    have hfields := hrun.mpr fun ops' op hpre => h ops' op.1 op.2 hpre
    refine ⟨hfields, fun ops' i c hpre => ?_⟩
    exact call_answer (hfields ops' ((List.prefix_append _ _).trans hpre) i) (h ops' i c hpre)

/-- The handle 1 takes the kernel back to offset 0, where the second event of the
handle 0 is then put; and a rotation leaves the offset 197 in its handle. -/
theorem handles_not_isolated :
    ¬ Isolated [(0, .initializeKernel 1 1), (0, .appendEvent ⟨1, 0⟩ ⟨genesisHash, genesisHash⟩),
        (1, .initializeKernel 2 1), ((0 : ℕ), .appendEvent ⟨1, 0⟩ ⟨genesisHash, genesisHash⟩)]
      ∧ ¬ Isolated [(0, .initializeKernel 1 1),
        (0, .appendEvent ⟨1, 0⟩ ⟨genesisHash, genesisHash⟩), ((0 : ℕ), .rotateSegment 2 2)] :=
  ⟨fun h => absurd (h.fields _ (List.prefix_refl _) 0).tipOffset (by decide),
    fun h => absurd (h.fields _ (List.prefix_refl _) 0).tipOffset (by decide)⟩

end SebKernel

end SovereignBus
