import SovereignBus.Library.Loop

/-!
The SUBLEQ runner of `seb/runtime/wasm/seb_sandbox.wat`.

* `load`, `store`, `subleqInternal`, `run`, `runSubleq`: the functions of the source;
  an access out of the page traps.
* `refStep`, `reference`: the machine of the execution model.
* `HaltingBranch`: a taken branch to a negative target.
* `runSubleq_eq_reference_iff`: the runner follows the machine exactly as long as no
  branch is to halt it.
-/

namespace SovereignBus

namespace Sandbox

abbrev Word := BitVec 32

/-- One page of memory. -/
abbrev Memory := Fin 65536 → BitVec 8

/-- An access out of the page. -/
inductive Trap where
  | outOfBounds

/-- `i32.load`, little endian. -/
def load (mem : Memory) (addr : Word) : Except Trap Word :=
  if h : addr.toNat + 4 ≤ 65536 then
    .ok (mem ⟨addr.toNat + 3, by omega⟩ ++ mem ⟨addr.toNat + 2, by omega⟩
      ++ mem ⟨addr.toNat + 1, by omega⟩ ++ mem ⟨addr.toNat, by omega⟩)
  else .error .outOfBounds

/-- `i32.store`, little endian. -/
def store (mem : Memory) (addr value : Word) : Except Trap Memory :=
  if addr.toNat + 4 ≤ 65536 then
    .ok fun i =>
      if addr.toNat ≤ i.val ∧ i.val < addr.toNat + 4 then
        value.extractLsb' (8 * (i.val - addr.toNat)) 8
      else mem i
  else .error .outOfBounds

/-- `M[B] = M[B] - M[A]`: the result and the memory with it. -/
def subtract (mem : Memory) (a b : Word) : Except Trap (Word × Memory) := do
  let va ← load mem a
  let vb ← load mem b
  let result := vb - va
  let mem ← store mem b result
  return (result, mem)

/-- `subleq_internal`: the branch, which is `C` or -1, and the memory. -/
def subleqInternal (mem : Memory) (a b c : Word) : Except Trap (Word × Memory) := do
  let (result, mem) ← subtract mem a b
  return (if result.sle 0#32 then c else -1#32, mem)

/-- The locals of `run_subleq` and the memory. -/
structure Runner where
  pc : Word
  steps : Word
  mem : Memory

/-- The three words of an instruction. -/
def fetch (mem : Memory) (pc : Word) : Except Trap (Word × Word × Word) := do
  let a ← load mem pc
  let b ← load mem (pc + 4#32)
  let c ← load mem (pc + 8#32)
  return (a, b, c)

/-- The body of the loop. -/
def Runner.step (s : Runner) : Except Trap Runner := do
  let (a, b, c) ← fetch s.mem s.pc
  let (branch, mem) ← subleqInternal s.mem a b c
  return ⟨if (0#32).sle branch then branch else s.pc + 12#32, s.steps + 1#32, mem⟩

/-- The branch is taken if the result is not positive and the target is not negative. -/
def branchTarget (pc c result : Word) : Word :=
  if result.sle 0#32 && !(c.slt 0#32) then c else pc + 12#32

/-- What a step that does not trap does. -/
lemma step_eq_ok_iff {s t : Runner} :
    s.step = .ok t ↔ ∃ a b c result, fetch s.mem s.pc = .ok (a, b, c)
      ∧ subtract s.mem a b = .ok (result, t.mem)
      ∧ t.steps = s.steps + 1#32 ∧ t.pc = branchTarget s.pc c result := by
  have hbranch : ∀ c result : Word,
      (if (0#32).sle (if result.sle 0#32 then c else -1#32)
        then (if result.sle 0#32 then c else -1#32)
        else s.pc + 12#32) = branchTarget s.pc c result := fun c result => by
    rw [branchTarget, BitVec.sle_eq_not_slt]
    cases result.sle 0#32 <;> simp
  simp only [Runner.step, subleqInternal, Except.bind_eq_ok, Prod.exists]
  constructor
  · rintro ⟨a, b, c, hfetch, branch, mem, ⟨result, mem', hsub, h⟩, ht⟩
    obtain ⟨rfl, rfl⟩ := Prod.mk.inj (Except.ok.inj h)
    obtain rfl := Except.ok.inj ht
    exact ⟨a, b, c, result, hfetch, hsub, rfl, hbranch c result⟩
  · rintro ⟨a, b, c, result, hfetch, hsub, hsteps, hpc⟩
    refine ⟨a, b, c, hfetch, _, t.mem, ⟨result, t.mem, hsub, rfl⟩, ?_⟩
    rw [hbranch, ← hpc, ← hsteps]
    rfl

/-- The loop of `run_subleq`. -/
def run (maxSteps : Word) : Loop Runner Trap where
  cond s := !(maxSteps.ule s.steps) && !(s.pc.slt 0#32)
  body s := s.step
  measure s := maxSteps.toNat - s.steps.toNat
  decreases := by
    intro s t hcond hbody
    obtain ⟨hlt, -⟩ := Bool.and_eq_true_iff.mp hcond
    have hlt : s.steps.toNat < maxSteps.toNat := by simpa [BitVec.ule] using hlt
    obtain ⟨-, -, -, -, -, -, hsteps, -⟩ := step_eq_ok_iff.mp hbody
    rw [hsteps, BitVec.toNat_add_of_lt (by simpa using (by omega))]
    simp
    omega

/-- `run_subleq`: the last `pc` and the memory. -/
def runSubleq (mem : Memory) (pc maxSteps : Word) : Except Trap (Word × Memory) := do
  let s ← (run maxSteps).run ⟨pc, 0#32, mem⟩
  return (s.pc, s.mem)

/-! ### The machine of the execution model -/

structure State where
  pc : Word
  mem : Memory

/-- What the machine has of the runner. -/
def Runner.state (s : Runner) : State := ⟨s.pc, s.mem⟩

/-- `M[B] = M[B] - M[A]; if M[B] <= 0 goto C else PC += 3` words. -/
def refStep (s : State) : Except Trap State := do
  let (a, b, c) ← fetch s.mem s.pc
  let (result, mem) ← subtract s.mem a b
  return ⟨if result.sle 0#32 then c else s.pc + 12#32, mem⟩

/-- At most so many steps, as long as `pc` is not negative. -/
def reference : ℕ → State → Except Trap State
  | 0, s => .ok s
  | n + 1, s => if s.pc.slt 0#32 then .ok s else refStep s >>= reference n

/-- The instruction at `pc` branches, and to a negative target. -/
def HaltingBranch (s : State) : Prop :=
  ∃ a b c result mem, fetch s.mem s.pc = .ok (a, b, c) ∧ subtract s.mem a b = .ok (result, mem)
    ∧ result.sle 0#32 = true ∧ c.slt 0#32 = true

/-- No step of so many branches to a negative target. -/
def Straight (n : ℕ) (s : State) : Prop :=
  ∀ k < n, ∀ t, reference k s = .ok t → t.pc.slt 0#32 = false → ¬ HaltingBranch t

/-! ### One step -/

lemma pc_of_fetch {mem : Memory} {pc : Word} {abc : Word × Word × Word}
    (h : fetch mem pc = .ok abc) : (pc + 12#32).slt 0#32 = false := by
  obtain ⟨a, ha, -⟩ := Except.bind_eq_ok.mp h
  rw [load] at ha
  split_ifs at ha with hpc
  rw [BitVec.slt_zero_eq_msb, BitVec.msb_eq_false_iff_two_mul_lt,
    BitVec.toNat_add_of_lt (by simp; omega)]
  simp
  omega

/-- The runner never leaves a `pc` that is negative. -/
lemma pc_of_step {s t : Runner} (h : s.step = .ok t) : t.pc.slt 0#32 = false := by
  obtain ⟨a, b, c, result, hfetch, -, -, hpc⟩ := step_eq_ok_iff.mp h
  rw [hpc, branchTarget]
  split_ifs with hbranch
  · simpa using (Bool.and_eq_true_iff.mp hbranch).2
  · exact pc_of_fetch hfetch

lemma refStep_eq_ok_iff {s t : State} :
    refStep s = .ok t ↔ ∃ a b c result, fetch s.mem s.pc = .ok (a, b, c)
      ∧ subtract s.mem a b = .ok (result, t.mem)
      ∧ t.pc = if result.sle 0#32 then c else s.pc + 12#32 := by
  simp only [refStep, Except.bind_eq_ok, Prod.exists]
  constructor
  · rintro ⟨a, b, c, hfetch, result, mem, hsub, ht⟩
    obtain rfl := Except.ok.inj ht
    exact ⟨a, b, c, result, hfetch, hsub, rfl⟩
  · rintro ⟨a, b, c, result, hfetch, hsub, hpc⟩
    refine ⟨a, b, c, hfetch, result, t.mem, hsub, ?_⟩
    rw [← hpc]
    rfl

/-- A step of the runner is one of the machine, unless it should halt. -/
lemma refStep_of_step {s t : Runner} (h : s.step = .ok t)
    (hbranch : ¬ HaltingBranch s.state) : refStep s.state = .ok t.state := by
  obtain ⟨a, b, c, result, hfetch, hsub, -, hpc⟩ := step_eq_ok_iff.mp h
  refine refStep_eq_ok_iff.mpr ⟨a, b, c, result, hfetch, hsub, ?_⟩
  simp only [Runner.state, hpc, branchTarget]
  cases hle : result.sle 0#32 with
  | false => simp
  | true =>
      have hc : c.slt 0#32 = false := by
        by_contra hneg
        exact hbranch ⟨a, b, c, result, t.mem, hfetch, hsub, hle, by simpa using hneg⟩
      simp [hc]

/-- A halting branch takes the machine to a negative `pc`. -/
lemma refStep_of_haltingBranch {s : State} (h : HaltingBranch s) :
    ∃ t, refStep s = .ok t ∧ t.pc.slt 0#32 = true := by
  obtain ⟨a, b, c, result, mem, hfetch, hsub, hle, hc⟩ := h
  refine ⟨⟨c, mem⟩, refStep_eq_ok_iff.mpr ⟨a, b, c, result, hfetch, hsub, ?_⟩, hc⟩
  rw [if_pos hle]

/-! ### Whole runs -/

lemma reference_of_neg {s : State} (h : s.pc.slt 0#32 = true) (n : ℕ) : reference n s = .ok s := by
  cases n with
  | zero => rfl
  | succ n => rw [reference, if_pos h]

lemma reference_succ {s t : State} (h : s.pc.slt 0#32 = false) (hs : refStep s = .ok t) (n : ℕ) :
    reference (n + 1) s = reference n t := by
  rw [reference, if_neg (by simp [h]), hs]
  rfl

lemma straight_of_neg {s : State} (h : s.pc.slt 0#32 = true) (n : ℕ) : Straight n s := by
  intro k _ t ht hpc
  rw [reference_of_neg h] at ht
  obtain rfl := Except.ok.inj ht
  exact absurd hpc (by simp [h])

lemma straight_succ_iff {s t : State} (h : s.pc.slt 0#32 = false) (hs : refStep s = .ok t) (n : ℕ) :
    Straight (n + 1) s ↔ ¬ HaltingBranch s ∧ Straight n t := by
  constructor
  · intro hstraight
    refine ⟨hstraight 0 n.succ_pos s rfl h, fun k hk u hu => ?_⟩
    exact hstraight (k + 1) (Nat.succ_lt_succ hk) u (by rw [reference_succ h hs, hu])
  · rintro ⟨hbranch, hstraight⟩ k hk u hu hpc
    cases k with
    | zero =>
        obtain rfl := Except.ok.inj hu
        exact hbranch
    | succ k =>
        rw [reference_succ h hs] at hu
        exact hstraight k (Nat.lt_of_succ_lt_succ hk) u hu hpc

lemma cond_eq_true_iff {maxSteps : Word} {s : Runner} :
    (run maxSteps).cond s = true ↔ s.steps.toNat < maxSteps.toNat ∧ s.pc.slt 0#32 = false := by
  simp [run, BitVec.ule]

/-- A run that starts at a `pc` that is not negative ends at one. -/
lemma pc_of_run {maxSteps : Word} {s t : Runner} (h : (run maxSteps).run s = .ok t)
    (hs : s.pc.slt 0#32 = false) : t.pc.slt 0#32 = false :=
  (Loop.run_eq_ok_iff.mp h).1.invariant (P := fun u => u.pc.slt 0#32 = false)
    (fun _ _ _ hpass => pc_of_step hpass.2) hs

lemma run_eq_reference_iff {maxSteps : Word} {s t : Runner} (h : (run maxSteps).run s = .ok t) :
    reference (maxSteps.toNat - s.steps.toNat) s.state = .ok t.state
      ↔ Straight (maxSteps.toNat - s.steps.toNat) s.state := by
  induction s using Loop.induction (L := run maxSteps) with
  | hend s hcond =>
      rw [Loop.run_of_not_cond hcond] at h
      obtain rfl := Except.ok.inj h
      cases hpc : s.pc.slt 0#32 with
      | true =>
          have hneg : s.state.pc.slt 0#32 = true := hpc
          exact iff_of_true (reference_of_neg hneg _) (straight_of_neg hneg _)
      | false =>
          have hsteps : maxSteps.toNat - s.steps.toNat = 0 := by
            have hle : ¬ s.steps.toNat < maxSteps.toNat := fun hlt => by
              rw [cond_eq_true_iff.mpr ⟨hlt, hpc⟩] at hcond
              exact absurd hcond (by simp)
            omega
          rw [hsteps]
          exact iff_of_true rfl fun k hk => absurd hk k.not_lt_zero
  | herror s e hcond hbody =>
      rw [Loop.run_of_error hcond hbody] at h
      exact absurd h (by simp)
  | hpass s u hpass ih =>
      rw [hpass.run_eq] at h
      obtain ⟨hlt, hpc⟩ := cond_eq_true_iff.mp hpass.1
      have hpc : s.state.pc.slt 0#32 = false := hpc
      have hrest : maxSteps.toNat - s.steps.toNat = maxSteps.toNat - u.steps.toNat + 1 := by
        obtain ⟨-, -, -, -, -, -, hsteps, -⟩ := step_eq_ok_iff.mp hpass.2
        have hadd : (s.steps + 1#32).toNat = s.steps.toNat + 1 :=
          BitVec.toNat_add_of_lt (by simp; omega)
        rw [hsteps, hadd]
        omega
      rw [hrest]
      by_cases hbranch : HaltingBranch s.state
      · obtain ⟨v, hv, hneg⟩ := refStep_of_haltingBranch hbranch
        rw [reference_succ hpc hv, reference_of_neg hneg,
          straight_succ_iff hpc hv]
        refine iff_of_false (fun heq => ?_) fun hstraight => hstraight.1 hbranch
        -- the runner goes on behind the branch and never comes to a negative `pc`
        have hend := pc_of_run h (pc_of_step hpass.2)
        rw [Except.ok.inj heq, Runner.state, hend] at hneg
        exact absurd hneg Bool.false_ne_true
      · have hstep := refStep_of_step hpass.2 hbranch
        rw [reference_succ hpc hstep, straight_succ_iff hpc hstep,
          ih h, and_iff_right hbranch]

/-- Without a trap, the runner ends where the machine ends exactly if no step of the
machine branches to a negative target. -/
theorem runSubleq_eq_reference_iff {mem : Memory} {pc maxSteps : Word} {r : Word × Memory}
    (h : runSubleq mem pc maxSteps = .ok r) :
    reference maxSteps.toNat ⟨pc, mem⟩ = .ok ⟨r.1, r.2⟩
      ↔ ∀ k < maxSteps.toNat, ∀ s, reference k ⟨pc, mem⟩ = .ok s → s.pc.slt 0#32 = false →
        ¬ HaltingBranch s := by
  obtain ⟨t, ht, hr⟩ := Except.bind_eq_ok.mp h
  obtain rfl := Except.ok.inj hr
  exact run_eq_reference_iff ht

/-- A run of one step. -/
lemma runSubleq_one (mem : Memory) (pc : Word) {t : Runner} (hpc : pc.slt 0#32 = false)
    (h : Runner.step ⟨pc, 0#32, mem⟩ = .ok t) : runSubleq mem pc 1#32 = .ok (t.pc, t.mem) := by
  obtain ⟨-, -, -, -, -, -, hsteps, -⟩ := step_eq_ok_iff.mp h
  have hstart : (run 1#32).cond ⟨pc, 0#32, mem⟩ = true := by
    rw [cond_eq_true_iff]
    exact ⟨by simp, hpc⟩
  have hend : (run 1#32).cond t = false := by
    rw [Bool.eq_false_iff]
    intro hcond
    have hlt := (cond_eq_true_iff.mp hcond).1
    simp [hsteps] at hlt
  refine Except.bind_eq_ok.mpr ⟨t, ?_, rfl⟩
  rw [Loop.Pass.run_eq ⟨hstart, h⟩, Loop.run_of_not_cond hend]

/-- At 0, an instruction that takes the 5 at 12 from the 3 at 16 and branches to 24. -/
def branchProgram : Memory := fun i =>
  if i.val = 0 then 12#8 else if i.val = 4 then 16#8 else if i.val = 8 then 24#8
  else if i.val = 12 then 5#8 else if i.val = 16 then 3#8 else 0#8

/-- The runner and the machine take the branch, with -2 at 16. -/
theorem runSubleq_eq_reference_iff_branch :
    ∃ r, runSubleq branchProgram 0#32 1#32 = .ok r
      ∧ r.1 = 24#32 ∧ load r.2 16#32 = .ok (-2#32)
      ∧ reference 1 ⟨0#32, branchProgram⟩ = .ok ⟨r.1, r.2⟩ := by
  have hrun := runSubleq_one branchProgram 0#32 rfl rfl
  refine ⟨_, hrun, rfl, rfl, (runSubleq_eq_reference_iff hrun).mpr fun k hk s hs _ hbranch => ?_⟩
  obtain rfl : k = 0 := Nat.lt_one_iff.mp hk
  obtain rfl := Except.ok.inj hs
  obtain ⟨a, b, c, result, mem, hfetch, -, -, hc⟩ := hbranch
  have hwords : (12#32, 16#32, 24#32) = (a, b, c) := Except.ok.inj hfetch
  obtain ⟨-, -, rfl⟩ : 12#32 = a ∧ 16#32 = b ∧ 24#32 = c := by simpa using hwords
  exact absurd hc (by decide)

/-- At 0, an instruction that branches to -1. -/
def haltProgram : Memory := fun i => if 8 ≤ i.val ∧ i.val < 12 then 255#8 else 0#8

/-- The machine halts at -1, and the runner goes on at 12. -/
theorem runSubleq_misses_halt :
    ¬ ∀ (mem : Memory) (pc maxSteps : Word) (r : Word × Memory), runSubleq mem pc maxSteps = .ok r →
      reference maxSteps.toNat ⟨pc, mem⟩ = .ok ⟨r.1, r.2⟩ := by
  intro hall
  have hrun := runSubleq_one haltProgram 0#32 rfl rfl
  obtain ⟨s, hs, hpc⟩ : ∃ s, reference 1 ⟨0#32, haltProgram⟩ = .ok s ∧ s.pc = -1#32 := ⟨_, rfl, rfl⟩
  have hend : s.pc = 12#32 := by rw [Except.ok.inj (hs.symm.trans (hall _ _ _ _ hrun))]; rfl
  exact absurd (hpc.symm.trans hend) (by decide)

end Sandbox

end SovereignBus
