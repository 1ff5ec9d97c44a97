import SovereignBus.Typecheck.Frame

/-!
Type inference over a program behind another one.

* `decode_append`, `reaches_append`: what stands behind a run does not matter.
* `Numbered`: the obligations are numbered in order, so that with enough memory
  none is refused.
* `Shifted`, `shifted_run`: a run of `q`, and the run of `p ++ q` behind `p`.
* `sov_infer_program_append`: the inference of a concatenation, and of programs
  that differ behind a `HALT`.
-/

namespace SovereignBus

namespace Typecheck

open Obligations

variable {mem : Memory} {program : List UInt8}

/-! ### The program behind -/

lemma header_le_size (i : Instruction) : i.header.length ≤ i.size := by
  cases i <;> simp [header_length, Instruction.op, OpCode.reads, Instruction.size]

/-- An instruction that ends inside `u` is read whatever stands behind `u`. -/
lemma decode_append {u x : List UInt8} {pc out : ℕ} {i : Instruction}
    (h : decode (u ++ x) pc = .ok (i, out)) (hout : out ≤ u.length) (y : List UInt8) :
    decode (u ++ y) pc = .ok (i, out) := by
  obtain ⟨hlim, hpre, rfl⟩ := decode_sound h
  have hsize := header_le_size i
  have hdrop : ∀ z : List UInt8, (u ++ z).drop pc = u.drop pc ++ z := fun z =>
    List.drop_append_of_le_length (by omega)
  refine decode_complete hlim ?_
  rw [hdrop] at hpre ⊢
  have hle : i.header.length ≤ (u.drop pc).length := by
    rw [List.length_drop]
    omega
  exact (List.prefix_of_prefix_length_le hpre (List.prefix_append _ x) hle).trans
    (List.prefix_append _ y)

/-- Behind `p` an instruction is read as at the start of the program. -/
lemma decode_shift {p q : List UInt8} (hlen : p.length + q.length ≤ 1000000) {pc out : ℕ}
    {i : Instruction} :
    decode (p ++ q) (p.length + pc) = .ok (i, p.length + out) ↔ decode q pc = .ok (i, out) := by
  rw [decode_eq_ok_iff, decode_eq_ok_iff, List.drop_append, List.drop_eq_nil_of_le (by omega),
    List.nil_append, Nat.add_sub_cancel_left]
  constructor
  · rintro ⟨hlim, hpre, hout⟩
    exact ⟨by omega, hpre, by omega⟩
  · rintro ⟨-, hpre, rfl⟩
    have hle := hpre.length_le
    rw [List.length_drop, length_header] at hle
    exact ⟨by rw [length_header]; omega, hpre, by omega⟩

lemma reaches_pc_le_pc {s t : InferState} (h : (inferLoop mem program).Reaches s t) :
    s.pc ≤ t.pc := by
  refine h.invariant (P := fun u => s.pc ≤ u.pc) (fun u v hu hp => ?_) le_rfl
  obtain ⟨i, hdec, -⟩ := inferStep_eq_ok.mp hp.2
  exact hu.trans (decode_lt hdec).le

lemma pass_append {u x : List UInt8} {s t : InferState} (h : (inferLoop mem (u ++ x)).Pass s t)
    (ht : t.pc ≤ u.length) (y : List UInt8) : (inferLoop mem (u ++ y)).Pass s t := by
  obtain ⟨i, hdec, hstack, hobls, -⟩ := inferStep_eq_ok.mp h.2
  have hlt := decode_lt hdec
  refine ⟨cond_iff.mpr ⟨?_, ?_⟩,
    inferStep_eq_ok.mpr ⟨i, decode_append hdec ht y, hstack, hobls, ?_⟩⟩
  · rw [List.length_append]
    omega
  · have hne := (cond_iff.mp h.1).2
    rw [List.getElem?_append_left (by omega)] at hne ⊢
    exact hne
  · rw [List.length_append]
    omega

/-- A run inside `u` does not depend on what stands behind `u`. -/
lemma reaches_append {u x : List UInt8} {s t : InferState}
    (h : (inferLoop mem (u ++ x)).Reaches s t) (ht : t.pc ≤ u.length) (y : List UInt8) :
    (inferLoop mem (u ++ y)).Reaches s t := by
  induction h with
  | refl => exact Loop.Reaches.refl s
  | tail hreach hpass ih =>
      have hlt := reaches_pc_le_pc (Relation.ReflTransGen.single hpass)
      exact (ih (hlt.trans ht)).tail (pass_append hpass ht y)

/-! ### Obligations -/

/-- The obligations are numbered in order, and there are no more of them than
bytes passed. -/
structure Numbered (s : InferState) : Prop where
  nextId : s.obls.nextId = UInt32.ofNat s.obls.count
  count_le : s.obls.count ≤ s.pc

/-- What an instruction adds to the identifiers. -/
lemma oblige_ids {i : Instruction} {pc out : ℕ} {obls obls' : ObligationSet}
    (h : i.oblige mem pc out obls = .ok obls') :
    obls'.ids = obls.ids ++ (if i = .verifyInv then [obls.nextId] else [])
      ∧ obls'.nextId = obls.nextId + (if i = .verifyInv then 1 else 0) := by
  cases i with
  | verifyInv =>
      rw [Instruction.oblige] at h
      split_ifs at h with hneg
      obtain rfl := Except.ok.inj h
      exact sovObsetAddInv_ids (Int32.not_lt.mp hneg)
  | _ =>
      obtain rfl := Except.ok.inj h
      simp

/-- With enough memory no obligation is refused. -/
lemma oblige_eq_ok (hmem : ∀ n, mem.items n = true) {s : InferState} (hs : Numbered s)
    (hpc : s.pc < 1000000) (i : Instruction) (out : ℕ) :
    ∃ obls, i.oblige mem s.pc out s.obls = .ok obls := by
  cases i with
  | verifyInv =>
      have hcount := hs.count_le
      have hid : s.obls.nextId.toNat < 2 ^ 31 := by
        rw [hs.nextId, UInt32.toNat_ofNat_of_lt' (by rw [UInt32.size]; omega)]
        omega
      have hnonneg := sovObsetAddInv_nonneg hmem hid (UInt32.ofNat s.pc) (UInt32.ofNat out)
      rw [Instruction.oblige, if_neg (Int32.not_lt.mpr hnonneg)]
      exact ⟨_, rfl⟩
  | _ => exact ⟨_, rfl⟩

lemma numbered_of_oblige {s t : InferState} (hs : Numbered s) {i : Instruction}
    (hobls : i.oblige mem s.pc t.pc s.obls = .ok t.obls) (hpc : s.pc < t.pc) : Numbered t := by
  obtain ⟨hids, hnext⟩ := oblige_ids hobls
  have hcount := congrArg List.length hids
  have hle := hs.count_le
  rw [List.length_append, length_ids, length_ids] at hcount
  split_ifs at hcount hnext
  · rw [List.length_singleton] at hcount
    refine ⟨?_, by omega⟩
    rw [hnext, hs.nextId, hcount, UInt32.ofNat_add]
    rfl
  · rw [List.length_nil, Nat.add_zero] at hcount
    refine ⟨?_, by omega⟩
    rw [hnext, hs.nextId, hcount, UInt32.add_zero]

lemma reaches_numbered {initial : Stack} {t : InferState}
    (h : (inferLoop mem program).Reaches (start initial) t) : Numbered t := by
  refine h.invariant (fun u v hu hp => ?_) ⟨rfl, le_rfl⟩
  obtain ⟨i, hdec, -, hobls, -⟩ := inferStep_eq_ok.mp hp.2
  exact numbered_of_oblige hu hobls (decode_lt hdec)

/-! ### Concatenation -/

/-- A state of a run of `q` and one of a run of `p ++ q`: the second is `n`
bytes on, and has the obligations `ids` of `p` before those of `q`. -/
structure Shifted (n : ℕ) (ids : List UInt32) (s s' : InferState) : Prop where
  stack : s'.stack = s.stack
  pc : s'.pc = n + s.pc
  ids : s'.obls.ids = ids ++ s.obls.ids.map (· + UInt32.ofNat ids.length)
  numbered : Numbered s
  numbered' : Numbered s'

lemma Shifted.count {n : ℕ} {ids : List UInt32} {s s' : InferState} (h : Shifted n ids s s') :
    s'.obls.count = ids.length + s.obls.count := by
  have hlen := congrArg List.length h.ids
  simpa using hlen

lemma Shifted.nextId {n : ℕ} {ids : List UInt32} {s s' : InferState} (h : Shifted n ids s s') :
    s'.obls.nextId = s.obls.nextId + UInt32.ofNat ids.length := by
  calc s'.obls.nextId
      = UInt32.ofNat (ids.length + s.obls.count) := by rw [h.numbered'.nextId, h.count]
    _ = UInt32.ofNat ids.length + s.obls.nextId := by rw [UInt32.ofNat_add, h.numbered.nextId]
    _ = s.obls.nextId + UInt32.ofNat ids.length := UInt32.add_comm _ _

/-- One instruction keeps two states shifted. -/
lemma Shifted.step {n : ℕ} {ids : List UInt32} {s s' t t' : InferState} (h : Shifted n ids s s')
    {i : Instruction} (hobls : i.oblige mem s.pc t.pc s.obls = .ok t.obls)
    (hobls' : i.oblige mem s'.pc t'.pc s'.obls = .ok t'.obls) (hlt : s.pc < t.pc)
    (hstack : t'.stack = t.stack) (hpc : t'.pc = n + t.pc) : Shifted n ids t t' := by
  have hlt' : s'.pc < t'.pc := by
    rw [h.pc, hpc]
    omega
  refine ⟨hstack, hpc, ?_, numbered_of_oblige h.numbered hobls hlt,
    numbered_of_oblige h.numbered' hobls' hlt'⟩
  calc t'.obls.ids
      = s'.obls.ids ++ (if i = .verifyInv then [s'.obls.nextId] else []) := (oblige_ids hobls').1
    _ = ids ++ (s.obls.ids ++ (if i = .verifyInv then [s.obls.nextId] else [])).map
          (· + UInt32.ofNat ids.length) := by
        rw [h.ids, h.nextId, List.map_append, List.append_assoc]
        split_ifs <;> rfl
    _ = ids ++ t.obls.ids.map (· + UInt32.ofNat ids.length) := by rw [(oblige_ids hobls).1]

variable {p q : List UInt8}

lemma shifted_cond {ids : List UInt32} {s s' : InferState} (h : Shifted p.length ids s s') :
    (inferLoop mem (p ++ q)).cond s' = (inferLoop mem q).cond s := by
  rw [Bool.eq_iff_iff, cond_iff, cond_iff, h.pc, List.length_append,
    List.getElem?_append_right (by omega), Nat.add_sub_cancel_left, Nat.add_lt_add_iff_left]

/-- What `q` does, it does behind `p`. -/
lemma shifted_pass (hmem : ∀ n, mem.items n = true) (hlen : p.length + q.length ≤ 1000000)
    {ids : List UInt32} {s s' t : InferState} (h : Shifted p.length ids s s')
    (hp : (inferLoop mem q).Pass s t) :
    ∃ t', (inferLoop mem (p ++ q)).Pass s' t' ∧ Shifted p.length ids t t' := by
  obtain ⟨i, hdec, hstack, hobls, hle⟩ := inferStep_eq_ok.mp hp.2
  have hlt := decode_lt hdec
  have hdec' := (decode_shift hlen).mpr hdec
  have hpc : s'.pc < 1000000 := by
    have hq := (cond_iff.mp hp.1).1
    rw [h.pc]
    omega
  obtain ⟨obls, hobls'⟩ := oblige_eq_ok hmem h.numbered' hpc i (p.length + t.pc)
  refine ⟨⟨t.stack, p.length + t.pc, obls⟩, ⟨(shifted_cond h).trans hp.1, inferStep_eq_ok.mpr
    ⟨i, ?_, ?_, hobls', ?_⟩⟩, h.step hobls hobls' hlt rfl rfl⟩
  · rw [h.pc]
    exact hdec'
  · rw [h.stack]
    exact hstack
  · rw [List.length_append]
    exact Nat.add_le_add_left hle _

/-- What is done behind `p`, `q` does. -/
lemma shifted_pass' (hmem : ∀ n, mem.items n = true) (hlen : p.length + q.length ≤ 1000000)
    {ids : List UInt32} {s s' t' : InferState} (h : Shifted p.length ids s s')
    (hp : (inferLoop mem (p ++ q)).Pass s' t') :
    ∃ t, (inferLoop mem q).Pass s t ∧ Shifted p.length ids t t' := by
  obtain ⟨i, hdec, hstack, hobls', hle⟩ := inferStep_eq_ok.mp hp.2
  have hlt := decode_lt hdec
  have hcond := (shifted_cond h).symm.trans hp.1
  obtain ⟨out, hout⟩ := Nat.exists_eq_add_of_le (show p.length ≤ t'.pc by have hpc := h.pc; omega)
  rw [hout, h.pc] at hdec
  have hdec' := (decode_shift hlen).mp hdec
  have hpc : s.pc < 1000000 := by
    have hq := (cond_iff.mp hcond).1
    omega
  obtain ⟨obls, hobls⟩ := oblige_eq_ok hmem h.numbered hpc i out
  refine ⟨⟨t'.stack, out, obls⟩, ⟨hcond, inferStep_eq_ok.mpr ⟨i, hdec', ?_, hobls, ?_⟩⟩,
    h.step (t := ⟨t'.stack, out, obls⟩) hobls hobls' (decode_lt hdec') rfl hout⟩
  · rw [← h.stack]
    exact hstack
  · rw [List.length_append] at hle
    simp only
    omega

lemma reaches_depth {initial : Stack} (hlen : initial.length ≤ 256) {t : InferState}
    (h : (inferLoop mem program).Reaches (start initial) t) : t.stack.length ≤ 256 := by
  refine h.invariant (P := fun s => s.stack.length ≤ 256) (fun u v hu hp => ?_) hlen
  obtain ⟨i, -, hstack, -⟩ := inferStep_eq_ok.mp hp.2
  exact infer_length hstack hu

/-- No allocation fails because of its size. -/
structure InferMemory.Ample (mem : InferMemory) : Prop where
  items : ∀ n, mem.items n = true
  ids : ∀ n, mem.ids n = true

/-- The identifiers of a result. -/
def InferResult.ids (r : InferResult) : List UInt32 := r.obligationIds.getD []

lemma capture_ids {mem : InferMemory} (hmem : mem.Ample) (t : InferState) :
    (capture mem t).ids = t.obls.ids := by
  by_cases hcount : t.obls.count > 0
  · simp [capture, InferResult.ids, hcount, hmem.ids]
  · have hnil : t.obls.ids = [] := by
      rw [← List.length_eq_zero_iff, length_ids]
      omega
    simp [capture, InferResult.ids, hcount, hnil]

/-- The loop is run, and comes to a program counter. -/
def Visits (mem : InferMemory) (program : List UInt8) (initial : Stack) (pc : ℕ) : Prop :=
  Started mem program initial
    ∧ ∃ t, (inferLoop mem.toMemory program).Reaches (start initial) t ∧ t.pc = pc

lemma shifted_start {t : InferState} (ht : Numbered t) :
    Shifted t.pc t.obls.ids (start t.stack) t :=
  ⟨rfl, rfl, by simp [start, ObligationSet.ids], ⟨rfl, le_rfl⟩, ht⟩

/-- A run of `q` that ends can be followed behind `p`. -/
lemma shifted_run {mem : InferMemory} (hmem : mem.Ample) (hlen : p.length + q.length ≤ 1000000)
    {ids : List UInt32} {s s' t : InferState} (h : Shifted p.length ids s s')
    (hrun : (inferLoop mem.toMemory q).run s = .ok t) :
    ∃ t', (inferLoop mem.toMemory (p ++ q)).run s' = .ok t' ∧ Shifted p.length ids t t' := by
  obtain ⟨hreach, hcond⟩ := Loop.run_eq_ok_iff.mp hrun
  obtain ⟨t', hreach', ht⟩ := hreach.simulation (fun u v u' hu hp =>
    shifted_pass hmem.items hlen hu hp) h
  exact ⟨t', Loop.run_eq_ok_iff.mpr ⟨hreach', (shifted_cond ht).trans hcond⟩, ht⟩

/-- A run behind `p` that ends is one of `q`. -/
lemma shifted_run' {mem : InferMemory} (hmem : mem.Ample) (hlen : p.length + q.length ≤ 1000000)
    {ids : List UInt32} {s s' t' : InferState} (h : Shifted p.length ids s s')
    (hrun : (inferLoop mem.toMemory (p ++ q)).run s' = .ok t') :
    ∃ t, (inferLoop mem.toMemory q).run s = .ok t := by
  obtain ⟨hreach, hcond⟩ := Loop.run_eq_ok_iff.mp hrun
  obtain ⟨t, hreach', ht⟩ := hreach.simulation (R := fun u' u => Shifted p.length ids u u')
    (fun u' v' u hu hp => shifted_pass' hmem.items hlen hu hp) h
  exact ⟨t, Loop.run_eq_ok_iff.mpr ⟨hreach', (shifted_cond ht).symm.trans hcond⟩⟩

/-- What a run of `p` that comes to the end of `p` leaves for `q`. -/
lemma append_setup {mem : InferMemory} {initial : Stack} {t : InferState} (hq : q ≠ [])
    (hstarted : Started mem p initial)
    (hreach : (inferLoop mem.toMemory p).Reaches (start initial) t) (hpc : t.pc = p.length) :
    Started mem (p ++ q) initial ∧ Started mem q t.stack
      ∧ (inferLoop mem.toMemory (p ++ q)).Reaches (start initial) t
      ∧ Shifted p.length t.obls.ids (start t.stack) t := by
  refine ⟨⟨hstarted.result, by simp [hq], hstarted.stack, hstarted.depth, hstarted.obligationSet⟩,
    ⟨hstarted.result, hq, hstarted.stack, reaches_depth hstarted.depth hreach,
      hstarted.obligationSet⟩, ?_, ?_⟩
  · rw [← List.append_nil p] at hreach
    exact reaches_append hreach hpc.le q
  · rw [← hpc]
    exact shifted_start (reaches_numbered hreach)

/-- A run that comes to the end of its program ends there. -/
lemma run_of_visits_end {initial : Stack} {t : InferState}
    (hreach : (inferLoop mem program).Reaches (start initial) t) (hpc : t.pc = program.length) :
    (inferLoop mem program).run (start initial) = .ok t := by
  refine Loop.run_eq_ok_iff.mpr ⟨hreach, ?_⟩
  rw [Bool.eq_false_iff, ne_eq, cond_iff, hpc]
  simp

/-- A run that comes to a `HALT` ends there, whatever stands behind it. -/
lemma run_of_visits_halt {u x : List UInt8} {initial : Stack} {t : InferState}
    (hreach : (inferLoop mem (u ++ opHalt :: x)).Reaches (start initial) t)
    (hpc : t.pc = u.length) (y : List UInt8) :
    (inferLoop mem (u ++ opHalt :: y)).run (start initial) = .ok t := by
  refine Loop.run_eq_ok_iff.mpr ⟨reaches_append hreach hpc.le _, ?_⟩
  rw [Bool.eq_false_iff, ne_eq, cond_iff, hpc]
  simp

/-- Type inference composes. A program `q` behind a program `p` that is accepted
and comes to its end is accepted as it is from the final stack of `p`, with the
obligations of `p` before its own; and what stands behind a `HALT` that is
executed does not matter. -/
theorem sov_infer_program_append {mem : InferMemory} (hmem : mem.Ample) :
    (∀ (p q : List UInt8) (initial middle : Stack) (r : InferResult), p ≠ [] → q ≠ [] →
      p.length + q.length ≤ 1000000 → Accepts mem p initial r → r.finalStack = some middle →
      Visits mem p initial p.length →
        ((∃ r', Accepts mem (p ++ q) initial r') ↔ ∃ r', Accepts mem q middle r')
        ∧ ∀ r', Accepts mem q middle r' → ∃ r'', Accepts mem (p ++ q) initial r''
          ∧ r''.finalStack = r'.finalStack
          ∧ r''.numObligations = r'.numObligations + r.numObligations
          ∧ r''.ids = r.ids ++ r'.ids.map (· + UInt32.ofNat r.numObligations))
    ∧ ∀ (u x y : List UInt8) (initial : Stack), Visits mem (u ++ opHalt :: x) initial u.length →
      sovInferProgram mem (some (u ++ opHalt :: x)) (some initial)
        = sovInferProgram mem (some (u ++ opHalt :: y)) (some initial) := by
  constructor
  · rintro p q initial middle r - hq hlen hr hmiddle ⟨hstarted, t, hreach, hpc⟩
    -- the result of `p` is that of its one run, which ends at `t`
    obtain ⟨-, t', hrun, rfl⟩ := accepts_iff.mp hr
    obtain rfl := Except.ok.inj ((run_of_visits_end hreach hpc).symm.trans hrun)
    obtain rfl := Option.some.inj hmiddle
    obtain ⟨hstarted', hstartedq, hreach', hshift⟩ := append_setup hq hstarted hreach hpc
    have hforward : ∀ r', Accepts mem q t.stack r' → ∃ r'', Accepts mem (p ++ q) initial r''
        ∧ r''.finalStack = r'.finalStack
        ∧ r''.numObligations = r'.numObligations + (capture mem t).numObligations
        ∧ r''.ids = (capture mem t).ids
          ++ r'.ids.map (· + UInt32.ofNat (capture mem t).numObligations) := by
      intro r' hr'
      obtain ⟨-, s, hs, rfl⟩ := accepts_iff.mp hr'
      obtain ⟨s', hs', hshift'⟩ := shifted_run hmem hlen hshift hs
      rw [← hreach'.run_eq] at hs'
      refine ⟨capture mem s', accepts_iff.mpr ⟨hstarted', s', hs', rfl⟩,
        congrArg some hshift'.stack, ?_, ?_⟩
      · rw [capture, capture, capture, hshift'.count, length_ids, Nat.add_comm]
      · rw [capture_ids hmem, capture_ids hmem, capture_ids hmem, hshift'.ids, length_ids]
        rfl
    refine ⟨⟨?_, ?_⟩, hforward⟩
    · rintro ⟨r', hr'⟩
      obtain ⟨-, s', hs', -⟩ := accepts_iff.mp hr'
      rw [hreach'.run_eq] at hs'
      obtain ⟨s, hs⟩ := shifted_run' hmem hlen hshift hs'
      exact ⟨capture mem s, accepts_iff.mpr ⟨hstartedq, s, hs, rfl⟩⟩
    · rintro ⟨r', hr'⟩
      obtain ⟨r'', hr'', -⟩ := hforward r' hr'
      exact ⟨r'', hr''⟩
  · rintro u x y initial ⟨hstarted, t, hreach, hpc⟩
    have hstarted' : Started mem (u ++ opHalt :: y) initial :=
      ⟨hstarted.result, by simp, hstarted.stack, hstarted.depth, hstarted.obligationSet⟩
    rw [sovInferProgram_of_started hstarted, sovInferProgram_of_started hstarted',
      run_of_visits_halt hreach hpc x, run_of_visits_halt hreach hpc y]

/-- A matrix is pushed and verified twice, and a byte stands behind a `HALT`. -/
theorem sov_infer_program_append_verify :
    (((∃ r, Accepts .unlimited ([0x03, 0, 0, 0, 0, 0, 0, 0, 0, 0x0A]
            ++ [0x03, 0, 0, 0, 0, 0, 0, 0, 0, 0x0A]) [] r)
        ↔ ∃ r, Accepts .unlimited [0x03, 0, 0, 0, 0, 0, 0, 0, 0, 0x0A] [] r)
      ∧ ∃ r, Accepts .unlimited [0x03, 0, 0, 0, 0, 0, 0, 0, 0, 0x0A] [] r
        ∧ ∃ r', Accepts .unlimited ([0x03, 0, 0, 0, 0, 0, 0, 0, 0, 0x0A]
            ++ [0x03, 0, 0, 0, 0, 0, 0, 0, 0, 0x0A]) [] r'
          ∧ r'.ids = r.ids ++ r.ids.map (· + UInt32.ofNat r.numObligations))
      ∧ sovInferProgram .unlimited (some ([] ++ opHalt :: [1])) (some [])
        = sovInferProgram .unlimited (some ([] ++ opHalt :: [])) (some []) := by
  have hpush : (inferLoop InferMemory.unlimited.toMemory
      [0x03, 0, 0, 0, 0, 0, 0, 0, 0, 0x0A]).Pass (start [])
      ⟨[⟨.matrix, ⟨0, 0⟩⟩], 9, ⟨[], 10, 0⟩⟩ := ⟨by decide, by rfl⟩
  have hverify : (inferLoop InferMemory.unlimited.toMemory
      [0x03, 0, 0, 0, 0, 0, 0, 0, 0, 0x0A]).Pass ⟨[⟨.matrix, ⟨0, 0⟩⟩], 9, ⟨[], 10, 0⟩⟩
      ⟨[], 10, (sovObsetAddInv InferMemory.unlimited.toMemory ⟨[], 10, 0⟩ 9 10).2⟩ :=
    ⟨by decide, by rfl⟩
  have hstarted : Started .unlimited [0x03, 0, 0, 0, 0, 0, 0, 0, 0, 0x0A] [] :=
    (started_unlimited (by simp) (by simp))
  have hreach := Loop.Reaches.head hpush (Loop.Reaches.head hverify (Loop.Reaches.refl _))
  have haccepts := accepts_of_reaches hstarted hreach (by decide)
  have hmem : InferMemory.unlimited.Ample := ⟨fun _ => rfl, fun _ => rfl⟩
  obtain ⟨happend, hhalt⟩ := sov_infer_program_append hmem
  obtain ⟨hiff, hids⟩ := happend _ _ [] [] _ hstarted.program hstarted.program (by decide) haccepts
    rfl ⟨hstarted, _, hreach, rfl⟩
  obtain ⟨r', hr', -, -, heq⟩ := hids _ haccepts
  exact ⟨⟨hiff, _, haccepts, r', hr', heq⟩,
    hhalt [] [1] [] [] ⟨started_unlimited (by simp) (by simp), _, Loop.Reaches.refl _, rfl⟩⟩

end Typecheck

end SovereignBus
