import SovereignBus.Typecheck.Infer

/-!
Where the instructions of a program begin and end.

* `grammarSize`: the size of an instruction as the grammar of the opcodes gives
  it. `countedSize` is the one `infer_instruction` computes, which counts the
  bytes of a literal in 32 bits.
* `Framed`: the instructions of a run cut the program as the grammar does.
* `sov_infer_program_framed_iff`: an accepted program is framed exactly when no
  literal it executes has `2 ^ 32` bytes or more.
* `ReadsInside`: nothing is read outside of the program, and an instruction its
  end cuts off is reported. `sov_infer_program_reads_iff` says exactly when.
-/

namespace SovereignBus

namespace Typecheck

open Obligations

/-! ### The grammar -/

/-- The number at a place of the program. -/
def count (program : List UInt8) (i : ℕ) : ℕ :=
  u32 (program.getD i 0) (program.getD (i + 1) 0) (program.getD (i + 2) 0) (program.getD (i + 3) 0)

/-- How many values the literal of an instruction holds: `n` of a vector, and
`m * n` of a matrix. -/
def literalCount (program : List UInt8) (pc : ℕ) : ℕ :=
  match OpCode.ofByte (program.getD pc 0) with
  | some .pushVector => count program (pc + 1)
  | some .pushMatrix => count program (pc + 1) * count program (pc + 5)
  | _ => 0

/-- The size of an instruction, with the bytes of its literal counted by
`bytes`. -/
def sizeWith (bytes : ℕ → ℕ) (program : List UInt8) (pc : ℕ) : ℕ :=
  match OpCode.ofByte (program.getD pc 0) with
  | some .pushScalar => 9
  | some .pushVector => 5 + bytes (8 * literalCount program pc)
  | some .pushMatrix => 9 + bytes (8 * literalCount program pc)
  | _ => 1

/-- The size the grammar gives. -/
def grammarSize (program : List UInt8) (pc : ℕ) : ℕ := sizeWith id program pc

/-- The size counted in 32 bits. -/
def countedSize (program : List UInt8) (pc : ℕ) : ℕ := sizeWith (· % 2 ^ 32) program pc

lemma count_eq {program : List UInt8} {i : ℕ} {n : UInt32} (h : bytes32 n <+: program.drop i) :
    count program i = n.toNat := by
  simp only [bytes32, cons_prefix_drop_iff] at h
  obtain ⟨h0, h1, h2, h3, -⟩ := h
  simp only [count, List.getD_eq_getElem?_getD, h0, h1, h2, h3, Option.getD_some]
  exact u32_bytes32 n

lemma ofByte_getD {program : List UInt8} {pc : ℕ} {c : OpCode} (h : program[pc]? = some c.byte) :
    OpCode.ofByte (program.getD pc 0) = some c := by
  rw [List.getD_eq_getElem?_getD, h, Option.getD_some]
  exact ofByte_eq_some_iff.mpr rfl

/-- An instruction leads as far as its counted size. -/
lemma countedSize_eq {program : List UInt8} {pc : ℕ} {i : Instruction}
    (h : i.header <+: program.drop pc) : countedSize program pc = i.size := by
  obtain ⟨hop, hargs⟩ := header_prefix_iff.mp h
  rw [countedSize, sizeWith, literalCount, ofByte_getD hop]
  cases i with
  | pushVector n =>
      simp only [Instruction.op, Instruction.size, count_eq hargs, UInt32.toNat_mul]
      rw [Nat.mul_comm]
      rfl
  | pushMatrix m n =>
      obtain ⟨hm, hn⟩ := append_prefix_drop_iff.mp hargs
      have hn' : count program (pc + 5) = n.toNat := count_eq hn
      simp only [Instruction.op, Instruction.size, count_eq hm, hn', UInt32.toNat_mul]
      rw [Nat.mod_mul_mod, Nat.mul_comm]
      rfl
  | _ => rfl

/-- The two sizes agree on literals that fit 32 bits. -/
lemma grammarSize_eq_countedSize_iff {program : List UInt8} {pc : ℕ} :
    grammarSize program pc = countedSize program pc ↔ 8 * literalCount program pc < 2 ^ 32 := by
  have hmod : ∀ h b : ℕ, h + b = h + b % 2 ^ 32 ↔ b < 2 ^ 32 := fun h b => by omega
  rw [grammarSize, countedSize, sizeWith, sizeWith]
  split
  · next hop => simp only [literalCount, hop, Nat.mul_zero, Nat.reducePow, Nat.zero_lt_succ]
  · exact hmod 5 _
  · exact hmod 9 _
  · next hscalar hvector hmatrix =>
      rw [literalCount]
      split
      · next hop => exact absurd hop hvector
      · next hop => exact absurd hop hmatrix
      · simp

/-! ### Framing -/

/-- Instructions that start at `starts` cut the bytes before `stop` as the
grammar does, and `stop` is the end of the program or a `HALT`. -/
structure Framed (program : List UInt8) (starts : List ℕ) (stop : ℕ) : Prop where
  packed : Extents.Packed (fun pc => pc) (grammarSize program) 0 starts
  cursor : Extents.cursor (fun pc => pc + grammarSize program pc) 0 starts = stop
  partition : ∀ i < stop, ∃! pc, pc ∈ starts ∧ pc ≤ i ∧ i < pc + grammarSize program pc
  inside : ∀ pc ∈ starts, pc + grammarSize program pc ≤ program.length
  ends : stop = program.length ∨ program[stop]? = some opHalt

variable {mem : Memory} {program : List UInt8}

lemma pass_pc_eq {s t : InferState} (h : (inferLoop mem program).Pass s t) :
    t.pc = s.pc + countedSize program s.pc := by
  obtain ⟨i, hdec, -⟩ := inferStep_eq_ok.mp h.2
  obtain ⟨-, hpre, hpc⟩ := decode_sound hdec
  rw [countedSize_eq hpre, hpc]

/-- The program counter never leaves the program. -/
lemma reaches_pc_le {initial : Stack} {t : InferState}
    (h : (inferLoop mem program).Reaches (start initial) t) : t.pc ≤ program.length := by
  refine h.invariant (P := fun s => s.pc ≤ program.length) (fun s u _ hp => ?_) (Nat.zero_le _)
  obtain ⟨i, -, -, -, hle⟩ := inferStep_eq_ok.mp hp.2
  exact hle

/-- A run that ends is framed exactly when all its literals fit 32 bits. -/
lemma framed_iff {initial : Stack} {t : InferState}
    (h : (inferLoop mem program).run (start initial) = .ok t) :
    Framed program (((inferLoop mem program).trace (start initial)).map InferState.pc) t.pc
      ↔ ∀ s ∈ (inferLoop mem program).trace (start initial),
        8 * literalCount program s.pc < 2 ^ 32 := by
  have hsizes := Loop.packed_iff InferState.pc (fun s => grammarSize program s.pc)
    (fun s => countedSize program s.pc) (fun u v hp => pass_pc_eq hp) h
  simp only [grammarSize_eq_countedSize_iff] at hsizes
  have hpacked : Extents.Packed (fun pc => pc) (grammarSize program) 0
        (((inferLoop mem program).trace (start initial)).map InferState.pc)
      ↔ Extents.Packed InferState.pc (fun s => grammarSize program s.pc) 0
        ((inferLoop mem program).trace (start initial)) :=
    Extents.follows_map _ _
  have hcursor : Extents.cursor (fun pc => pc + grammarSize program pc) 0
        (((inferLoop mem program).trace (start initial)).map InferState.pc)
      = Extents.cursor (fun s => s.pc + grammarSize program s.pc) 0
        ((inferLoop mem program).trace (start initial)) :=
    Extents.cursor_map _ _ _ _
  obtain ⟨hreach, hcond⟩ := Loop.run_eq_ok_iff.mp h
  have hle := reaches_pc_le hreach
  rw [← hsizes]
  constructor
  · intro hf
    exact ⟨hpacked.mp hf.packed, hcursor.symm.trans hf.cursor⟩
  · rintro ⟨hf, hcur⟩
    have hp := hpacked.mpr hf
    have hc := hcursor.trans hcur
    have hsum := hp.cursor_eq.symm.trans hc
    refine ⟨hp, hc, fun i hi => ?_, fun pc hpc => ?_, ?_⟩
    · exact hp.existsUnique (Nat.zero_le i) (by omega)
    · calc pc + grammarSize program pc
          ≤ 0 + ((((inferLoop mem program).trace (start initial)).map InferState.pc).map
              (grammarSize program)).sum := hp.end_le hpc
        _ = t.pc := hsum
        _ ≤ program.length := hle
    · have hend := mt cond_iff.mpr (Bool.eq_false_iff.mp hcond)
      by_cases hhalt : program[t.pc]? = some opHalt
      · exact .inr hhalt
      · exact .inl (le_antisymm hle (not_lt.mp fun hlt => hend ⟨hlt, hhalt⟩))

/-- An accepted program is framed exactly when none of the literals it executes
has `2 ^ 32` bytes or more. -/
theorem sov_infer_program_framed_iff {mem : InferMemory} {program : List UInt8} {initial : Stack}
    {r : InferResult} (h : Accepts mem program initial r) :
    ∃ t, (inferLoop mem.toMemory program).run (start initial) = .ok t ∧ capture mem t = r
      ∧ (Framed program ((executed mem (some program) (some initial)).map InferState.pc) t.pc
        ↔ ∀ s ∈ executed mem (some program) (some initial),
          8 * literalCount program s.pc < 2 ^ 32) := by
  obtain ⟨hstarted, t, hrun, hr⟩ := accepts_iff.mp h
  refine ⟨t, hrun, hr, ?_⟩
  rw [executed_of_started hstarted]
  exact framed_iff hrun

/-- A vector of one value. -/
theorem sov_infer_program_framed_vector :
    ∃ t r, Accepts .unlimited [0x02, 1, 0, 0, 0, 7, 0, 0, 0, 0, 0, 0, 0] [] r
      ∧ capture .unlimited t = r
      ∧ (Framed [0x02, 1, 0, 0, 0, 7, 0, 0, 0, 0, 0, 0, 0]
          ((executed .unlimited (some [0x02, 1, 0, 0, 0, 7, 0, 0, 0, 0, 0, 0, 0]) (some [])).map
            InferState.pc) t.pc
        ↔ ∀ s ∈ executed .unlimited (some [0x02, 1, 0, 0, 0, 7, 0, 0, 0, 0, 0, 0, 0]) (some []),
          8 * literalCount [0x02, 1, 0, 0, 0, 7, 0, 0, 0, 0, 0, 0, 0] s.pc < 2 ^ 32) := by
  have haccepts : Accepts .unlimited [0x02, 1, 0, 0, 0, 7, 0, 0, 0, 0, 0, 0, 0] []
      (capture .unlimited ⟨[⟨.vector, ⟨1, 1⟩⟩], 13, ⟨[], 10, 0⟩⟩) :=
    accepts_of_reaches (started_unlimited (by simp) (by simp))
      (Loop.Reaches.head ⟨by decide, by rfl⟩ (Loop.Reaches.refl _)) (by decide)
  obtain ⟨t, -, hcapture, hframed⟩ := sov_infer_program_framed_iff haccepts
  exact ⟨t, _, haccepts, hcapture, hframed⟩

/-- A vector of `2 ^ 29` values is accepted in five bytes. -/
theorem sov_infer_program_not_framed :
    ∃ r, Accepts .unlimited [0x02, 0, 0, 0, 0x20] [] r
      ∧ ∀ stop, ¬ Framed [0x02, 0, 0, 0, 0x20]
        ((executed .unlimited (some [0x02, 0, 0, 0, 0x20]) (some [])).map InferState.pc) stop := by
  have hstarted : Started .unlimited [0x02, 0, 0, 0, 0x20] [] :=
    started_unlimited (by simp) (by simp)
  have hpass : (inferLoop InferMemory.unlimited.toMemory [0x02, 0, 0, 0, 0x20]).Pass (start [])
      ⟨[⟨.vector, ⟨1, 2 ^ 29⟩⟩], 5, ⟨[], 10, 0⟩⟩ := ⟨by decide, by rfl⟩
  refine ⟨_, accepts_of_reaches hstarted (Loop.Reaches.head hpass (Loop.Reaches.refl _))
    (by decide), fun stop hf => ?_⟩
  -- the grammar gives the one instruction a size of more than `2 ^ 32`
  have hle := hf.inside 0 (by
    rw [executed_of_started hstarted, hpass.trace_eq]
    exact List.mem_cons_self)
  exact absurd hle (by decide)

/-! ### Reads -/

/-- The program is never read behind its end, and every instruction its end cuts
off is reported. -/
def ReadsInside (mem : InferMemory) (program : List UInt8) (initial : Stack) : Prop :=
  (∀ j, sovInferProgram mem (some program) (some initial) ≠ .error j)
    ∧ ∀ s ∈ executed mem (some program) (some initial),
      program.length < s.pc + grammarSize program s.pc →
        ∃ msg, inferStep mem.toMemory program s = .error (.error msg)

/-- The program ends inside the operands that are read for an opcode, before the
bound its case tests instead of `program_len`. -/
def CutOperands (program : List UInt8) (pc : ℕ) : Prop :=
  ∃ c : OpCode, program[pc]? = some c.byte ∧ pc + c.reads ≤ 1000000
    ∧ program.length < pc + c.reads

/-- The program ends inside a literal, but not inside what 32 bits count of it,
and the stack has room for it. -/
def CutLiteral (program : List UInt8) (s : InferState) : Prop :=
  s.pc + countedSize program s.pc ≤ program.length
    ∧ program.length < s.pc + grammarSize program s.pc
    ∧ ∃ c : OpCode, program[s.pc]? = some c.byte ∧ s.pc + c.reads ≤ 1000000
    ∧ s.stack.length < 256

/-- Only the size of a literal is counted. -/
lemma literal_of_ne {pc : ℕ} {c : OpCode} (hop : program[pc]? = some c.byte)
    (hne : grammarSize program pc ≠ countedSize program pc) :
    c = .pushVector ∨ c = .pushMatrix := by
  rw [grammarSize, countedSize, sizeWith, sizeWith, ofByte_getD hop] at hne
  cases c with
  | pushVector => exact .inl rfl
  | pushMatrix => exact .inr rfl
  | _ => exact absurd rfl hne

/-- A literal whose operands are inside the program stands there. -/
lemma exists_literal {pc : ℕ} {c : OpCode} (hc : c = .pushVector ∨ c = .pushMatrix)
    (hop : program[pc]? = some c.byte) (hle : pc + c.reads ≤ program.length) :
    ∃ i : Instruction, i.op = c ∧ i.header <+: program.drop pc := by
  rcases hc with rfl | rfl
  · simp only [OpCode.reads] at hle
    obtain ⟨n, hn⟩ : ∃ n, fetch32 program (pc + 1) = .ok n := fetch32_of_le (by omega)
    exact ⟨.pushVector n, rfl, header_prefix_iff.mpr ⟨hop, fetch32_eq_ok_iff.mp hn⟩⟩
  · simp only [OpCode.reads] at hle
    obtain ⟨m, hm⟩ : ∃ m, fetch32 program (pc + 1) = .ok m := fetch32_of_le (by omega)
    obtain ⟨n, hn⟩ : ∃ n, fetch32 program (pc + 5) = .ok n := fetch32_of_le (by omega)
    exact ⟨.pushMatrix m n, rfl, header_prefix_iff.mpr ⟨hop, append_prefix_drop_iff.mpr
      ⟨fetch32_eq_ok_iff.mp hm, fetch32_eq_ok_iff.mp hn⟩⟩⟩

/-- A literal is pushed as long as there is room, and adds no obligation. -/
lemma literal_infer {i : Instruction} (hi : i.op = .pushVector ∨ i.op = .pushMatrix)
    (stack : Stack) : (∃ stack', i.infer stack = .ok stack') ↔ stack.length < 256 := by
  cases i with
  | pushVector n =>
      rw [Instruction.infer, push, sovStackPush]
      split_ifs <;> simp <;> omega
  | pushMatrix m n =>
      rw [Instruction.infer, push, sovStackPush]
      split_ifs <;> simp <;> omega
  | _ => simp [Instruction.op] at hi

lemma literal_oblige {i : Instruction} (hi : i.op = .pushVector ∨ i.op = .pushMatrix) (pc out : ℕ)
    (obls : ObligationSet) : i.oblige mem pc out obls = .ok obls := by
  cases i with
  | verifyInv => simp [Instruction.op] at hi
  | _ => rfl

lemma reads_le_countedSize {pc : ℕ} {c : OpCode} (hop : program[pc]? = some c.byte) :
    c.reads ≤ countedSize program pc := by
  rw [countedSize, sizeWith, ofByte_getD hop]
  cases c <;> simp [OpCode.reads]

/-- The literals that are cut off and not reported. -/
lemma cutLiteral_iff {s : InferState} :
    CutLiteral program s
      ↔ program.length < s.pc + grammarSize program s.pc
        ∧ ∃ t, inferStep mem program s = .ok t := by
  constructor
  · rintro ⟨hcounted, hgrammar, c, hop, hlim, hroom⟩
    have hc := literal_of_ne hop (by omega)
    have hreads := reads_le_countedSize hop
    obtain ⟨i, rfl, hpre⟩ := exists_literal hc hop (by omega)
    obtain ⟨stack, hstack⟩ := (literal_infer hc s.stack).mpr hroom
    rw [countedSize_eq hpre] at hcounted
    refine ⟨hgrammar, ⟨stack, s.pc + i.size, s.obls⟩, inferStep_eq_ok.mpr ⟨i, ?_, hstack,
      literal_oblige hc _ _ _, hcounted⟩⟩
    exact decode_complete (by rw [header_length]; exact hlim) hpre
  · rintro ⟨hgrammar, t, ht⟩
    obtain ⟨i, hdec, hstack, -, hle⟩ := inferStep_eq_ok.mp ht
    obtain ⟨hlim, hpre, hpc⟩ := decode_sound hdec
    have hop := (header_prefix_iff.mp hpre).1
    have hcounted : s.pc + countedSize program s.pc ≤ program.length := by
      rw [countedSize_eq hpre, ← hpc]
      exact hle
    have hi := literal_of_ne hop (by omega)
    exact ⟨hcounted, hgrammar, i.op, hop, by rwa [← header_length],
      (literal_infer hi s.stack).mp ⟨_, hstack⟩⟩

/-- Exactly the operands that are cut off are read outside of the program. -/
lemma cutOperands_iff {s : InferState} (hpc : s.pc < program.length) :
    CutOperands program s.pc ↔ ∃ j, inferStep mem program s = .error (.fault j) := by
  simp only [inferStep_eq_fault]
  constructor
  · rintro ⟨c, hop, hlim, hcut⟩
    exact decode_of_cut hpc hop hlim hcut
  · rintro ⟨j, hj⟩
    exact (decode_eq_fault hpc hj).2

/-- Nothing is read behind the end of the program, and everything its end cuts
off is reported, exactly when no instruction that is reached is cut off inside
its operands, or inside a literal whose bytes 32 bits do not count. -/
theorem sov_infer_program_reads_iff (mem : InferMemory) (program : List UInt8) (initial : Stack) :
    ReadsInside mem program initial
      ↔ ∀ s ∈ executed mem (some program) (some initial),
        ¬ CutOperands program s.pc ∧ ¬ CutLiteral program s := by
  by_cases hstarted : Started mem program initial
  · rw [ReadsInside, executed_of_started hstarted, sovInferProgram_of_started hstarted]
    constructor
    · rintro ⟨hfault, hreport⟩ s hs
      obtain ⟨hreach, hcond⟩ := Loop.mem_trace_iff.mp hs
      refine ⟨fun hcut => ?_, fun hcut => ?_⟩
      · obtain ⟨j, hj⟩ := (cutOperands_iff (cond_iff.mp hcond).1).mp hcut
        have hrun := Loop.run_eq_error_iff.mpr ⟨s, hreach, hcond, hj⟩
        exact hfault j (by rw [hrun])
      · obtain ⟨hgrammar, t, ht⟩ : _ ∧ ∃ t, inferStep mem.toMemory program s = .ok t :=
          cutLiteral_iff.mp hcut
        obtain ⟨msg, hmsg⟩ := hreport s hs hgrammar
        simp [ht] at hmsg
    · intro hcut
      refine ⟨fun j hj => ?_, fun s hs hgrammar => ?_⟩
      · cases hrun : (inferLoop mem.toMemory program).run (start initial) with
        | ok t => simp [hrun] at hj
        | error e =>
            cases e with
            | error msg => simp [hrun] at hj
            | fault i =>
                obtain ⟨s, hreach, hcond, hbody⟩ := Loop.run_eq_error_iff.mp hrun
                exact (hcut s (Loop.mem_trace_iff.mpr ⟨hreach, hcond⟩)).1
                  ((cutOperands_iff (cond_iff.mp hcond).1).mpr ⟨i, hbody⟩)
      · have hcond := (Loop.mem_trace_iff.mp hs).2
        cases hstep : inferStep mem.toMemory program s with
        | ok t => exact absurd (cutLiteral_iff.mpr ⟨hgrammar, t, hstep⟩) (hcut s hs).2
        | error e =>
            cases e with
            | error msg => exact ⟨msg, rfl⟩
            | fault i =>
                exact absurd ((cutOperands_iff (cond_iff.mp hcond).1).mpr ⟨i, hstep⟩) (hcut s hs).1
  · rw [ReadsInside, executed_of_not_started hstarted]
    refine iff_of_true ⟨fun j hj => ?_, by simp⟩ (by simp)
    rcases sovInferProgram_of_not_started hstarted with h | ⟨msg, h⟩
    · simp [h] at hj
    · simp [h] at hj

/-- A `PUSH_VECTOR` without its count reads behind the end. -/
theorem sov_infer_program_reads_outside : ¬ ReadsInside .unlimited [0x02] [] := by
  rintro ⟨h, -⟩
  have hrun : (inferLoop InferMemory.unlimited.toMemory [0x02]).run (start [])
      = .error (.fault 1) := Loop.run_of_error (by decide) (by rfl)
  refine h 1 ?_
  rw [sovInferProgram_of_started (started_unlimited (by simp) (by simp)), hrun]

end Typecheck

end SovereignBus
