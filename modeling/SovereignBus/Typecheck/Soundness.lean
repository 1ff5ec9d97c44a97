import Mathlib.Data.Matrix.Mul
import Mathlib.Data.Nat.Digits.Defs
import SovereignBus.Typecheck.Framing
import SovereignBus.Typecheck.Invariant

/-!
What the types of `src/typecheck/sov_types.c` say about the numbers of a program. The source
has no interpreter of the programs, so one is given here from the comments of the opcodes.

* `Value`: numbers, vectors and matrices over a ring; `Value.type` is their entry
  on the stack of the inference.
* `Instruction.exec`: what the comments have an instruction do to values. `exec_types` says
  that the inference does the same to their types.
* `execution`: the run of a program on values. It reads the literals of `i64` from the
  program, in the lengths of the grammar. `sov_infer_program_sound` says that the inference
  accepts the programs whose runs end, and tells their results, up to the literals it miscounts.
-/

namespace SovereignBus

namespace Typecheck

open Obligations

variable {R : Type*}

/-! ### Values -/

/-- A value of the stack programs, with numbers from a ring. -/
inductive Value (R : Type*) where
  | scalar (x : R)
  | vector (n : ℕ) (v : Fin n → R)
  | matrix (m n : ℕ) (A : Matrix (Fin m) (Fin n) R)

/-- The type of a value, with its shape. -/
def Value.type : Value R → StackValue
  | .scalar _ => ⟨.scalar, ⟨1, 1⟩⟩
  | .vector n _ => ⟨.vector, ⟨1, n⟩⟩
  | .matrix m n _ => ⟨.matrix, ⟨m, n⟩⟩

/-- The types of a stack of values. -/
def types (values : List (Value R)) : Stack := values.map Value.type

/-- A push onto a stack that has room for 256 values. -/
def pushValue (v : Value R) (values : List (Value R)) : Option (List (Value R)) :=
  if values.length < 256 then some (v :: values) else none

/-- An operation on two scalars, or place by place on two vectors of one length. -/
def pointwise (op : R → R → R) : List (Value R) → Option (List (Value R))
  | .scalar b :: .scalar a :: values => some (.scalar (op a b) :: values)
  | .vector p b :: .vector n a :: values =>
      if h : n = p then some (.vector n (fun k => op (a k) (b (Fin.cast h k))) :: values) else none
  | _ => none

/-- A square matrix is taken from the stack. -/
def takeSquare : List (Value R) → Option (List (Value R))
  | .matrix m n _ :: values => if m = n then some values else none
  | _ => none

/-- A square matrix, of any size. -/
abbrev Square (R : Type*) := (n : ℕ) × Matrix (Fin n) (Fin n) R

/-- The square matrix on the top of the stack. -/
def topSquare : List (Value R) → List (Square R)
  | .matrix m n A :: _ => if h : m = n then [⟨m, A.submatrix id (Fin.cast h)⟩] else []
  | _ => []

@[simp] lemma length_types (values : List (Value R)) : (types values).length = values.length :=
  List.length_map _

lemma types_pushValue (name : String) (v : Value R) (values : List (Value R)) :
    (pushValue v values).map types = (push name v.type (types values)).toOption := by
  rw [pushValue, push, sovStackPush, length_types]
  split_ifs with hroom hfull
  · omega
  · rfl
  · rfl
  · omega

lemma types_pointwise (op : R → R → R) (depth : String) (shapes : Shape → Shape → String)
    (msg : String) (values : List (Value R)) :
    (pointwise op values).map types
      = (elementwise depth shapes msg (types values)).toOption := by
  rcases values with _ | ⟨b, _ | ⟨a, values⟩⟩
  · rfl
  · cases b <;> rfl
  cases b with
  | scalar b => cases a <;> rfl
  | matrix p q B => cases a <;> rfl
  | vector p b =>
      cases a with
      | scalar a => rfl
      | matrix m n A => rfl
      | vector n a =>
          by_cases h : n = p
          · subst h
            simp [pointwise, types, elementwise, Value.type, sovShapeUnify, Except.toOption]
          · simp [pointwise, types, elementwise, Value.type, sovShapeUnify, Except.toOption, h]

lemma types_takeSquare (values : List (Value R)) :
    (takeSquare values).map types = (Instruction.verifyInv.infer (types values)).toOption := by
  rcases values with _ | ⟨a, values⟩
  · rfl
  cases a with
  | scalar a => rfl
  | vector n a => rfl
  | matrix m n A =>
      by_cases h : m = n
      · simp [takeSquare, types, Instruction.infer, Value.type, Except.toOption, h]
      · simp [takeSquare, types, Instruction.infer, Value.type, Except.toOption, h]

/-! ### Instructions on values -/

variable [Ring R]

/-- The product of two matrices that fit. -/
def multiply : List (Value R) → Option (List (Value R))
  | .matrix p q B :: .matrix m n A :: values =>
      if h : n = p then some (.matrix m q (A * B.submatrix (Fin.cast h) id) :: values) else none
  | _ => none

lemma types_multiply (values : List (Value R)) :
    (multiply values).map types = (Instruction.matmul.infer (types values)).toOption := by
  rcases values with _ | ⟨b, _ | ⟨a, values⟩⟩
  · rfl
  · cases b <;> rfl
  cases b with
  | scalar b => cases a <;> rfl
  | vector p b => cases a <;> rfl
  | matrix p q B =>
      cases a with
      | scalar a => rfl
      | vector n a => rfl
      | matrix m n A =>
          by_cases h : n = p
          · simp [multiply, types, Instruction.infer, Value.type, Except.toOption, h]
          · simp [multiply, types, Instruction.infer, Value.type, Except.toOption, h]

/-- What an instruction does to values; `data` are the numbers that stand behind its opcode. -/
def Instruction.exec (data : ℕ → R) : Instruction → List (Value R) → Option (List (Value R))
  | .pushScalar, values => pushValue (.scalar (data 0)) values
  | .pushVector n, values => pushValue (.vector n.toNat fun k => data k) values
  | .pushMatrix m n, values =>
      pushValue (.matrix m.toNat n.toNat fun k l => data (k * n.toNat + l)) values
  | .dup, v :: values => pushValue v (v :: values)
  | .dup, [] => none
  | .swap, b :: a :: values => some (a :: b :: values)
  | .swap, _ => none
  | .pop, _ :: values => some values
  | .pop, [] => none
  | .add, values => pointwise (· + ·) values
  | .sub, values => pointwise (· - ·) values
  | .matmul, values => multiply values
  | .verifyInv, values => takeSquare values
  | .halt, values => some values

/-- The matrices that an instruction takes to be invertible. -/
def Instruction.asserts (i : Instruction) (values : List (Value R)) : List (Square R) :=
  if i = .verifyInv then topSquare values else []

/-- An instruction does to the types of values what the inference does. -/
lemma exec_types (data : ℕ → R) (i : Instruction) (values : List (Value R)) :
    (i.exec data values).map types = (i.infer (types values)).toOption := by
  cases i with
  | pushScalar => exact types_pushValue _ _ values
  | pushVector n => exact types_pushValue _ _ values
  | pushMatrix m n => exact types_pushValue _ _ values
  | dup =>
      rcases values with _ | ⟨v, values⟩
      · rfl
      · exact types_pushValue _ v (v :: values)
  | swap => rcases values with _ | ⟨b, _ | ⟨a, values⟩⟩ <;> rfl
  | pop => cases values <;> rfl
  | add =>
      rw [Instruction.exec, Instruction.infer]
      exact types_pointwise _ _ _ _ values
  | sub =>
      rw [Instruction.exec, Instruction.infer]
      exact types_pointwise _ _ _ _ values
  | matmul => exact types_multiply values
  | verifyInv => exact types_takeSquare values
  | halt => rfl

/-- An instruction that is executed asserts one matrix if it is `VERIFY_INV`, else none. -/
lemma length_asserts {data : ℕ → R} {i : Instruction} {values values' : List (Value R)}
    (h : i.exec data values = some values') :
    (i.asserts values).length = if i = .verifyInv then 1 else 0 := by
  rw [Instruction.asserts]
  split_ifs with hverify
  · subst hverify
    rw [Instruction.exec] at h
    rcases values with _ | ⟨a, values⟩
    · simp [takeSquare] at h
    cases a with
    | scalar a => simp [takeSquare] at h
    | vector n a => simp [takeSquare] at h
    | matrix m n A =>
        rw [takeSquare] at h
        split_ifs at h with hsquare
        rw [topSquare, dif_pos hsquare]
        rfl
  · rfl

/-! ### Runs on values -/

/-- A state of a run: the values, the program counter, and the matrices that `VERIFY_INV`
has taken from the stack. -/
structure Execution (R : Type*) where
  values : List (Value R)
  pc : ℕ
  asserted : List (Square R)

/-- The instruction of an opcode, with the counts that stand behind it. -/
def OpCode.withCounts : OpCode → List UInt8 → Option Instruction
  | .pushScalar, _ => some .pushScalar
  | .pushVector, b0 :: b1 :: b2 :: b3 :: _ => some (.pushVector (UInt32.ofNat (u32 b0 b1 b2 b3)))
  | .pushVector, _ => none
  | .pushMatrix, b0 :: b1 :: b2 :: b3 :: b4 :: b5 :: b6 :: b7 :: _ =>
      some (.pushMatrix (UInt32.ofNat (u32 b0 b1 b2 b3)) (UInt32.ofNat (u32 b4 b5 b6 b7)))
  | .pushMatrix, _ => none
  | .dup, _ => some .dup
  | .swap, _ => some .swap
  | .pop, _ => some .pop
  | .add, _ => some .add
  | .sub, _ => some .sub
  | .matmul, _ => some .matmul
  | .verifyInv, _ => some .verifyInv
  -- the comments of these two do not say what they do
  | .verifySol, _ => none
  | .verifyLstsq, _ => none
  | .halt, _ => some .halt

/-- The instruction that stands before other bytes. -/
def readInstruction : List UInt8 → Option Instruction
  | [] => none
  | op :: args => (OpCode.ofByte op).bind fun c => c.withCounts args

/-- The `i64` whose eight bytes start at `i`, the lowest first. -/
def literalAt (program : List UInt8) (i : ℕ) : ℤ :=
  (BitVec.ofNat 64 (Nat.ofDigits 256 (((program.drop i).take 8).map UInt8.toNat))).toInt

/-- One instruction on values. An instruction that is not read, or that the end of the program
cuts off, or that its values do not fit, stops the run. -/
def execStep (program : List UInt8) (x : Execution R) : Except Unit (Execution R) :=
  match readInstruction (program.drop x.pc) with
  | none => .error ()
  | some i =>
      if x.pc + grammarSize program x.pc > program.length then .error ()
      else
        match i.exec (fun k => (literalAt program (x.pc + i.header.length + 8 * k) : R))
            x.values with
        | none => .error ()
        | some values =>
            .ok ⟨values, x.pc + grammarSize program x.pc, x.asserted ++ i.asserts x.values⟩

lemma withCounts_eq_some {c : OpCode} {args : List UInt8} {i : Instruction} :
    c.withCounts args = some i ↔ i.op = c ∧ i.operands <+: args := by
  constructor
  · intro h
    rw [OpCode.withCounts.eq_def] at h
    split at h <;> cases h <;> simp [Instruction.op, Instruction.operands, bytes32_u32]
  · rintro ⟨rfl, rest, rfl⟩
    cases i <;>
      simp only [Instruction.op, Instruction.operands, bytes32, OpCode.withCounts,
        List.cons_append, List.nil_append, u32_bytes32, UInt32.ofNat_toNat]

/-- An instruction is read where its header stands. -/
lemma readInstruction_eq_some {bytes : List UInt8} {i : Instruction} :
    readInstruction bytes = some i ↔ i.header <+: bytes := by
  cases bytes with
  | nil => simp [readInstruction, Instruction.header]
  | cons op args =>
      simp only [readInstruction, Option.bind_eq_some_iff, withCounts_eq_some, Instruction.header,
        List.cons_prefix_cons, ofByte_eq_some_iff]
      constructor
      · rintro ⟨c, rfl, rfl, hargs⟩
        exact ⟨rfl, hargs⟩
      · rintro ⟨rfl, hargs⟩
        exact ⟨i.op, rfl, rfl, hargs⟩

lemma execStep_eq_ok {program : List UInt8} {x y : Execution R} :
    execStep program x = .ok y
      ↔ ∃ i : Instruction, i.header <+: program.drop x.pc
        ∧ i.exec (fun k => (literalAt program (x.pc + i.header.length + 8 * k) : R)) x.values
          = some y.values
        ∧ y.asserted = x.asserted ++ i.asserts x.values
        ∧ y.pc = x.pc + grammarSize program x.pc ∧ y.pc ≤ program.length := by
  rw [execStep]
  constructor
  · intro h
    split at h
    · simp at h
    next i hread =>
      split_ifs at h with hpc
      split at h
      · simp at h
      next values hvalues =>
        obtain rfl := Except.ok.inj h
        exact ⟨i, readInstruction_eq_some.mp hread, hvalues, rfl, rfl, not_lt.mp hpc⟩
  · rintro ⟨i, hpre, hvalues, hasserted, hpc, hle⟩
    rw [hpc] at hle
    simp only [readInstruction_eq_some.mpr hpre, hvalues]
    rw [if_neg (not_lt.mpr hle), ← hasserted, ← hpc]

lemma grammarSize_pos (program : List UInt8) (pc : ℕ) : 0 < grammarSize program pc := by
  rw [grammarSize, sizeWith]
  split <;> omega

lemma literal_le_grammarSize (program : List UInt8) (pc : ℕ) :
    8 * literalCount program pc ≤ grammarSize program pc := by
  rw [grammarSize, sizeWith]
  split
  · next hop =>
      rw [literalCount, hop]
      exact Nat.zero_le 9
  · exact Nat.le_add_left _ 5
  · exact Nat.le_add_left _ 9
  · next hvector hmatrix =>
      rw [literalCount]
      split
      · next hop => exact absurd hop hvector
      · next hop => exact absurd hop hmatrix
      · simp

/-- The run of a program on values. -/
def execution (R : Type*) [Ring R] (program : List UInt8) : Loop (Execution R) Unit where
  cond x := decide (x.pc < program.length ∧ program[x.pc]? ≠ some opHalt)
  body := execStep program
  measure x := program.length - x.pc
  decreases := by
    intro x y _ h
    obtain ⟨i, -, -, -, hpc, hle⟩ := execStep_eq_ok.mp h
    have hpos := grammarSize_pos program x.pc
    omega

/-- What `infer_instruction` counts as the grammar does: an opcode with its counts in the first
million bytes, and a literal of less than `2 ^ 32` bytes. The `2 ^ 29` numbers behind the bytes
`02 00 00 00 20` are counted as none. -/
structure Counted (program : List UInt8) (pc : ℕ) : Prop where
  header : ∀ i : Instruction, i.header <+: program.drop pc → pc + i.header.length ≤ 1000000
  literal : 8 * literalCount program pc < 2 ^ 32

/-- A state of an inference and one of a run on values that it describes. -/
structure Describes (s : InferState) (x : Execution R) : Prop where
  stack : s.stack = types x.values
  pc : s.pc = x.pc
  count : s.obls.count = x.asserted.length
  numbered : Numbered s

variable {mem : Memory} {program : List UInt8}

lemma Describes.cond {s : InferState} {x : Execution R} (h : Describes s x) :
    (execution R program).cond x = (inferLoop mem program).cond s := by
  simp only [execution, inferLoop, h.pc]

/-- Two headers at one place are those of one instruction. -/
lemma header_unique {i j : Instruction} {bytes : List UInt8} (hi : i.header <+: bytes)
    (hj : j.header <+: bytes) : i = j :=
  Option.some.inj ((readInstruction_eq_some.mpr hi).symm.trans (readInstruction_eq_some.mpr hj))

/-- An instruction adds as many obligations as it asserts matrices. -/
lemma Describes.count_eq {s t : InferState} {x : Execution R} (h : Describes s x)
    {data : ℕ → R} {i : Instruction} {values : List (Value R)}
    (hexec : i.exec data x.values = some values)
    (hobls : i.oblige mem s.pc t.pc s.obls = .ok t.obls) :
    t.obls.count = (x.asserted ++ i.asserts x.values).length := by
  have hids := congrArg List.length (oblige_ids hobls).1
  rw [List.length_append, length_ids, length_ids, h.count] at hids
  rw [List.length_append, length_asserts hexec, hids]
  split_ifs <;> rfl

/-- What one pass of the inference does, the run follows, unless a literal is miscounted. -/
lemma Describes.pass {s t : InferState} {x : Execution R} (h : Describes s x)
    (hliteral : 8 * literalCount program s.pc < 2 ^ 32) (hp : (inferLoop mem program).Pass s t) :
    ∃ y, (execution R program).Pass x y ∧ Counted program x.pc ∧ Describes t y := by
  obtain ⟨i, hdec, hstack, hobls, hle⟩ := inferStep_eq_ok.mp hp.2
  obtain ⟨hlim, hpre, hpc⟩ := decode_sound hdec
  have hsize : t.pc = s.pc + grammarSize program s.pc := by
    rw [grammarSize_eq_countedSize_iff.mpr hliteral, countedSize_eq hpre, hpc]
  rw [h.stack] at hstack
  rw [h.pc] at hpre hsize hlim hliteral
  have htypes := exec_types
    (fun k => (literalAt program (x.pc + i.header.length + 8 * k) : R)) i x.values
  rw [hstack] at htypes
  obtain ⟨values, hexec, hvalues⟩ := Option.map_eq_some_iff.mp htypes
  refine ⟨⟨values, t.pc, x.asserted ++ i.asserts x.values⟩, ⟨h.cond.trans hp.1, ?_⟩, ?_, ?_⟩
  · exact execStep_eq_ok.mpr ⟨i, hpre, hexec, rfl, hsize, hle⟩
  · exact ⟨fun j hj => header_unique hpre hj ▸ hlim, hliteral⟩
  · exact ⟨hvalues.symm, rfl, h.count_eq hexec hobls,
      numbered_of_oblige h.numbered hobls (decode_lt hdec)⟩

/-- What one pass of the run does, the inference follows where it counts as the grammar does. -/
lemma Describes.pass_infer (hmem : ∀ n, mem.items n = true) {s : InferState} {x y : Execution R}
    (h : Describes s x) (hcounted : Counted program x.pc) (hp : (execution R program).Pass x y) :
    ∃ t, (inferLoop mem program).Pass s t ∧ 8 * literalCount program s.pc < 2 ^ 32
      ∧ Describes t y := by
  obtain ⟨i, hpre, hexec, hasserted, hpc, hle⟩ := execStep_eq_ok.mp hp.2
  have hlim := hcounted.header i hpre
  have hsize : y.pc = x.pc + i.size := by
    rw [hpc, grammarSize_eq_countedSize_iff.mpr hcounted.literal, countedSize_eq hpre]
  have htypes := exec_types
    (fun k => (literalAt program (x.pc + i.header.length + 8 * k) : R)) i x.values
  rw [hexec, ← h.stack] at htypes
  have hstack : i.infer s.stack = .ok (types y.values) := by
    cases hi : i.infer s.stack with
    | error msg => simp [hi, Except.toOption] at htypes
    | ok stack => simpa [hi, Except.toOption] using htypes.symm
  have hdec := decode_complete hlim hpre
  rw [← hsize, ← h.pc] at hdec
  have hheader := length_header i
  have hpclim : s.pc < 1000000 := by
    rw [h.pc]
    omega
  obtain ⟨obls, hobls⟩ := oblige_eq_ok hmem h.numbered hpclim i y.pc
  refine ⟨⟨types y.values, y.pc, obls⟩, ⟨h.cond.symm.trans hp.1, ?_⟩, h.pc ▸ hcounted.literal, ?_⟩
  · exact inferStep_eq_ok.mpr ⟨i, hdec, hstack, hobls, hle⟩
  · refine ⟨rfl, rfl, ?_, numbered_of_oblige h.numbered hobls (decode_lt hdec)⟩
    rw [hasserted]
    exact h.count_eq (t := ⟨types y.values, y.pc, obls⟩) hexec hobls

/-- In a program of at most a million bytes, a run that ends meets nothing that is miscounted. -/
lemma counted_of_run (hlen : program.length ≤ 1000000) {x y : Execution R}
    (hrun : (execution R program).run x = .ok y) :
    ∀ u ∈ (execution R program).trace x, Counted program u.pc := by
  intro u hu
  obtain ⟨v, hp⟩ := Loop.exists_pass_of_mem_trace hrun hu
  obtain ⟨i, hpre, -, -, hpc, hle⟩ := execStep_eq_ok.mp hp.2
  have hshort := hpre.length_le
  have hpos := length_header i
  rw [List.length_drop] at hshort
  refine ⟨fun j hj => ?_, ?_⟩
  · rw [header_unique hj hpre]
    omega
  · have hliteral := literal_le_grammarSize program u.pc
    omega

/-! ### What an accepted program does -/

/-- The result an inference has for a run that ends: the types of the values, and one
obligation for every matrix asserted, numbered from 0. -/
def Execution.inferred (x : Execution R) : InferResult where
  finalStack := some (types x.values)
  numObligations := x.asserted.length
  obligationIds :=
    if x.asserted = [] then none
    else some ((List.range x.asserted.length).map UInt32.ofNat)
  errorMsg := none

omit [Ring R] in
lemma Describes.capture_eq {t : InferState} {x : Execution R} (h : Describes t x)
    (hids : t.obls.ids.map UInt32.toNat = List.range t.obls.count) :
    capture .unlimited t = x.inferred := by
  have hnums : t.obls.ids = (List.range x.asserted.length).map UInt32.ofNat := by
    rw [← h.count, ← hids, List.map_map]
    exact (List.map_id _).symm.trans (List.map_congr_left fun k _ => (UInt32.ofNat_toNat).symm)
  have hpos : t.obls.count > 0 ↔ x.asserted ≠ [] := by
    rw [h.count, gt_iff_lt, List.length_pos_iff]
  by_cases hnil : x.asserted = []
  · rw [capture, Execution.inferred, if_neg (by simp [hpos, hnil]), if_pos hnil, h.stack, h.count]
  · rw [capture, Execution.inferred, if_pos ⟨hpos.mpr hnil, rfl⟩, if_neg hnil, h.stack, h.count,
      hnums]

/-- The inference is sound and complete for runs, whatever the ring and the numbers on the
stack: a program is accepted on the types of some values, with no literal of `2 ^ 32` bytes
inferred, exactly when it runs to its end on the values through instructions that are counted as
the grammar does, and the result tells the types of what the run leaves, and numbers the square
matrices it has taken to be invertible. -/
theorem sov_infer_program_sound (program : List UInt8) (values : List (Value R))
    (r : InferResult) :
    (Accepts .unlimited program (types values) r
        ∧ ∀ s ∈ executed .unlimited (some program) (some (types values)),
          8 * literalCount program s.pc < 2 ^ 32)
      ↔ program ≠ [] ∧ values.length ≤ 256
        ∧ ∃ x, (execution R program).run ⟨values, 0, []⟩ = .ok x ∧ x.inferred = r
          ∧ ∀ y ∈ (execution R program).trace ⟨values, 0, []⟩, Counted program y.pc := by
  have hstart : Describes (start (types values)) (⟨values, 0, []⟩ : Execution R) :=
    ⟨rfl, rfl, rfl, rfl, le_rfl⟩
  constructor
  · rintro ⟨haccepts, hliteral⟩
    obtain ⟨hstarted, t, hrun, hr⟩ := accepts_iff.mp haccepts
    rw [executed_of_started hstarted] at hliteral
    obtain ⟨x, hx, htx, hcounted⟩ := Loop.run_simulation (M := execution R program)
      (fun s x hsx hc => hsx.cond.trans hc)
      (fun s t x hsx hp hs => hsx.pass hs hp) hrun hliteral hstart
    have hids := (reaches_sequential (Loop.run_eq_ok_iff.mp hrun).1).ids
    exact ⟨hstarted.program, by simpa using hstarted.depth, x, hx,
      (htx.capture_eq hids).symm.trans hr, hcounted⟩
  · rintro ⟨hprogram, hdepth, x, hrun, hr, hcounted⟩
    have hstarted : Started .unlimited program (types values) :=
      started_unlimited hprogram (by simpa using hdepth)
    obtain ⟨t, ht, htx, hliteral⟩ := Loop.run_simulation
      (M := inferLoop InferMemory.unlimited.toMemory program) (R := fun x s => Describes s x)
      (fun x s hsx hc => hsx.cond.symm.trans hc)
      (fun x y s hsx hp hx => hsx.pass_infer (fun _ => rfl) hx hp) hrun hcounted hstart
    have hids := (reaches_sequential (Loop.run_eq_ok_iff.mp ht).1).ids
    rw [executed_of_started hstarted]
    exact ⟨accepts_iff.mpr ⟨hstarted, t, ht, (htx.capture_eq hids).trans hr⟩, hliteral⟩

end Typecheck

end SovereignBus
