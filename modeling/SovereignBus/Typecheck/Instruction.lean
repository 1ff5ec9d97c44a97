import SovereignBus.Obligations.Store

/-!
The instructions of the stack programs of `src/typecheck/sov_types.c`.

* `Stack`, `StackValue`: types and shapes. The head of a list is the top of the
  stack.
* `decode`, `Instruction.infer`, `Instruction.oblige`: what `infer_instruction`
  reads, what it does to the stack, and what it adds to the obligations. Every
  read of a program byte goes through `fetch`, which faults behind the end.
-/

namespace SovereignBus

namespace Typecheck

open Obligations

/-! ### Stacks -/

inductive ValType where
  | scalar
  | vector
  | matrix
  | proof
  deriving DecidableEq

structure Shape where
  rows : ℕ
  cols : ℕ
  deriving DecidableEq

structure StackValue where
  type : ValType
  shape : Shape
  deriving DecidableEq

/-- The values of a stack, the top first. -/
abbrev Stack := List StackValue

/-- `sov_stack_push`; a stack has room for 256 values. -/
def sovStackPush (stack : Stack) (type : ValType) (rows cols : ℕ) : Option Stack :=
  if stack.length ≥ 256 then none else some (⟨type, ⟨rows, cols⟩⟩ :: stack)

/-- `sov_stack_peek`. -/
def sovStackPeek (stack : Stack) : Option StackValue := stack.head?

/-- `sov_shape_unify`. -/
def sovShapeUnify (s1 s2 : Shape) : Bool := s1.rows == s2.rows && s1.cols == s2.cols

/-! ### Instructions -/

inductive OpCode where
  | pushScalar
  | pushVector
  | pushMatrix
  | dup
  | swap
  | pop
  | add
  | sub
  | matmul
  | verifyInv
  | verifySol
  | verifyLstsq
  | halt
  deriving DecidableEq

/-- `OP_HALT`. -/
def opHalt : UInt8 := 0xFF

/-- The values of the enumeration. -/
def OpCode.byte : OpCode → UInt8
  | .pushScalar => 0x01
  | .pushVector => 0x02
  | .pushMatrix => 0x03
  | .dup => 0x04
  | .swap => 0x05
  | .pop => 0x06
  | .add => 0x07
  | .sub => 0x08
  | .matmul => 0x09
  | .verifyInv => 0x0A
  | .verifySol => 0x0B
  | .verifyLstsq => 0x0C
  | .halt => opHalt

/-- The opcode of a byte. -/
def OpCode.ofByte (op : UInt8) : Option OpCode :=
  [.pushScalar, .pushVector, .pushMatrix, .dup, .swap, .pop, .add, .sub, .matmul, .verifyInv,
    .verifySol, .verifyLstsq, .halt].find? fun c => OpCode.byte c = op

/-- An opcode `infer_instruction` has a case for, with the operands it reads. -/
inductive Instruction where
  | pushScalar
  | pushVector (n : UInt32)
  | pushMatrix (m n : UInt32)
  | dup
  | swap
  | pop
  | add
  | sub
  | matmul
  | verifyInv
  | halt
  deriving DecidableEq

/-- Why an inference stops: it reports an error, or it reads a byte outside of
the program. -/
inductive Stop where
  | error (msg : String)
  | fault (index : ℕ)
  deriving DecidableEq

/-- `program[i]`. -/
def fetch (program : List UInt8) (i : ℕ) : Except Stop UInt8 :=
  match program[i]? with
  | some b => .ok b
  | none => .error (.fault i)

/-- Four bytes as a little-endian number. -/
def u32 (b0 b1 b2 b3 : UInt8) : ℕ :=
  b0.toNat + 2 ^ 8 * b1.toNat + 2 ^ 16 * b2.toNat + 2 ^ 24 * b3.toNat

/-- `*(uint32_t *)(program + i)`. -/
def fetch32 (program : List UInt8) (i : ℕ) : Except Stop UInt32 := do
  let b0 ← fetch program i
  let b1 ← fetch program (i + 1)
  let b2 ← fetch program (i + 2)
  let b3 ← fetch program (i + 3)
  return UInt32.ofNat (u32 b0 b1 b2 b3)

/-- `%02x`. -/
def hex (b : UInt8) : String :=
  String.ofList [Nat.digitChar (b.toNat / 16), Nat.digitChar (b.toNat % 16)]

/-- The error of the default case. -/
def unknownOpcode (op : UInt8) (pc : ℕ) : Stop :=
  .error ("Unknown opcode: 0x" ++ hex op ++ " at pc=" ++ toString pc)

/-- What the case of an opcode reads: the instruction, and `*out_pc`. -/
def OpCode.read (program : List UInt8) (pc : ℕ) : OpCode → Except Stop (Instruction × ℕ)
  | .pushScalar => .ok (.pushScalar, (pc + 9) % 2 ^ 64)
  | .pushVector =>
      if (pc + 5) % 2 ^ 64 > 1000000 then .error (.error "PUSH_VECTOR: malformed opcode")
      else do
        let n ← fetch32 program (pc + 1)
        .ok (.pushVector n, (pc + 5 + (n * 8).toNat) % 2 ^ 64)
  | .pushMatrix =>
      if (pc + 9) % 2 ^ 64 > 1000000 then .error (.error "PUSH_MATRIX: malformed opcode")
      else do
        let m ← fetch32 program (pc + 1)
        let n ← fetch32 program (pc + 5)
        .ok (.pushMatrix m n, (pc + 9 + (m * n * 8).toNat) % 2 ^ 64)
  | .dup => .ok (.dup, (pc + 1) % 2 ^ 64)
  | .swap => .ok (.swap, (pc + 1) % 2 ^ 64)
  | .pop => .ok (.pop, (pc + 1) % 2 ^ 64)
  | .add => .ok (.add, (pc + 1) % 2 ^ 64)
  | .sub => .ok (.sub, (pc + 1) % 2 ^ 64)
  | .matmul => .ok (.matmul, (pc + 1) % 2 ^ 64)
  | .verifyInv => .ok (.verifyInv, (pc + 1) % 2 ^ 64)
  -- the enumeration names these two, but the switch has no case for them
  | .verifySol => .error (unknownOpcode OpCode.verifySol.byte pc)
  | .verifyLstsq => .error (unknownOpcode OpCode.verifyLstsq.byte pc)
  | .halt => .ok (.halt, (pc + 1) % 2 ^ 64)

/-- The part of `infer_instruction` that looks at the program. -/
def decode (program : List UInt8) (pc : ℕ) : Except Stop (Instruction × ℕ) :=
  if pc ≥ 1000000 then .error (.error "PC overflow")
  else do
    let op ← fetch program pc
    match OpCode.ofByte op with
    | some c => c.read program pc
    | none => .error (unknownOpcode op pc)

/-- A push, with the error of the opcode that fails to make it. -/
def push (name : String) (v : StackValue) (stack : Stack) : Except String Stack :=
  match sovStackPush stack v.type v.shape.rows v.shape.cols with
  | some stack => .ok stack
  | none => .error (name ++ ": stack overflow")

/-- `OP_ADD` and `OP_SUB`: two scalars, or two vectors of one shape. -/
def elementwise (depth : String) (shapes : Shape → Shape → String) (types : String) :
    Stack → Except String Stack
  | b :: a :: stack =>
      if a.type = .scalar ∧ b.type = .scalar then .ok (a :: stack)
      else if a.type = .vector ∧ b.type = .vector then
        if sovShapeUnify a.shape b.shape then .ok (a :: stack)
        else .error (shapes a.shape b.shape)
      else .error types
  | _ => .error depth

/-- The part of `infer_instruction` that looks at the stack. -/
def Instruction.infer : Instruction → Stack → Except String Stack
  | .pushScalar, stack => push "PUSH_SCALAR" ⟨.scalar, ⟨1, 1⟩⟩ stack
  | .pushVector n, stack => push "PUSH_VECTOR" ⟨.vector, ⟨1, n.toNat⟩⟩ stack
  | .pushMatrix m n, stack => push "PUSH_MATRIX" ⟨.matrix, ⟨m.toNat, n.toNat⟩⟩ stack
  | .dup, stack =>
      match sovStackPeek stack with
      | some top => push "DUP" top stack
      | none => .error "DUP: stack underflow"
  | .swap, b :: a :: stack => .ok (a :: b :: stack)
  | .swap, stack =>
      .error ("SWAP: insufficient stack depth (need 2, have " ++ toString stack.length ++ ")")
  | .pop, _ :: stack => .ok stack
  | .pop, [] => .error "POP: stack underflow"
  | .add, stack =>
      elementwise "ADD: insufficient stack depth"
        (fun a b => "ADD: vector shape mismatch [" ++ toString a.cols ++ "] vs ["
          ++ toString b.cols ++ "]")
        "ADD: type mismatch (need compatible scalars or vectors)" stack
  | .sub, stack =>
      elementwise "SUB: insufficient stack depth" (fun _ _ => "SUB: vector shape mismatch")
        "SUB: type mismatch" stack
  | .matmul, b :: a :: stack =>
      if a.type ≠ .matrix ∨ b.type ≠ .matrix then
        .error "MATMUL: both operands must be matrices"
      else if a.shape.cols ≠ b.shape.rows then
        .error ("MATMUL: inner dimension mismatch (" ++ toString a.shape.cols ++ " != "
          ++ toString b.shape.rows ++ ")")
      else .ok (⟨a.type, ⟨a.shape.rows, b.shape.cols⟩⟩ :: stack)
  | .matmul, _ => .error "MATMUL: insufficient stack depth"
  | .verifyInv, a :: stack =>
      if a.type ≠ .matrix ∨ a.shape.rows ≠ a.shape.cols then
        .error "VERIFY_INV: requires square matrix"
      else .ok stack
  | .verifyInv, [] => .error "VERIFY_INV: stack underflow"
  | .halt, stack => .ok stack

/-- The obligation `OP_VERIFY_INV` adds. -/
def Instruction.oblige (mem : Memory) (pc outPc : ℕ) (obls : ObligationSet) :
    Instruction → Except String ObligationSet
  | .verifyInv =>
      let r := sovObsetAddInv mem obls (UInt32.ofNat pc) (UInt32.ofNat outPc)
      if r.1 < 0 then .error "VERIFY_INV: obligation generation failed" else .ok r.2
  | _ => .ok obls

end Typecheck

end SovereignBus
