import SovereignBus.Library.Loop
import SovereignBus.Typecheck.Instruction

/-!
What `infer_instruction` of `src/typecheck/sov_types.c` reads of a program.

* `Instruction.header`, `Instruction.size`: the bytes an instruction is read
  from, and how far it leads.
* `decode_eq_ok_iff`: an instruction is read where its header stands, and leads
  forward (`decode_lt`).
* `decode_eq_fault`, `decode_of_cut`: a read leaves the program where the end cuts
  off the operands of an opcode.
-/

namespace SovereignBus

namespace Typecheck

/-! ### Reads inside of the program -/

lemma ofByte_eq_some_iff {op : UInt8} {c : OpCode} : OpCode.ofByte op = some c ↔ op = c.byte := by
  constructor
  · intro h
    have hbyte := List.find?_some (p := fun c : OpCode => decide (c.byte = op)) h
    exact (of_decide_eq_true hbyte).symm
  · rintro rfl
    cases c <;> rfl

/-- The opcode of an instruction. -/
def Instruction.op : Instruction → OpCode
  | .pushScalar => .pushScalar
  | .pushVector _ => .pushVector
  | .pushMatrix _ _ => .pushMatrix
  | .dup => .dup
  | .swap => .swap
  | .pop => .pop
  | .add => .add
  | .sub => .sub
  | .matmul => .matmul
  | .verifyInv => .verifyInv
  | .halt => .halt

/-- The four bytes of a little-endian number. -/
def bytes32 (n : UInt32) : List UInt8 :=
  [UInt8.ofNat n.toNat, UInt8.ofNat (n.toNat / 2 ^ 8), UInt8.ofNat (n.toNat / 2 ^ 16),
    UInt8.ofNat (n.toNat / 2 ^ 24)]

/-- The operands `infer_instruction` reads. -/
def Instruction.operands : Instruction → List UInt8
  | .pushVector n => bytes32 n
  | .pushMatrix m n => bytes32 m ++ bytes32 n
  | _ => []

/-- The bytes `infer_instruction` reads for an instruction. -/
def Instruction.header (i : Instruction) : List UInt8 := i.op.byte :: i.operands

/-- How far an instruction leads: its literal is counted in 32 bits. -/
def Instruction.size : Instruction → ℕ
  | .pushScalar => 9
  | .pushVector n => 5 + (n * 8).toNat
  | .pushMatrix m n => 9 + (m * n * 8).toNat
  | _ => 1

lemma fetch_eq_ok_iff {program : List UInt8} {i : ℕ} {b : UInt8} :
    fetch program i = .ok b ↔ program[i]? = some b := by
  rw [fetch]
  split <;> simp_all

lemma u32_lt (b0 b1 b2 b3 : UInt8) : u32 b0 b1 b2 b3 < 2 ^ 32 := by
  have h0 := b0.toNat_lt
  have h1 := b1.toNat_lt
  have h2 := b2.toNat_lt
  have h3 := b3.toNat_lt
  rw [u32]
  omega

lemma bytes32_u32 (b0 b1 b2 b3 : UInt8) :
    bytes32 (UInt32.ofNat (u32 b0 b1 b2 b3)) = [b0, b1, b2, b3] := by
  have h0 := b0.toNat_lt
  have h1 := b1.toNat_lt
  have h2 := b2.toNat_lt
  have h3 := b3.toNat_lt
  have hn : (UInt32.ofNat (u32 b0 b1 b2 b3)).toNat = u32 b0 b1 b2 b3 :=
    UInt32.toNat_ofNat_of_lt' (u32_lt b0 b1 b2 b3)
  rw [bytes32, hn, u32]
  refine congrArg₂ _ ?_ (congrArg₂ _ ?_ (congrArg₂ _ ?_ (congrArg₂ _ ?_ rfl))) <;>
    · rw [← UInt8.toNat_inj, UInt8.toNat_ofNat']
      omega

lemma u32_bytes32 (n : UInt32) :
    u32 (UInt8.ofNat n.toNat) (UInt8.ofNat (n.toNat / 2 ^ 8)) (UInt8.ofNat (n.toNat / 2 ^ 16))
      (UInt8.ofNat (n.toNat / 2 ^ 24)) = n.toNat := by
  have hn := n.toNat_lt
  simp only [u32, UInt8.toNat_ofNat']
  omega

lemma cons_prefix_drop_iff {b : UInt8} {l program : List UInt8} {i : ℕ} :
    (b :: l) <+: program.drop i ↔ program[i]? = some b ∧ l <+: program.drop (i + 1) := by
  rw [← List.head?_drop, ← List.tail_drop]
  cases program.drop i <;> simp [List.cons_prefix_cons, eq_comm]

/-- A number is read where its bytes stand. -/
lemma fetch32_eq_ok_iff {program : List UInt8} {i : ℕ} {n : UInt32} :
    fetch32 program i = .ok n ↔ bytes32 n <+: program.drop i := by
  simp only [fetch32, Except.bind_eq_ok, fetch_eq_ok_iff]
  constructor
  · rintro ⟨b0, h0, b1, h1, b2, h2, b3, h3, h⟩
    obtain rfl := Except.ok.inj h
    rw [bytes32_u32]
    simp only [cons_prefix_drop_iff]
    exact ⟨h0, h1, h2, h3, List.nil_prefix⟩
  · intro h
    simp only [bytes32, cons_prefix_drop_iff] at h
    obtain ⟨h0, h1, h2, h3, -⟩ := h
    refine ⟨_, h0, _, h1, _, h2, _, h3, ?_⟩
    rw [u32_bytes32, UInt32.ofNat_toNat]
    rfl

lemma header_prefix_iff {i : Instruction} {program : List UInt8} {pc : ℕ} :
    i.header <+: program.drop pc
      ↔ program[pc]? = some i.op.byte ∧ i.operands <+: program.drop (pc + 1) :=
  cons_prefix_drop_iff

lemma append_prefix_drop_iff {l l' program : List UInt8} {i : ℕ} :
    (l ++ l') <+: program.drop i ↔ l <+: program.drop i ∧ l' <+: program.drop (i + l.length) := by
  induction l generalizing i with
  | nil => simp
  | cons b l ih =>
      rw [List.cons_append, cons_prefix_drop_iff, cons_prefix_drop_iff, ih, and_assoc,
        List.length_cons, Nat.add_right_comm, Nat.add_assoc]

/-- No sum of `infer_instruction` wraps in 64 bits. -/
lemma size_mod {pc : ℕ} (hpc : pc < 1000000) (i : Instruction) :
    (pc + i.size) % 2 ^ 64 = pc + i.size := by
  refine Nat.mod_eq_of_lt ?_
  cases i with
  | pushVector n =>
      have hn := (n * 8).toNat_lt
      rw [Instruction.size]
      omega
  | pushMatrix m n =>
      have hn := (m * n * 8).toNat_lt
      rw [Instruction.size]
      omega
  | _ =>
      simp only [Instruction.size]
      omega

lemma pushVector_next {pc : ℕ} (hpc : pc < 1000000) (n : UInt32) :
    (pc + 5 + (n * 8).toNat) % 2 ^ 64 = pc + (Instruction.pushVector n).size := by
  rw [Nat.add_assoc]
  exact size_mod hpc (.pushVector n)

lemma pushMatrix_next {pc : ℕ} (hpc : pc < 1000000) (m n : UInt32) :
    (pc + 9 + (m * n * 8).toNat) % 2 ^ 64 = pc + (Instruction.pushMatrix m n).size := by
  rw [Nat.add_assoc]
  exact size_mod hpc (.pushMatrix m n)

lemma length_header (i : Instruction) : i.header.length = i.operands.length + 1 := rfl

/-- The case of the opcode a byte stands for. -/
lemma decode_eq_read {program : List UInt8} {pc : ℕ} {c : OpCode} (hpc : pc < 1000000)
    (hop : program[pc]? = some c.byte) : decode program pc = c.read program pc := by
  rw [decode, if_neg (by omega), fetch_eq_ok_iff.mpr hop]
  simp only [bind, Except.bind, ofByte_eq_some_iff.mpr rfl]

/-- What is read is read for the opcode of a byte of the program. -/
lemma decode_eq_ok {program : List UInt8} {pc : ℕ} {r : Instruction × ℕ}
    (h : decode program pc = .ok r) :
    pc < 1000000 ∧ ∃ c : OpCode, program[pc]? = some c.byte ∧ c.read program pc = .ok r := by
  by_cases hpc : pc ≥ 1000000
  · simp [decode, hpc] at h
  rw [decode, if_neg hpc] at h
  obtain ⟨op, hop, h⟩ := Except.bind_eq_ok.mp h
  cases hc : OpCode.ofByte op with
  | none => simp [hc] at h
  | some c =>
      obtain rfl := ofByte_eq_some_iff.mp hc
      exact ⟨not_le.mp hpc, c, fetch_eq_ok_iff.mp hop, by simpa only [hc] using h⟩

/-- An instruction that is read stands in the program. -/
lemma decode_sound {program : List UInt8} {pc out : ℕ} {i : Instruction}
    (h : decode program pc = .ok (i, out)) :
    pc + i.header.length ≤ 1000000 ∧ i.header <+: program.drop pc ∧ out = pc + i.size := by
  obtain ⟨hpc, c, hop, h⟩ := decode_eq_ok h
  cases c with
  | pushVector =>
      rw [OpCode.read] at h
      split_ifs at h with hmal
      obtain ⟨n, hn, h⟩ := Except.bind_eq_ok.mp h
      obtain ⟨rfl, rfl⟩ := Prod.mk.inj (Except.ok.inj h)
      have hlen : (Instruction.pushVector n).header.length = 5 := rfl
      exact ⟨by omega, header_prefix_iff.mpr ⟨hop, fetch32_eq_ok_iff.mp hn⟩, pushVector_next hpc n⟩
  | pushMatrix =>
      rw [OpCode.read] at h
      split_ifs at h with hmal
      obtain ⟨m, hm, h⟩ := Except.bind_eq_ok.mp h
      obtain ⟨n, hn, h⟩ := Except.bind_eq_ok.mp h
      obtain ⟨rfl, rfl⟩ := Prod.mk.inj (Except.ok.inj h)
      have hlen : (Instruction.pushMatrix m n).header.length = 9 := rfl
      have hargs := append_prefix_drop_iff.mpr
        ⟨fetch32_eq_ok_iff.mp hm, fetch32_eq_ok_iff.mp hn⟩
      exact ⟨by omega, header_prefix_iff.mpr ⟨hop, hargs⟩, pushMatrix_next hpc m n⟩
  | verifySol => simp [OpCode.read] at h
  | verifyLstsq => simp [OpCode.read] at h
  | _ =>
      obtain ⟨rfl, rfl⟩ := Prod.mk.inj (Except.ok.inj h)
      refine ⟨?_, header_prefix_iff.mpr ⟨hop, List.nil_prefix⟩, ?_⟩
      · simp only [length_header, Instruction.operands, List.length_nil]
        omega
      · simp only [Instruction.size]
        omega

/-- An instruction that stands in the program is read. -/
lemma decode_complete {program : List UInt8} {pc : ℕ} {i : Instruction}
    (hle : pc + i.header.length ≤ 1000000) (hpre : i.header <+: program.drop pc) :
    decode program pc = .ok (i, pc + i.size) := by
  have hpc : pc < 1000000 := by
    rw [length_header] at hle
    omega
  obtain ⟨hop, hargs⟩ := header_prefix_iff.mp hpre
  rw [decode_eq_read hpc hop]
  cases i with
  | pushVector n =>
      have hlen : (Instruction.pushVector n).header.length = 5 := rfl
      rw [Instruction.op, OpCode.read, if_neg (by omega)]
      exact Except.bind_eq_ok.mpr ⟨n, fetch32_eq_ok_iff.mpr hargs, by rw [pushVector_next hpc]⟩
  | pushMatrix m n =>
      have hlen : (Instruction.pushMatrix m n).header.length = 9 := rfl
      obtain ⟨hm, hn⟩ := append_prefix_drop_iff.mp hargs
      rw [Instruction.op, OpCode.read, if_neg (by omega)]
      exact Except.bind_eq_ok.mpr ⟨m, fetch32_eq_ok_iff.mpr hm,
        Except.bind_eq_ok.mpr ⟨n, fetch32_eq_ok_iff.mpr hn, by rw [pushMatrix_next hpc]⟩⟩
  | _ =>
      rw [← size_mod hpc]
      rfl

/-- What is read where: the bytes of the instruction stand at the program
counter, and the next one is its size ahead. -/
theorem decode_eq_ok_iff {program : List UInt8} {pc out : ℕ} {i : Instruction} :
    decode program pc = .ok (i, out)
      ↔ pc + i.header.length ≤ 1000000 ∧ i.header <+: program.drop pc ∧ out = pc + i.size := by
  refine ⟨decode_sound, ?_⟩
  rintro ⟨hle, hpre, rfl⟩
  exact decode_complete hle hpre

/-- Every instruction leads forward. -/
lemma size_pos (i : Instruction) : 0 < i.size := by
  cases i <;> simp [Instruction.size]

lemma decode_lt {program : List UInt8} {pc out : ℕ} {i : Instruction}
    (h : decode program pc = .ok (i, out)) : pc < out := by
  obtain ⟨-, -, rfl⟩ := decode_sound h
  have hsize := size_pos i
  omega

/-! ### Reads outside of the program -/

/-- How many bytes `infer_instruction` reads for an opcode. -/
def OpCode.reads : OpCode → ℕ
  | .pushVector => 5
  | .pushMatrix => 9
  | _ => 1

lemma header_length (i : Instruction) : i.header.length = i.op.reads := by
  cases i <;> rfl

lemma fetch_eq_error {program : List UInt8} {i : ℕ} {e : Stop} :
    fetch program i = .error e ↔ program.length ≤ i ∧ e = .fault i := by
  rw [fetch]
  cases h : program[i]? with
  | none =>
      have hle := List.getElem?_eq_none_iff.mp h
      simp [hle, eq_comm]
  | some b =>
      obtain ⟨hlt, -⟩ := List.getElem?_eq_some_iff.mp h
      simp
      omega

lemma fetch32_eq_error {program : List UInt8} {i : ℕ} {e : Stop}
    (h : fetch32 program i = .error e) :
    program.length < i + 4 ∧ ∃ j, program.length ≤ j ∧ e = .fault j := by
  simp only [fetch32, Except.bind_eq_error, fetch_eq_error] at h
  rcases h with h | ⟨_, -, h | ⟨_, -, h | ⟨_, -, h | ⟨_, -, h⟩⟩⟩⟩
  · exact ⟨by omega, _, h⟩
  · exact ⟨by omega, _, h⟩
  · exact ⟨by omega, _, h⟩
  · exact ⟨by omega, _, h⟩
  · simp [pure, Except.pure] at h

/-- A number that is cut off by the end of the program is not read. -/
lemma fetch32_of_lt {program : List UInt8} {i : ℕ} (h : program.length < i + 4) :
    ∃ j, fetch32 program i = .error (.fault j) := by
  cases hf : fetch32 program i with
  | error e =>
      obtain ⟨-, j, -, rfl⟩ := fetch32_eq_error hf
      exact ⟨j, rfl⟩
  | ok n =>
      have hle := (fetch32_eq_ok_iff.mp hf).length_le
      simp only [bytes32, List.length_cons, List.length_nil, List.length_drop] at hle
      omega

lemma fetch32_of_le {program : List UInt8} {i : ℕ} (h : i + 4 ≤ program.length) :
    ∃ n, fetch32 program i = .ok n := by
  cases hf : fetch32 program i with
  | ok n => exact ⟨n, rfl⟩
  | error e =>
      have hlt := (fetch32_eq_error hf).1
      omega

lemma read_eq_fault {program : List UInt8} {pc j : ℕ} {c : OpCode} (hpc : pc < 1000000)
    (h : c.read program pc = .error (.fault j)) :
    program.length ≤ j ∧ pc + c.reads ≤ 1000000 ∧ program.length < pc + c.reads := by
  cases c with
  | pushVector =>
      rw [OpCode.read] at h
      split_ifs at h with hmal
      · simp at h
      rcases Except.bind_eq_error.mp h with h | ⟨_, -, h⟩
      · obtain ⟨hlt, _, hle, he⟩ := fetch32_eq_error h
        obtain rfl := Stop.fault.inj he
        simp only [OpCode.reads]
        omega
      · simp at h
  | pushMatrix =>
      rw [OpCode.read] at h
      split_ifs at h with hmal
      · simp at h
      rcases Except.bind_eq_error.mp h with h | ⟨_, -, h⟩
      · obtain ⟨hlt, _, hle, he⟩ := fetch32_eq_error h
        obtain rfl := Stop.fault.inj he
        simp only [OpCode.reads]
        omega
      rcases Except.bind_eq_error.mp h with h | ⟨_, -, h⟩
      · obtain ⟨hlt, _, hle, he⟩ := fetch32_eq_error h
        obtain rfl := Stop.fault.inj he
        simp only [OpCode.reads]
        omega
      · simp at h
  | _ => simp [OpCode.read, unknownOpcode] at h

/-- A read that leaves the program is one of operands the end of the program
cuts off. -/
lemma decode_eq_fault {program : List UInt8} {pc j : ℕ} (hpc : pc < program.length)
    (h : decode program pc = .error (.fault j)) :
    program.length ≤ j ∧ ∃ c : OpCode, program[pc]? = some c.byte ∧ pc + c.reads ≤ 1000000
      ∧ program.length < pc + c.reads := by
  rw [decode] at h
  split_ifs at h with hlim
  · simp at h
  rcases Except.bind_eq_error.mp h with h | ⟨op, hop, h⟩
  · have hle := (fetch_eq_error.mp h).1
    omega
  cases hc : OpCode.ofByte op with
  | none => simp [hc, unknownOpcode] at h
  | some c =>
      obtain rfl := ofByte_eq_some_iff.mp hc
      simp only [hc] at h
      obtain ⟨hj, hcut⟩ := read_eq_fault (not_le.mp hlim) h
      exact ⟨hj, c, fetch_eq_ok_iff.mp hop, hcut⟩

/-- Operands that are cut off are read outside of the program. -/
lemma decode_of_cut {program : List UInt8} {pc : ℕ} {c : OpCode} (hpc : pc < program.length)
    (hop : program[pc]? = some c.byte) (hlim : pc + c.reads ≤ 1000000)
    (hcut : program.length < pc + c.reads) : ∃ j, decode program pc = .error (.fault j) := by
  cases c with
  | pushVector =>
      simp only [OpCode.reads] at hlim hcut
      obtain ⟨j, hj⟩ : ∃ j, fetch32 program (pc + 1) = .error (.fault j) := fetch32_of_lt (by omega)
      rw [decode_eq_read (by omega) hop, OpCode.read, if_neg (by omega)]
      exact ⟨j, Except.bind_eq_error.mpr (.inl hj)⟩
  | pushMatrix =>
      simp only [OpCode.reads] at hlim hcut
      obtain ⟨j, hj⟩ : ∃ j, fetch32 program (pc + 5) = .error (.fault j) := fetch32_of_lt (by omega)
      rw [decode_eq_read (by omega) hop, OpCode.read, if_neg (by omega)]
      cases hm : fetch32 program (pc + 1) with
      | error e =>
          obtain ⟨-, k, -, rfl⟩ := fetch32_eq_error hm
          exact ⟨k, rfl⟩
      | ok m =>
          exact ⟨j, Except.bind_eq_error.mpr (.inr ⟨m, rfl, Except.bind_eq_error.mpr (.inl hj)⟩)⟩
  | _ =>
      simp only [OpCode.reads] at hcut
      omega

end Typecheck

end SovereignBus
