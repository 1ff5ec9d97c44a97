import SovereignBus.Lattice.Circuit

/-!
The circuit's two other implementations: `seb/kernel/ada/seb_lattice.adb`, on
the modular type `Byte`, and `seb/runtime/seb_convergence.mjs`, on JavaScript
numbers whose bit operations work on 32-bit words.

* `Ada.gf256Mul_eq`, `Js.gf256Mul_eq`: the multiplications agree with the one in
  C on all bytes. In JavaScript one pass of the loop simulates one pass in C
  (`Js.gf256Step_semiconj`), the words staying below 256.
* `lattice_circuits_agree`: the three circuits agree on every input, with the
  closed form of `seb/verification/vectors.md`.
-/

namespace SovereignBus

/-! ### The Ada body -/

namespace Ada

/-- One pass of the loop of `GF256_Mul` over `XX`, `YY` and `Z`, on a type of
arithmetic modulo 256. -/
def gf256Step : UInt8 × UInt8 × UInt8 → UInt8 × UInt8 × UInt8
  | (xx, yy, z) =>
      let z := if yy &&& 1 = 1 then z ^^^ xx else z
      let hi := xx &&& 0x80
      let xx := xx * 2
      let xx := if hi ≠ 0 then xx ^^^ 0x1B else xx
      (xx, yy / 2, z)

/-- `GF256_Mul`. -/
def gf256Mul (x y : UInt8) : UInt8 := (gf256Step^[8] (x, y, 0)).2.2

/-- The index `(K - I + 32) mod 32` on `Integer`s. -/
def convIndex (k i : Fin 32) : Fin 32 :=
  ⟨(((k : ℤ) - (i : ℤ) + 32) % 32).toNat, by omega⟩

/-- `Cyclic_Convolve`. -/
def cyclicConvolve (a b : Poly) : Poly := fun k =>
  (List.finRange 32).foldl (fun sum i => sum ^^^ gf256Mul (a i) (b (convIndex k i))) 0

/-- `Lattice_Commit`: the payload is split into `B` and `C` by two index
conversions. -/
def latticeCommit (prev : Poly) (data : Payload) : Poly :=
  let b : Poly := fun i => data (Fin.castLE (by omega) i)
  let c : Poly := fun i => data ⟨(i : ℕ) + 32, by omega⟩
  let t0 := cyclicConvolve K0 prev
  let t1 := cyclicConvolve K1 b
  let t2 := cyclicConvolve K2 c
  fun i => t0 i ^^^ t1 i ^^^ t2 i

lemma mul_two_eq_shift : ∀ x : UInt8, x * 2 = x <<< (1 : UInt8) := by decide +kernel

lemma div_two_eq_shift : ∀ y : UInt8, y / 2 = y >>> (1 : UInt8) := by decide +kernel

lemma low_bit_iff : ∀ y : UInt8, y &&& 1 = 1 ↔ y &&& 1 ≠ 0 := by decide +kernel

lemma gf256Step_eq : gf256Step = SovereignBus.gf256Step := by
  funext ⟨xx, yy, z⟩
  simp only [gf256Step, SovereignBus.gf256Step, mul_two_eq_shift, div_two_eq_shift, low_bit_iff]

lemma gf256Mul_eq : gf256Mul = SovereignBus.gf256Mul := by
  funext x y
  rw [gf256Mul, gf256Step_eq, SovereignBus.gf256Mul]

lemma convIndex_eq (k i : Fin 32) : convIndex k i = SovereignBus.convIndex k i := by
  rw [SovereignBus.convIndex_eq]
  ext
  simp only [convIndex, Fin.sub_def]
  omega

lemma cyclicConvolve_eq : cyclicConvolve = SovereignBus.cyclicConvolve := by
  funext a b k
  simp only [cyclicConvolve, SovereignBus.cyclicConvolve, gf256Mul_eq, convIndex_eq]

lemma latticeCommit_eq (prev : Poly) (data : Payload) :
    latticeCommit prev data = sebLatticeCommit prev data := by
  have hc : (fun i : Fin 32 => data ⟨(i : ℕ) + 32, by omega⟩) = Payload.upper data := by
    funext i
    rw [Payload.upper]
    congr 1
    ext
    simp
  simp only [latticeCommit, cyclicConvolve_eq, hc, sebLatticeCommit]
  rfl

end Ada

/-! ### The JavaScript module -/

namespace Js

/-- One pass of the loop of `gf256_mul`, on numbers read as 32-bit words. -/
def gf256Step : UInt32 × UInt32 × UInt32 → UInt32 × UInt32 × UInt32
  | (x, y, z) =>
      let z := if y &&& 1 ≠ 0 then z ^^^ x else z
      let hi := x &&& 0x80
      let x := (x <<< 1) &&& 0xFF
      let x := if hi ≠ 0 then x ^^^ 0x1B else x
      (x, y >>> 1, z)

/-- `gf256_mul`. -/
def gf256Mul (x y : UInt32) : UInt32 := (gf256Step^[8] (x, y, 0)).2.2

/-- The index `(k - i + 32) & 31`. -/
def convIndex (k i : Fin 32) : Fin 32 :=
  ⟨(BitVec.ofInt 32 ((k : ℤ) - (i : ℤ) + 32) &&& 31#32).toNat, by
    rw [BitVec.toNat_and]
    exact Nat.lt_succ_of_le Nat.and_le_right⟩

/-- `cyclic_convolve`: a buffer cell is read as a number and stored modulo
256. -/
def cyclicConvolve (a b : Poly) : Poly := fun k =>
  ((List.finRange 32).foldl (fun s i =>
    s ^^^ gf256Mul (a i).toUInt32 (b (convIndex k i)).toUInt32) 0).toUInt8

/-- `circuit`: the payload is cut by `slice(0, 32)` and `slice(32, 64)`. -/
def circuit (prev32 : Poly) (payload64 : Payload) : Poly :=
  let b := Payload.lower payload64
  let c := Payload.upper payload64
  let t0 := cyclicConvolve K0 prev32
  let t1 := cyclicConvolve K1 b
  let t2 := cyclicConvolve K2 c
  fun i => ((t0 i).toUInt32 ^^^ (t1 i).toUInt32 ^^^ (t2 i).toUInt32).toUInt8

/-- The words that hold three bytes. -/
def words (s : UInt8 × UInt8 × UInt8) : UInt32 × UInt32 × UInt32 :=
  (s.1.toUInt32, s.2.1.toUInt32, s.2.2.toUInt32)

lemma low_bit_iff : ∀ y : UInt8, y.toUInt32 &&& 1 ≠ 0 ↔ y &&& 1 ≠ 0 := by decide +kernel

lemma high_bit_iff : ∀ x : UInt8, x.toUInt32 &&& 0x80 ≠ 0 ↔ x &&& 0x80 ≠ 0 := by decide +kernel

lemma shift_left_eq : ∀ x : UInt8,
    (x.toUInt32 <<< (1 : UInt32)) &&& 0xFF = (x <<< (1 : UInt8)).toUInt32 := by decide +kernel

lemma shift_right_eq : ∀ y : UInt8, y.toUInt32 >>> (1 : UInt32) = (y >>> (1 : UInt8)).toUInt32 := by
  decide +kernel

/-- One pass on words simulates one pass on bytes. -/
lemma gf256Step_semiconj : Function.Semiconj words SovereignBus.gf256Step gf256Step := by
  rintro ⟨x, y, z⟩
  simp only [words, gf256Step, SovereignBus.gf256Step, low_bit_iff, high_bit_iff, shift_left_eq,
    shift_right_eq, apply_ite UInt8.toUInt32, UInt8.toUInt32_xor]
  rfl

lemma gf256Mul_eq (x y : UInt8) :
    gf256Mul x.toUInt32 y.toUInt32 = (SovereignBus.gf256Mul x y).toUInt32 :=
  congrArg (fun s => s.2.2) (gf256Step_semiconj.iterate_right 8 (x, y, 0)).symm

lemma convIndex_eq (k i : Fin 32) : convIndex k i = SovereignBus.convIndex k i := by
  rw [SovereignBus.convIndex_eq]
  ext
  have h31 := Nat.and_two_pow_sub_one_eq_mod (BitVec.ofInt 32 ((k : ℤ) - (i : ℤ) + 32)).toNat 5
  simp only [convIndex, BitVec.toNat_and, BitVec.toNat_ofInt, BitVec.toNat_ofNat, Fin.sub_def]
  norm_num at h31 ⊢
  omega

lemma cyclicConvolve_eq : cyclicConvolve = SovereignBus.cyclicConvolve := by
  funext a b k
  have hloop :
      (List.finRange 32).foldl
          (fun s i => s ^^^ gf256Mul (a i).toUInt32 (b (convIndex k i)).toUInt32)
          (UInt8.toUInt32 0)
        = UInt8.toUInt32 ((List.finRange 32).foldl
            (fun s i => s ^^^ SovereignBus.gf256Mul (a i) (b (SovereignBus.convIndex k i))) 0) :=
    List.foldl_hom UInt8.toUInt32 fun s i => by rw [gf256Mul_eq, convIndex_eq, UInt8.toUInt32_xor]
  rw [cyclicConvolve, SovereignBus.cyclicConvolve]
  exact (congrArg UInt32.toUInt8 hloop).trans (UInt8.toUInt8_toUInt32 _)

lemma circuit_eq (prev32 : Poly) (payload64 : Payload) :
    circuit prev32 payload64 = sebLatticeCommit prev32 payload64 := by
  funext i
  simp only [circuit, cyclicConvolve_eq, ← UInt8.toUInt32_xor, UInt8.toUInt8_toUInt32]
  rfl

end Js

/-- The three circuits agree on every tip and payload, and compute the closed
form: subtraction on `Fin 32` is subtraction modulo 32, and the second half of
the payload starts at 32. -/
theorem lattice_circuits_agree (prev : Poly) (payload : Payload) :
    Ada.latticeCommit prev payload = sebLatticeCommit prev payload
      ∧ Js.circuit prev payload = sebLatticeCommit prev payload
      ∧ ∀ k : Fin 32, sebLatticeCommit prev payload k
          = prev k ^^^ payload (Fin.castAdd 32 (k - 1)) ^^^ payload (Fin.natAdd 32 (k - 2)) :=
  ⟨Ada.latticeCommit_eq prev payload, Js.circuit_eq prev payload,
    sebLatticeCommit_apply prev payload⟩

end SovereignBus
