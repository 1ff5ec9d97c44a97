import SovereignBus.Library.Bytes
import SovereignBus.Library.Tamper

/-!
The lattice circuit of `seb/runtime/c_src/seb_lattice.c`: the multiplication of
`GF(256)`, the convolution of `GF(256)[x]/(x^32 + 1)` and the commitment

  `next = K0 * prev + K1 * payload[0..31] + K2 * payload[32..63]`

with `K0 = 1`, `K1 = x`, `K2 = x^2`.

* `gf256Mul`, `cyclicConvolve`, `sebLatticeCommit`: the functions of the source,
  loop by loop.
* `cyclicConvolve_single`: convolution with a monomial shifts the indices, so
  the double loops collapse to the closed form `sebLatticeCommit_apply`.
* `contribution`: what a payload adds to the tip. The circuit is the additive
  chain with these contributions (`sebLatticeCommit_eq_addStep`), in particular
  it is injective in the tip (`sebLatticeCommit_injective`).
-/

namespace SovereignBus

/-- The 32 coefficients of a ring element, a `uint8_t[32]`. -/
abbrev Poly := Fin 32 → UInt8

/-- A payload, a `uint8_t[64]`. -/
abbrev Payload := Fin 64 → UInt8

/-! ### The multiplication of `GF(256)` -/

/-- One pass of the loop of `gf256_mul` over its variables `x`, `y` and `z`. -/
def gf256Step : UInt8 × UInt8 × UInt8 → UInt8 × UInt8 × UInt8
  | (x, y, z) =>
      let z := if y &&& 1 ≠ 0 then z ^^^ x else z
      let hi := x &&& 0x80
      let x := x <<< 1
      let x := if hi ≠ 0 then x ^^^ 0x1B else x
      (x, y >>> 1, z)

/-- `gf256_mul`: eight passes, the product in `z`. -/
def gf256Mul (x y : UInt8) : UInt8 := (gf256Step^[8] (x, y, 0)).2.2

@[simp] lemma gf256Mul_one : ∀ y, gf256Mul 1 y = y := by decide +kernel

@[simp] lemma gf256Mul_zero : ∀ y, gf256Mul 0 y = 0 := by decide +kernel

/-! ### The convolution -/

/-- The index `(k - i) & 31`, computed on 32-bit two's complement `int`s. -/
def convIndex (k i : Fin 32) : Fin 32 :=
  ⟨((BitVec.ofNat 32 k - BitVec.ofNat 32 i) &&& 31#32).toNat, by
    rw [BitVec.toNat_and]
    exact Nat.lt_succ_of_le Nat.and_le_right⟩

/-- `cyclic_convolve`: the outer loop over `k` and the inner loop over `i`. -/
def cyclicConvolve (a b : Poly) : Poly := fun k =>
  (List.finRange 32).foldl (fun s i => s ^^^ gf256Mul (a i) (b (convIndex k i))) 0

/-- Masking with 31 also brings the negative differences back into range. -/
lemma convIndex_eq (k i : Fin 32) : convIndex k i = k - i := by
  ext
  have h31 := Nat.and_two_pow_sub_one_eq_mod (BitVec.ofNat 32 ↑k - BitVec.ofNat 32 ↑i).toNat 5
  have hk := k.isLt
  have hi := i.isLt
  simp only [convIndex, BitVec.toNat_and, BitVec.toNat_ofNat, Fin.sub_def]
  norm_num at h31 ⊢
  omega

/-- Convolution with the monomial `x ^ j` shifts the coefficients by `j`. -/
lemma cyclicConvolve_single (j : Fin 32) (b : Poly) (k : Fin 32) :
    cyclicConvolve (fun i => if i = j then 1 else 0) b k = b (k - j) := by
  rw [cyclicConvolve, foldl_xor_eq, zero_xor,
    xorSum_map_single (List.nodup_finRange 32) (List.mem_finRange j)]
  · simp [convIndex_eq]
  · intro i _ hij
    simp [hij]

/-! ### The commitment -/

/-- `K0 = 1`. -/
def K0 : Poly := fun i => if i = 0 then 1 else 0

/-- `K1 = x`. -/
def K1 : Poly := fun i => if i = 1 then 1 else 0

/-- `K2 = x ^ 2`. -/
def K2 : Poly := fun i => if i = 2 then 1 else 0

lemma cyclicConvolve_K0 (b : Poly) (k : Fin 32) : cyclicConvolve K0 b k = b k := by
  have h := cyclicConvolve_single 0 b k
  rwa [sub_zero] at h

lemma cyclicConvolve_K1 (b : Poly) (k : Fin 32) : cyclicConvolve K1 b k = b (k - 1) :=
  cyclicConvolve_single 1 b k

lemma cyclicConvolve_K2 (b : Poly) (k : Fin 32) : cyclicConvolve K2 b k = b (k - 2) :=
  cyclicConvolve_single 2 b k

/-- The first half of a payload, the pointer `payload`. -/
def Payload.lower (payload : Payload) : Poly := fun i => payload (Fin.castAdd 32 i)

/-- The second half of a payload, the pointer `payload + 32`. -/
def Payload.upper (payload : Payload) : Poly := fun i => payload (Fin.natAdd 32 i)

/-- `seb_lattice_commit`: the commitment of a payload to the tip `prev`. -/
def sebLatticeCommit (prev : Poly) (payload : Payload) : Poly :=
  let t0 := cyclicConvolve K0 prev
  let t1 := cyclicConvolve K1 (Payload.lower payload)
  let t2 := cyclicConvolve K2 (Payload.upper payload)
  fun i => t0 i ^^^ t1 i ^^^ t2 i

/-- What a payload adds to the tip. -/
def contribution (payload : Payload) : Poly := fun k =>
  payload (Fin.castAdd 32 (k - 1)) ^^^ payload (Fin.natAdd 32 (k - 2))

/-- The closed form of the circuit. -/
lemma sebLatticeCommit_apply (prev : Poly) (payload : Payload) (k : Fin 32) :
    sebLatticeCommit prev payload k
      = prev k ^^^ payload (Fin.castAdd 32 (k - 1)) ^^^ payload (Fin.natAdd 32 (k - 2)) := by
  simp only [sebLatticeCommit, cyclicConvolve_K0, cyclicConvolve_K1, cyclicConvolve_K2]
  rfl

/-- The circuit is the additive chain of the contributions. -/
lemma sebLatticeCommit_eq_addStep : sebLatticeCommit = Chain.addStep contribution := by
  funext prev payload k
  rw [sebLatticeCommit_apply, xor_assoc]
  rfl

/-- Tip injectivity of one commitment. -/
lemma sebLatticeCommit_injective (payload : Payload) :
    Function.Injective fun prev => sebLatticeCommit prev payload := by
  intro prev prev' h
  rw [sebLatticeCommit_eq_addStep] at h
  exact LawfulXor.xor_left_inj.mp h

end SovereignBus
