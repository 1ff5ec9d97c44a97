import SovereignBus.Library.Residues
import SovereignBus.Lattice.Circuit

/-!
The ring of the lattice circuit: with exclusive or and `gf256_mul` the bytes are the field
`GF(2)[t]/(t^8 + t^4 + t^3 + t + 1)`, and `cyclic_convolve` is the product of
`GF(2^8)[x]/(x^32 + 1)`.

* `GF256`, `LatticeRing`: the field and the ring. `ofByte`, `ofPoly`: the element that has
  the bits, or the bytes, as its coefficients.
* `gf256Step_product`: what every pass of `gf256_mul` leaves as it is, so that the function
  is the product of the field (`ofByte_gf256Mul`).
* `ofPoly_cyclicConvolve`: the convolution is the product of the ring.
* `cyclicConvolve_ring`: it is the multiplication of this ring, with `K0` as its one.
-/

namespace SovereignBus

open Polynomial AdjoinRoot Residues

/-! ### The bytes as a field -/

/-- `t^8 + t^4 + t^3 + t + 1`. -/
noncomputable def fieldModulus : (ZMod 2)[X] := X ^ 8 + X ^ 4 + X ^ 3 + X + 1

abbrev GF256 := AdjoinRoot fieldModulus

/-- The bit `i` of a byte. -/
def bit (b : UInt8) (i : Fin 8) : ZMod 2 := if b.toBitVec.getLsbD i then 1 else 0

/-- The element with the bits of a byte. -/
noncomputable def ofByte (b : UInt8) : GF256 := ofCoeffs fieldModulus (bit b)

lemma fieldModulus_monic : fieldModulus.Monic := by
  rw [fieldModulus]
  monicity!

lemma fieldModulus_natDegree : fieldModulus.natDegree = 8 := by
  rw [fieldModulus]
  compute_degree!

lemma bit_zero : bit 0 = 0 := by decide

lemma bit_bijective : Function.Bijective bit := by
  rw [Fintype.bijective_iff_injective_and_card, ← FinEnum.card_eq_fintypeCard]
  refine ⟨fun a b h => ?_, by simp [ZMod.card]⟩
  refine UInt8.toBitVec_inj.mp (BitVec.eq_of_getLsbD_eq fun i hi => ?_)
  have hbit := congrFun h ⟨i, hi⟩
  simp only [bit] at hbit
  cases ha : a.toBitVec.getLsbD i <;> cases hb : b.toBitVec.getLsbD i <;>
    simp [ha, hb] at hbit ⊢

lemma ofByte_bijective : Function.Bijective ofByte :=
  (ofCoeffs_bijective fieldModulus_monic fieldModulus_natDegree).comp bit_bijective

lemma ofByte_xor (a b : UInt8) : ofByte (a ^^^ b) = ofByte a + ofByte b := by
  have hbit : bit (a ^^^ b) = fun i => bit a i + bit b i := by
    funext i
    rw [bit, bit, bit, UInt8.toBitVec_xor, BitVec.getLsbD_xor]
    cases a.toBitVec.getLsbD i <;> cases b.toBitVec.getLsbD i <;> rfl
  rw [ofByte, hbit, ofCoeffs_add, ofByte, ofByte]

@[simp] lemma ofByte_zero : ofByte 0 = 0 := by
  have h := ofByte_xor 0 0
  rwa [LawfulXor.xor_self, left_eq_add] at h

@[simp] lemma ofByte_one : ofByte 1 = 1 := by
  have hbit : bit 1 = fun i => if i = 0 then 1 else 0 := by decide
  simp [ofByte, hbit, ofCoeffs, apply_ite]

lemma GF256.two_eq_zero : (2 : GF256) = 0 := by
  rw [← map_ofNat (of fieldModulus) 2, show (OfNat.ofNat 2 : ZMod 2) = 0 from rfl, map_zero]

/-- The reduction `0x11B`. -/
lemma root_pow_eight : root fieldModulus ^ 8
    = root fieldModulus ^ 4 + root fieldModulus ^ 3 + root fieldModulus + 1 := by
  have h : eval₂ (of fieldModulus) (root fieldModulus) (X ^ 8 + X ^ 4 + X ^ 3 + X + 1) = 0 :=
    eval₂_root fieldModulus
  simp only [eval₂_add, eval₂_pow, eval₂_X, eval₂_one] at h
  set t := root fieldModulus
  linear_combination h - (t ^ 4 + t ^ 3 + t + 1) * GF256.two_eq_zero

/-! ### The multiplication of the bytes -/

/-- What a pass of `gf256_mul` makes of `x`. -/
def shiftReduce (x : UInt8) : UInt8 := if x &&& 0x80 ≠ 0 then x <<< 1 ^^^ 0x1B else x <<< 1

/-- A shift with its reduction is the product with the root. -/
lemma ofByte_shiftReduce (x : UInt8) : ofByte (shiftReduce x) = root fieldModulus * ofByte x := by
  have hbit : ∀ x, bit (shiftReduce x) = fun i => ![bit x 7, bit x 0 + bit x 7, bit x 1,
      bit x 2 + bit x 7, bit x 3 + bit x 7, bit x 4, bit x 5, bit x 6] i := by decide +kernel
  simp only [ofByte, hbit, ofCoeffs, Fin.sum_univ_eight]
  simp
  linear_combination -of fieldModulus (bit x 7) * root_pow_eight

/-- A byte is its lowest bit and the root times the others. -/
lemma ofByte_shiftRight (y : UInt8) :
    ofByte y = (if y &&& 1 ≠ 0 then (1 : GF256) else 0)
      + root fieldModulus * ofByte (y >>> 1) := by
  have hy : ∀ y : UInt8,
      y = (if y &&& 1 ≠ 0 then (1 : UInt8) else 0) ^^^ shiftReduce (y >>> 1) := by decide +kernel
  conv_lhs => rw [hy y, ofByte_xor, ofByte_shiftReduce, apply_ite ofByte, ofByte_one, ofByte_zero]

/-- `z + x * y` over the variables of `gf256_mul`. -/
noncomputable def runningProduct (s : UInt8 × UInt8 × UInt8) : GF256 :=
  ofByte s.2.2 + ofByte s.1 * ofByte s.2.1

/-- No pass changes the running product. -/
lemma gf256Step_product (s : UInt8 × UInt8 × UInt8) :
    runningProduct (gf256Step s) = runningProduct s := by
  obtain ⟨x, y, z⟩ := s
  have hx : (gf256Step (x, y, z)).1 = shiftReduce x := rfl
  have hy : (gf256Step (x, y, z)).2.1 = y >>> 1 := rfl
  have hz : ofByte (gf256Step (x, y, z)).2.2
      = ofByte z + ofByte x * if y &&& 1 ≠ 0 then (1 : GF256) else 0 := by
    simp only [gf256Step]
    split_ifs
    · rw [ofByte_xor, mul_one]
    · rw [mul_zero, add_zero]
  rw [runningProduct, hx, hy, hz, ofByte_shiftReduce, runningProduct, ofByte_shiftRight y]
  ring

/-- `gf256_mul` is the product of the field. -/
theorem ofByte_gf256Mul (x y : UInt8) : ofByte (gf256Mul x y) = ofByte x * ofByte y := by
  have hrun : ∀ n s, runningProduct (gf256Step^[n] s) = runningProduct s := fun n s => by
    induction n generalizing s with
    | zero => rfl
    | succ n ih => rw [Function.iterate_succ_apply, ih, gf256Step_product]
  have hend : (gf256Step^[8] (x, y, 0)).2.1 = 0 := by
    have hshift : ∀ y : UInt8, (fun y : UInt8 => y >>> 1)^[8] y = 0 := by decide +kernel
    exact hshift y
  have h := hrun 8 (x, y, 0)
  rwa [runningProduct, hend, ofByte_zero, mul_zero, add_zero, runningProduct, ofByte_zero,
    zero_add] at h

/-! ### No zero divisors -/

/-- The inverses of the bytes below 32, from 1 on. -/
def smallInverses : List UInt8 :=
  [1, 141, 246, 203, 82, 123, 209, 232, 79, 41, 192, 176, 225, 229, 199, 116, 180, 170, 75, 153,
    43, 96, 95, 88, 63, 253, 204, 255, 64, 238, 178]

lemma gf256Mul_smallInverses :
    ∀ b : UInt8, b ≠ 0 → b < 32 → gf256Mul b (smallInverses.getD (b.toNat - 1) 0) = 1 := by
  decide +kernel

/-- A polynomial of a degree below 5 that is not zero is a unit modulo the modulus. -/
lemma exists_mul_eq_one {g : (ZMod 2)[X]} (hg : g ≠ 0) (hdeg : g.natDegree ≤ 4) :
    ∃ y, mk fieldModulus g * y = 1 := by
  obtain ⟨b, hb⟩ := bit_bijective.surjective fun i => g.coeff i
  have hval : ofByte b = mk fieldModulus g := by rw [ofByte, hb, ofCoeffs_coeff (by omega)]
  have hsmall : ∀ b : UInt8, bit b 5 = 0 → bit b 6 = 0 → bit b 7 = 0 → b < 32 := by
    decide +kernel
  have hne : b ≠ 0 := by
    rintro rfl
    have hlead := congrFun hb ⟨g.natDegree, by omega⟩
    rw [bit_zero] at hlead
    exact hg (leadingCoeff_eq_zero.mp hlead.symm)
  refine ⟨ofByte (smallInverses.getD (b.toNat - 1) 0), ?_⟩
  rw [← hval, ← ofByte_gf256Mul, gf256Mul_smallInverses b hne, ofByte_one]
  have hcoeff : ∀ i : Fin 8, 4 < (i : ℕ) → bit b i = 0 := fun i hi => by
    rw [hb]
    exact coeff_eq_zero_of_natDegree_lt (by omega)
  exact hsmall b (hcoeff 5 (by decide)) (hcoeff 6 (by decide)) (hcoeff 7 (by decide))

lemma fieldModulus_irreducible : Irreducible fieldModulus := by
  rw [fieldModulus_monic.irreducible_iff_natDegree']
  refine ⟨fun h => ?_, fun f g hf hg hfg hdeg => ?_⟩
  · have hdeg := fieldModulus_natDegree
    rw [h, natDegree_one] at hdeg
    exact absurd hdeg (by decide)
  · rw [fieldModulus_natDegree, Finset.mem_Ioc] at hdeg
    obtain ⟨y, hy⟩ := exists_mul_eq_one hg.ne_zero (by omega)
    have hzero : mk fieldModulus f = 0 := by
      calc mk fieldModulus f = mk fieldModulus (f * g) * y := by
            rw [map_mul, mul_assoc, hy, mul_one]
        _ = 0 := by rw [hfg, mk_self, zero_mul]
    have hle := natDegree_le_of_dvd (mk_eq_zero.mp hzero) hf.ne_zero
    rw [← hfg, hf.natDegree_mul hg] at hle
    omega

lemma GF256.isField : IsField GF256 :=
  have := Fact.mk fieldModulus_irreducible
  Field.toIsField GF256

/-! ### The ring of the convolution -/

/-- `x^32 + 1`. -/
noncomputable def ringModulus : GF256[X] := X ^ 32 + 1

abbrev LatticeRing := AdjoinRoot ringModulus

/-- The element with the bytes of a vector. -/
noncomputable def ofPoly (a : Poly) : LatticeRing := ofCoeffs ringModulus fun i => ofByte (a i)

lemma ringModulus_monic [Nontrivial GF256] : ringModulus.Monic := by
  rw [ringModulus]
  monicity!

lemma ringModulus_natDegree [Nontrivial GF256] : ringModulus.natDegree = 32 := by
  rw [ringModulus]
  compute_degree!

/-- In characteristic two, `x^32 + 1` is `x^32 - 1`. -/
lemma root_pow_thirtyTwo : root ringModulus ^ 32 = 1 := by
  have h : eval₂ (of ringModulus) (root ringModulus) (X ^ 32 + 1) = 0 := eval₂_root ringModulus
  have htwo : (2 : LatticeRing) = 0 := by
    rw [← map_ofNat (of ringModulus) 2, GF256.two_eq_zero, map_zero]
  simp only [eval₂_add, eval₂_pow, eval₂_X, eval₂_one] at h
  linear_combination h - htwo

lemma ofPoly_bijective : Function.Bijective ofPoly := by
  have : Nontrivial GF256 := GF256.isField.nontrivial
  have hbytes : Function.Bijective fun (a : Poly) (i : Fin 32) => ofByte (a i) :=
    ⟨ofByte_bijective.injective.comp_left, ofByte_bijective.surjective.comp_left⟩
  exact (ofCoeffs_bijective ringModulus_monic ringModulus_natDegree).comp hbytes

lemma ofPoly_xor (a b : Poly) : ofPoly (a ^^^ b) = ofPoly a + ofPoly b := by
  simp only [ofPoly, Pi.xor_apply, ofByte_xor, ofCoeffs_add]

lemma ofPoly_scale (s : UInt8) (a : Poly) :
    ofPoly (fun i => gf256Mul s (a i)) = of ringModulus (ofByte s) * ofPoly a := by
  simp only [ofPoly, ofByte_gf256Mul, ofCoeffs_const_mul]

/-- One place of the convolution. -/
lemma ofByte_cyclicConvolve (a b : Poly) (k : Fin 32) :
    ofByte (cyclicConvolve a b k) = ∑ i, ofByte (a i) * ofByte (b (k - i)) := by
  rw [cyclicConvolve, foldl_xor_eq, zero_xor, map_xorSum ofByte_zero ofByte_xor,
    List.map_map, Fin.sum_univ_def]
  simp only [Function.comp_def, ofByte_gf256Mul, convIndex_eq]

/-- `cyclic_convolve` is the product of the ring. -/
theorem ofPoly_cyclicConvolve (a b : Poly) : ofPoly (cyclicConvolve a b) = ofPoly a * ofPoly b := by
  simp only [ofPoly, ofByte_cyclicConvolve]
  exact ofCoeffs_mul root_pow_thirtyTwo (fun i => ofByte (a i)) fun i => ofByte (b i)

lemma ofPoly_K0 : ofPoly K0 = 1 := by
  simp [ofPoly, ofCoeffs, K0, apply_ite]

/-- A multiplication of vectors that is commutative, associative and bilinear over the
bytes, with a one. -/
structure RingMultiplication (mul : Poly → Poly → Poly) (one : Poly) : Prop where
  comm : ∀ a b, mul a b = mul b a
  assoc : ∀ a b c, mul (mul a b) c = mul a (mul b c)
  xor_left : ∀ a b c, mul (a ^^^ b) c = mul a c ^^^ mul b c
  xor_right : ∀ a b c, mul a (b ^^^ c) = mul a b ^^^ mul a c
  scale_left : ∀ s a b, mul (fun i => gf256Mul s (a i)) b = fun i => gf256Mul s (mul a b i)
  scale_right : ∀ s a b, mul a (fun i => gf256Mul s (b i)) = fun i => gf256Mul s (mul a b i)
  one_left : ∀ a, mul one a = a
  one_right : ∀ a, mul a one = a

/-- With `gf256_mul` the bytes are the field of `t^8 + t^4 + t^3 + t + 1`, with
`cyclic_convolve` the vectors of them are its polynomials modulo `x^32 + 1`, and so the
convolution is a commutative ring multiplication with the one `K0`. -/
theorem cyclicConvolve_ring :
    (IsField GF256 ∧ Function.Bijective ofByte
        ∧ (∀ x y, ofByte (x ^^^ y) = ofByte x + ofByte y)
        ∧ ∀ x y, ofByte (gf256Mul x y) = ofByte x * ofByte y)
      ∧ (Function.Bijective ofPoly
        ∧ (∀ a b, ofPoly (a ^^^ b) = ofPoly a + ofPoly b)
        ∧ (∀ a b, ofPoly (cyclicConvolve a b) = ofPoly a * ofPoly b)
        ∧ ofPoly K0 = 1)
      ∧ RingMultiplication cyclicConvolve K0 := by
  refine ⟨⟨GF256.isField, ofByte_bijective, ofByte_xor, ofByte_gf256Mul⟩,
    ⟨ofPoly_bijective, ofPoly_xor, ofPoly_cyclicConvolve, ofPoly_K0⟩, ?_⟩
  have hinj := ofPoly_bijective.injective
  exact
    { comm := fun a b => hinj (by simp only [ofPoly_cyclicConvolve]; ring)
      assoc := fun a b c => hinj (by simp only [ofPoly_cyclicConvolve]; ring)
      xor_left := fun a b c => hinj (by simp only [ofPoly_cyclicConvolve, ofPoly_xor]; ring)
      xor_right := fun a b c => hinj (by simp only [ofPoly_cyclicConvolve, ofPoly_xor]; ring)
      scale_left := fun s a b => hinj (by simp only [ofPoly_cyclicConvolve, ofPoly_scale]; ring)
      scale_right := fun s a b => hinj (by simp only [ofPoly_cyclicConvolve, ofPoly_scale]; ring)
      one_left := fun a => hinj (by rw [ofPoly_cyclicConvolve, ofPoly_K0, one_mul])
      one_right := fun a => hinj (by rw [ofPoly_cyclicConvolve, ofPoly_K0, mul_one]) }

end SovereignBus
