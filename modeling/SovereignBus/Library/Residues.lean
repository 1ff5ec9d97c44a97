import Mathlib

/-!
The residue ring of a monic polynomial, in coefficients.

* `ofCoeffs`: the residue with the given coefficients; every residue has exactly one
  family of them (`ofCoeffs_bijective`).
* `root_pow_add`: modulo `X ^ n - 1` the exponents add up as in `Fin n`, so the product
  has the cyclic convolution of the coefficients (`ofCoeffs_mul`).
-/

namespace Residues

open Polynomial AdjoinRoot

variable {R : Type*} [CommRing R] {p : R[X]} {n : ℕ}

/-- The residue with these coefficients. -/
noncomputable def ofCoeffs (p : R[X]) (v : Fin n → R) : AdjoinRoot p :=
  ∑ i, of p (v i) * root p ^ (i : ℕ)

lemma ofCoeffs_add (v w : Fin n → R) :
    ofCoeffs p (fun i => v i + w i) = ofCoeffs p v + ofCoeffs p w := by
  simp only [ofCoeffs, map_add, add_mul, Finset.sum_add_distrib]

lemma ofCoeffs_const_mul (r : R) (v : Fin n → R) :
    ofCoeffs p (fun i => r * v i) = of p r * ofCoeffs p v := by
  simp only [ofCoeffs, map_mul, Finset.mul_sum, mul_assoc]

/-- A polynomial of a degree below `n` has its own coefficients. -/
lemma ofCoeffs_coeff {f : R[X]} (h : f.natDegree < n) :
    ofCoeffs p (fun i : Fin n => f.coeff i) = mk p f := by
  rw [ofCoeffs, Fin.sum_univ_eq_sum_range fun i => of p (f.coeff i) * root p ^ i]
  conv_rhs => rw [f.as_sum_range' n h, map_sum]
  refine Finset.sum_congr rfl fun i _ => ?_
  rw [← C_mul_X_pow_eq_monomial, map_mul, map_pow, mk_C, mk_X]

/-- Modulo a monic polynomial of degree `n` every residue has exactly one family of `n`
coefficients. -/
theorem ofCoeffs_bijective (hp : p.Monic) (hn : p.natDegree = n) :
    Function.Bijective (ofCoeffs p : (Fin n → R) → AdjoinRoot p) := by
  subst hn
  have hcoeffs : ofCoeffs p = (powerBasisAux' hp).equivFun.symm := by
    funext v
    rw [Module.Basis.equivFun_symm_apply]
    refine Finset.sum_congr rfl fun i _ => ?_
    have hpow : powerBasisAux' hp i = root p ^ (i : ℕ) := (powerBasis' hp).basis_eq_pow i
    rw [hpow, Algebra.smul_def, AdjoinRoot.algebraMap_eq]
  rw [hcoeffs]
  exact (powerBasisAux' hp).equivFun.symm.bijective

/-- Exponents of the root add up as indices do. -/
lemma root_pow_add [NeZero n] (h : root p ^ n = 1) (i j : Fin n) :
    root p ^ ((i + j : Fin n) : ℕ) = root p ^ (i : ℕ) * root p ^ (j : ℕ) := by
  rw [Fin.val_add, ← pow_add]
  conv_rhs => rw [← Nat.div_add_mod (i + j : ℕ) n, pow_add, pow_mul, h, one_pow, one_mul]

/-- The product has the cyclic convolution of the coefficients. -/
theorem ofCoeffs_mul [NeZero n] (h : root p ^ n = 1) (v w : Fin n → R) :
    ofCoeffs p (fun k => ∑ i, v i * w (k - i)) = ofCoeffs p v * ofCoeffs p w := by
  calc ofCoeffs p (fun k => ∑ i, v i * w (k - i))
      = ∑ i, ∑ k, of p (v i) * of p (w (k - i)) * root p ^ (k : ℕ) := by
        simp only [ofCoeffs, map_sum, map_mul, Finset.sum_mul]
        exact Finset.sum_comm
    _ = ∑ i, ∑ j, of p (v i) * root p ^ (i : ℕ) * (of p (w j) * root p ^ (j : ℕ)) := by
        refine Finset.sum_congr rfl fun i _ => ?_
        refine Fintype.sum_equiv (Equiv.subRight i) _ _ fun k => ?_
        have hk : root p ^ (k : ℕ) = root p ^ (i : ℕ) * root p ^ ((k - i : Fin n) : ℕ) := by
          rw [← root_pow_add h, add_sub_cancel]
        rw [hk, Equiv.subRight_apply]
        ring
    _ = ofCoeffs p v * ofCoeffs p w := (Finset.sum_mul_sum _ _ _ _).symm

end Residues
