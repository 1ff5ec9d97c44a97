import Mathlib

/-!
Least squares over commutative rings.

* `residualVector`, `SolvesNormal`, `sqNorm`: the residual of a vector, the normal equations
  and the square of a norm. `SolvesNormal.map` carries the equations along a ring
  homomorphism.
* `sq_residual_le_of_normal`: over an ordered ring a solution of the normal
  equations has the smallest residual. The residual of any other vector differs
  by a vector of the column space, which is orthogonal to the first one.
-/

namespace LeastSquares

open Matrix

variable {m n R : Type*} [Fintype m] [Fintype n] [CommRing R]

omit [Fintype m] in
/-- The residual of `x`. -/
def residualVector (A : Matrix m n R) (x : n → R) (b : m → R) : m → R := A *ᵥ x - b

/-- The normal equations. -/
def SolvesNormal (A : Matrix m n R) (x : n → R) (b : m → R) : Prop := Aᵀ *ᵥ residualVector A x b = 0

omit [Fintype n] in
/-- The square of the norm of a vector. -/
def sqNorm (r : m → R) : R := r ⬝ᵥ r

omit [Fintype m] in
/-- The residuals of two vectors differ by a vector of the column space. -/
lemma residualVector_eq_add (A : Matrix m n R) (x y : n → R) (b : m → R) :
    residualVector A y b = residualVector A x b + A *ᵥ (y - x) := by
  rw [residualVector, residualVector, Matrix.mulVec_sub]
  abel

omit [Fintype m] in
lemma residualVector_map {S : Type*} [CommRing S] (f : R →+* S) (A : Matrix m n R) (x : n → R)
    (b : m → R) : residualVector (A.map f) (f ∘ x) (f ∘ b) = f ∘ residualVector A x b := by
  funext i
  simp [residualVector, ← RingHom.map_mulVec]

/-- The normal equations hold of the images under a ring homomorphism. -/
lemma SolvesNormal.map {S : Type*} [CommRing S] {A : Matrix m n R} {x : n → R} {b : m → R}
    (h : SolvesNormal A x b) (f : R →+* S) : SolvesNormal (A.map f) (f ∘ x) (f ∘ b) := by
  rw [SolvesNormal, residualVector_map, ← Matrix.transpose_map]
  funext j
  rw [← RingHom.map_mulVec, h]
  simp

/-- A residual that solves the normal equations is orthogonal to the column
space. -/
lemma SolvesNormal.orthogonal {A : Matrix m n R} {x : n → R} {b : m → R}
    (h : SolvesNormal A x b) (z : n → R) :
    residualVector A x b ⬝ᵥ A *ᵥ z = 0 := by
  calc residualVector A x b ⬝ᵥ A *ᵥ z
      = Aᵀ *ᵥ residualVector A x b ⬝ᵥ z := by
        rw [Matrix.dotProduct_mulVec, Matrix.mulVec_transpose]
    _ = 0 := by rw [h, zero_dotProduct]

variable [LinearOrder R] [IsStrictOrderedRing R]

/-- A solution of the normal equations has the smallest residual. -/
theorem sq_residual_le_of_normal {A : Matrix m n R} {x : n → R} {b : m → R} (h : SolvesNormal A x b)
    (y : n → R) : sqNorm (residualVector A x b) ≤ sqNorm (residualVector A y b) := by
  have horth := h.orthogonal (y - x)
  have hpos : 0 ≤ sqNorm (A *ᵥ (y - x)) := Finset.sum_nonneg fun _ _ => mul_self_nonneg _
  calc sqNorm (residualVector A x b)
      ≤ sqNorm (residualVector A x b) + sqNorm (A *ᵥ (y - x)) := le_add_of_nonneg_right hpos
    _ = sqNorm (residualVector A y b) := by
        rw [residualVector_eq_add A x y b, sqNorm, sqNorm, sqNorm, add_dotProduct, dotProduct_add,
          dotProduct_add, horth, dotProduct_comm (A *ᵥ (y - x)) (residualVector A x b), horth,
          add_zero, zero_add]

end LeastSquares
