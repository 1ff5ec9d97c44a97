import SovereignBus.Verifier.Solution
import SovereignBus.Library.Framing

/-!
The verifier of inverses of `src/verifier/sov_verifier.c`.

* `cellProduct`, `sovMatrixMultWithBudget`, `isIdentity`, `sovVerifyInv`: the
  functions of the source.
* `matrixProduct_ok` and `matrixProduct_overflow`: the triple loop is exact when
  no dot product overflows, and reports an overflow when one does.
* `sov_verify_inv_exact`: verdicts are exact over the integers and two-sided, as
  a one-sided inverse of a square matrix is an inverse.
-/

namespace SovereignBus

namespace Verifier

open Checked Framing Matrix

/-- The innermost loop of the product: `result[i * p + j]`. -/
def cellProduct (A B : ℕ → Int64) (n p : UInt64) (i j : ℕ) : Except VerifyResult Int64 :=
  (List.range n.toNat).foldlM
    (fun c k => checkedMuladd c (A (UInt64.ofNat i * n + UInt64.ofNat k).toNat)
      (B (UInt64.ofNat k * p + UInt64.ofNat j).toNat)) 0

/-- The charge for `m * n * p` operations. -/
def chargeMatrixProduct (m n p : UInt64) :
    Option SovResourceBudget → VerifyResult × Option SovResourceBudget
  | none => (.ok, none)
  | some budget =>
      if m > 0 ∧ n > sizeMax / m then (.overflow, some budget)
      else
        let mn := m * n
        if mn > 0 ∧ p > sizeMax / mn then (.overflow, some budget)
        else
          let r := sovAddOperationCost budget (mn * p)
          (r.1, some r.2)

/-- `sov_matrix_mult_with_budget`: the values of `result`, row behind row, or
the error, and the budget. -/
def sovMatrixMultWithBudget (A B : Buffer) (result : Bool) (m n p : UInt64)
    (budget : Option SovResourceBudget) :
    Except VerifyResult (List Int64) × Option SovResourceBudget :=
  match A, B, result with
  | some A, some B, true =>
      let charged := chargeMatrixProduct m n p budget
      if charged.1 ≠ .ok then (.error charged.1, charged.2)
      else
        let rows := (List.range m.toNat).mapM fun i =>
          (List.range p.toNat).mapM (cellProduct A B n p i)
        (rows.map List.flatten, charged.2)
  | _, _, _ => (.error .nullInput, budget)

/-- The scan of `sov_verify_inv` for the identity. -/
def isIdentity (data : ℕ → Int64) (n : UInt64) : Bool :=
  (List.range n.toNat).all fun i => (List.range n.toNat).all fun j =>
    data (UInt64.ofNat i * n + UInt64.ofNat j).toNat == if i = j then 1 else 0

/-- The checks of `sov_verify_inv` on dimensions, cells and lengths, in
order. -/
def invChecks (A : Buffer) (aLen : UInt64) (X : Buffer) (xLen n : UInt64) : VerifyResult :=
  (sovCheckDimensions n n).andThen <|
    (sovCheckMatrixCells n n).andThen <|
      (validateMatrixBuffer A n n aLen).andThen (validateMatrixBuffer X n n xLen)

/-- `sov_verify_inv`: the verdict and the caller's budget. -/
def sovVerifyInv (malloc : UInt64 → Bool) (A : Buffer) (aLen : UInt64) (X : Buffer)
    (xLen n : UInt64) (budget : Option SovResourceBudget) :
    VerifyResult × Option SovResourceBudget :=
  if A.isNone ∨ X.isNone then (.nullInput, budget)
  else if n = 0 then (.dimensionMismatch, budget)
  else
    let work := budget.getD sovInitResourceBudget
    let checks := invChecks A aLen X xLen n
    if checks ≠ .ok then (checks, budget)
    else
      match safeAllocMatrix malloc n n with
      | none => (.allocFailure, budget)
      | some product =>
          let r := sovMatrixMultWithBudget A X product.data n n n (some work)
          let verdict :=
            match r.1 with
            | .error res => res
            | .ok values => if isIdentity (fun c => values.getD c 0) n then .ok else .fail
          (verdict, if budget.isSome then r.2 else none)

/-! ### The product -/

/-- The entries of a buffer with rows of length `n`, as a matrix over the
integers. -/
def entries (A : ℕ → Int64) (m n : ℕ) : Matrix (Fin m) (Fin n) ℤ :=
  Matrix.of fun i j => (A (i * n + j)).toInt

/-- The dot product of the row `i` of `A` and the column `j` of `B` overflows. -/
def CellOverflows (A B : ℕ → Int64) (n p i j : ℕ) : Prop :=
  DotOverflows (fun k => (A (i * n + k)).toInt) (fun k => (B (k * p + j)).toInt) n

/-- The exact value of an entry of the product. -/
def cellSum (A B : ℕ → Int64) (n p i j : ℕ) : ℤ :=
  ∑ k ∈ Finset.range n, (A (i * n + k)).toInt * (B (k * p + j)).toInt

lemma entries_mul_apply (A B : ℕ → Int64) {m n p : ℕ} (i : Fin m) (j : Fin p) :
    (entries A m n * entries B n p) i j = cellSum A B n p i j := by
  rw [Matrix.mul_apply, cellSum, ← Fin.sum_univ_eq_sum_range
    fun k => (A (i * n + k)).toInt * (B (k * p + j)).toInt]
  rfl

section Product

variable {A B : ℕ → Int64} {m n p : UInt64} {i j : ℕ}

/-- The innermost loop is the checked loop over the row and the column. -/
lemma cellProduct_eq (hmn : sovCheckDimensions m n = .ok) (hnp : sovCheckDimensions n p = .ok)
    (hi : i < m.toNat) (hj : j < p.toNat) :
    cellProduct A B n p i j
      = (List.range n.toNat).foldlM
          (fun c k => checkedMuladd c (A (i * n.toNat + k)) (B (k * p.toNat + j))) 0 := by
  rw [cellProduct]
  refine foldlM_congr (fun k hk c => ?_) 0
  have hkn := List.mem_range.mp hk
  rw [index_toNat hmn hi hkn, index_toNat hnp hkn hj]

lemma cellProduct_ok (hmn : sovCheckDimensions m n = .ok) (hnp : sovCheckDimensions n p = .ok)
    (hi : i < m.toNat) (hj : j < p.toNat) (h : ¬ CellOverflows A B n.toNat p.toNat i j) :
    ∃ c, cellProduct A B n p i j = .ok c ∧ c.toInt = cellSum A B n.toNat p.toNat i j := by
  rw [cellProduct_eq hmn hnp hi hj]
  exact checkedDot_ok h

lemma cellProduct_overflow (hmn : sovCheckDimensions m n = .ok)
    (hnp : sovCheckDimensions n p = .ok) (hi : i < m.toNat) (hj : j < p.toNat)
    (h : CellOverflows A B n.toNat p.toNat i j) : cellProduct A B n p i j = .error .overflow := by
  rw [cellProduct_eq hmn hnp hi hj]
  exact checkedDot_overflow h

/-- Without an overflow the values of the product are exact. -/
lemma matrixProduct_ok (hmn : sovCheckDimensions m n = .ok) (hnp : sovCheckDimensions n p = .ok)
    (hcells : ∀ i < m.toNat, ∀ j < p.toNat, ¬ CellOverflows A B n.toNat p.toNat i j) :
    ∃ rows, ((List.range m.toNat).mapM fun i =>
        (List.range p.toNat).mapM (cellProduct A B n p i)) = .ok rows
      ∧ ∀ i < m.toNat, ∀ j < p.toNat,
          (rows.flatten.getD (i * p.toNat + j) 0).toInt = cellSum A B n.toNat p.toNat i j := by
  obtain ⟨rows, hrows, hlen, hall⟩ := mapM_range_ok fun i hi =>
    mapM_range_ok fun j hj => cellProduct_ok hmn hnp hi hj (hcells i hi j hj)
  refine ⟨rows, hrows, fun i hi j hj => ?_⟩
  have hwidth : ∀ r ∈ rows, r.length = p.toNat := by
    intro r hr
    obtain ⟨k, hk, rfl⟩ := List.getElem_of_mem hr
    exact (hall k hk).1
  obtain ⟨hrow, hcell⟩ := hall i (by omega)
  rw [getD_flatten hwidth 0 (by omega) hj, List.getD_eq_getElem _ _ (by omega)]
  exact hcell j (by omega)

/-- With an overflow the product is not computed. -/
lemma matrixProduct_overflow (hmn : sovCheckDimensions m n = .ok)
    (hnp : sovCheckDimensions n p = .ok)
    (hcell : ∃ i < m.toNat, ∃ j < p.toNat, CellOverflows A B n.toNat p.toNat i j) :
    ((List.range m.toNat).mapM fun i => (List.range p.toNat).mapM (cellProduct A B n p i))
      = .error .overflow := by
  have hcells : ∀ i < m.toNat, ∀ j < p.toNat,
      (∃ c, cellProduct A B n p i j = .ok c) ∨ cellProduct A B n p i j = .error .overflow := by
    intro i hi j hj
    by_cases h : CellOverflows A B n.toNat p.toNat i j
    · exact Or.inr (cellProduct_overflow hmn hnp hi hj h)
    · obtain ⟨c, hc, -⟩ := cellProduct_ok hmn hnp hi hj h
      exact Or.inl ⟨c, hc⟩
  refine mapM_range_error (fun i hi => ?_) ?_
  · by_cases h : ∃ j < p.toNat, cellProduct A B n p i j = .error .overflow
    · exact Or.inr (mapM_range_error (hcells i hi) h)
    · -- no cell of this row fails, so the row is computed
      left
      obtain ⟨row, hrow, -⟩ := mapM_range_ok (f := cellProduct A B n p i) (P := fun _ _ => True)
        fun j hj => by
          rcases hcells i hi j hj with ⟨c, hc⟩ | hfail
          · exact ⟨c, hc, trivial⟩
          · exact absurd ⟨j, hj, hfail⟩ h
      exact ⟨row, hrow⟩
  · obtain ⟨i, hi, j, hj, h⟩ := hcell
    exact ⟨i, hi, mapM_range_error (hcells i hi) ⟨j, hj, cellProduct_overflow hmn hnp hi hj h⟩⟩

end Product

/-! ### The verdict -/

/-- The scan finds the identity exactly when the values are its entries. -/
lemma isIdentity_iff {data : ℕ → Int64} {n : UInt64} (hdim : sovCheckDimensions n n = .ok) :
    isIdentity data n = true
      ↔ ∀ i < n.toNat, ∀ j < n.toNat,
          (data (i * n.toNat + j)).toInt = if i = j then 1 else 0 := by
  simp only [isIdentity, List.all_eq_true, List.mem_range, beq_iff_eq]
  refine forall₂_congr fun i hi => forall₂_congr fun j hj => ?_
  rw [index_toNat hdim hi hj, ← Int64.toInt_inj]
  split_ifs <;> rfl

/-- Every check of `sov_verify_inv` passes. The budget is charged behind the
allocation, so that has succeeded by then. -/
structure InvChecksPass (malloc : UInt64 → Bool) (A : Buffer) (aLen : UInt64) (X : Buffer)
    (xLen n : UInt64) (budget : Option SovResourceBudget) : Prop where
  size : n ≠ 0
  limits : invChecks A aLen X xLen n = .ok
  allocated : (safeAllocMatrix malloc n n).isSome
  charged : (chargeMatrixProduct n n n (some (budget.getD sovInitResourceBudget))).1 = .ok

lemma invChecks_ne_fail (A : Buffer) (aLen : UInt64) (X : Buffer) (xLen n : UInt64) :
    invChecks A aLen X xLen n ≠ .fail :=
  andThen_ne_fail (sovCheckDimensions_ne_fail n n) <|
    andThen_ne_fail (sovCheckMatrixCells_ne_fail n n) <|
      andThen_ne_fail (validateMatrixBuffer_ne_fail A n n aLen)
        (validateMatrixBuffer_ne_fail X n n xLen)

lemma chargeMatrixProduct_ne_fail (m n p : UInt64) (budget : Option SovResourceBudget) :
    (chargeMatrixProduct m n p budget).1 ≠ .fail := by
  cases budget with
  | none => simp [chargeMatrixProduct]
  | some budget =>
      simp only [chargeMatrixProduct]
      split_ifs
      · simp
      · simp
      · exact sovAddOperationCost_ne_fail budget _

/-- A size within the limits that is not zero has cells. -/
lemma mul_self_ne_zero_of_dimensions {n : UInt64} (hdim : sovCheckDimensions n n = .ok)
    (hn : n ≠ 0) : n * n ≠ 0 := by
  obtain ⟨hle, -⟩ := sovCheckDimensions_le hdim
  have hpos : 0 < n.toNat := Nat.pos_of_ne_zero fun h => hn (UInt64.toNat_inj.mp h)
  have hprod : n.toNat * n.toNat ≤ 65536 * 65536 := Nat.mul_le_mul hle hle
  intro h
  have hzero : (n * n).toNat = 0 := by rw [h]; rfl
  rw [UInt64.toNat_mul, Nat.mod_eq_of_lt (by omega)] at hzero
  exact absurd hzero (Nat.mul_pos hpos hpos).ne'

section Verdict

variable {malloc : UInt64 → Bool} {A X : ℕ → Int64} {aLen xLen n : UInt64}
  {budget : Option SovResourceBudget}

/-- Without passing the checks there is no verdict. -/
lemma sovVerifyInv_of_not_pass
    (hpass : ¬ InvChecksPass malloc (some A) aLen (some X) xLen n budget) :
    (sovVerifyInv malloc (some A) aLen (some X) xLen n budget).1 ≠ .ok
      ∧ (sovVerifyInv malloc (some A) aLen (some X) xLen n budget).1 ≠ .fail := by
  rw [sovVerifyInv, if_neg (by simp)]
  by_cases hn : n = 0
  · simp [hn]
  by_cases hlimits : invChecks (some A) aLen (some X) xLen n = .ok
  · have hdim := (andThen_eq_ok.mp hlimits).1
    cases halloc : safeAllocMatrix malloc n n with
    | none => simp [hn, hlimits]
    | some product =>
        have hdata := safeAllocMatrix_data (mul_self_ne_zero_of_dimensions hdim hn) halloc
        have hcharge :
            (chargeMatrixProduct n n n (some (budget.getD sovInitResourceBudget))).1 ≠ .ok :=
          fun hcharged => hpass ⟨hn, hlimits, by rw [halloc]; rfl, hcharged⟩
        have hfail := chargeMatrixProduct_ne_fail n n n (some (budget.getD sovInitResourceBudget))
        simp [hn, hlimits, hdata, sovMatrixMultWithBudget, hcharge, hfail]
  · simp [hn, hlimits, invChecks_ne_fail]

lemma InvChecksPass.dimensions
    (hpass : InvChecksPass malloc (some A) aLen (some X) xLen n budget) :
    sovCheckDimensions n n = .ok :=
  (andThen_eq_ok.mp hpass.limits).1

/-- Past the checks the answer is that of the product and the scan. -/
lemma sovVerifyInv_of_pass (hpass : InvChecksPass malloc (some A) aLen (some X) xLen n budget) :
    (sovVerifyInv malloc (some A) aLen (some X) xLen n budget).1
      = match (List.range n.toNat).mapM fun i =>
            (List.range n.toNat).mapM (cellProduct A X n n i) with
        | .error res => res
        | .ok rows => if isIdentity (fun c => rows.flatten.getD c 0) n then .ok else .fail := by
  have hdim := hpass.dimensions
  obtain ⟨hn, hlimits, halloc, hcharged⟩ := hpass
  obtain ⟨product, hproduct⟩ := Option.isSome_iff_exists.mp halloc
  have hdata := safeAllocMatrix_data (mul_self_ne_zero_of_dimensions hdim hn) hproduct
  simp only [sovVerifyInv, Option.isNone_some, Bool.false_eq_true, or_self, if_false, hn, hlimits,
    ne_eq, not_true, hproduct, sovMatrixMultWithBudget, hdata, hcharged]
  cases (List.range n.toNat).mapM fun i => (List.range n.toNat).mapM (cellProduct A X n n i) with
  | error res => rfl
  | ok rows => rfl

/-- Past the checks, an overflow is reported. -/
lemma sovVerifyInv_overflow (hpass : InvChecksPass malloc (some A) aLen (some X) xLen n budget)
    (hcell : ∃ i < n.toNat, ∃ j < n.toNat, CellOverflows A X n.toNat n.toNat i j) :
    (sovVerifyInv malloc (some A) aLen (some X) xLen n budget).1 = .overflow := by
  rw [sovVerifyInv_of_pass hpass,
    matrixProduct_overflow hpass.dimensions hpass.dimensions hcell]

/-- Past the checks and without an overflow, the verdict tells whether the
product is the identity. -/
lemma sovVerifyInv_verdict (hpass : InvChecksPass malloc (some A) aLen (some X) xLen n budget)
    (hcells : ∀ i < n.toNat, ∀ j < n.toNat, ¬ CellOverflows A X n.toNat n.toNat i j) :
    ((sovVerifyInv malloc (some A) aLen (some X) xLen n budget).1 = .ok
        ∧ entries A n.toNat n.toNat * entries X n.toNat n.toNat = 1)
      ∨ ((sovVerifyInv malloc (some A) aLen (some X) xLen n budget).1 = .fail
        ∧ entries A n.toNat n.toNat * entries X n.toNat n.toNat ≠ 1) := by
  obtain ⟨rows, hrows, hexact⟩ := matrixProduct_ok hpass.dimensions hpass.dimensions hcells
  have hone : isIdentity (fun c => rows.flatten.getD c 0) n = true
      ↔ entries A n.toNat n.toNat * entries X n.toNat n.toNat = 1 := by
    rw [isIdentity_iff hpass.dimensions, ← Matrix.ext_iff]
    constructor
    · intro h i j
      rw [entries_mul_apply, ← hexact i i.2 j j.2, h i i.2 j j.2, Matrix.one_apply]
      simp only [Fin.ext_iff]
    · intro h i hi j hj
      have hij := h ⟨i, hi⟩ ⟨j, hj⟩
      rw [entries_mul_apply, Matrix.one_apply] at hij
      rw [hexact i hi j hj, hij]
      simp only [Fin.mk.injEq]
  rw [sovVerifyInv_of_pass hpass, hrows]
  by_cases h : entries A n.toNat n.toNat * entries X n.toNat n.toNat = 1
  · exact Or.inl ⟨if_pos (hone.mpr h), h⟩
  · exact Or.inr ⟨if_neg fun hid => h (hone.mp hid), h⟩

end Verdict

/-- The verdicts of `sov_verify_inv` are exact over the integers, for every
budget, and past the checks the only other answer is an overflow, which is
reported exactly when a product or a partial sum of a dot product leaves the
range of `int64_t`. -/
theorem sov_verify_inv_exact (malloc : UInt64 → Bool) (A X : ℕ → Int64) (aLen xLen n : UInt64)
    (budget : Option SovResourceBudget) :
    let result := (sovVerifyInv malloc (some A) aLen (some X) xLen n budget).1
    (result = .ok → entries A n.toNat n.toNat * entries X n.toNat n.toNat = 1
        ∧ entries X n.toNat n.toNat * entries A n.toNat n.toNat = 1)
      ∧ (result = .fail → entries A n.toNat n.toNat * entries X n.toNat n.toNat ≠ 1)
      ∧ (InvChecksPass malloc (some A) aLen (some X) xLen n budget →
          (result = .ok ∨ result = .fail ∨ result = .overflow)
            ∧ (result = .overflow
                ↔ ∃ i < n.toNat, ∃ j < n.toNat, CellOverflows A X n.toNat n.toNat i j)) := by
  intro result
  by_cases hpass : InvChecksPass malloc (some A) aLen (some X) xLen n budget
  · by_cases hcell : ∃ i < n.toNat, ∃ j < n.toNat, CellOverflows A X n.toNat n.toNat i j
    · have hres : result = .overflow := sovVerifyInv_overflow hpass hcell
      rw [hres]
      exact ⟨by simp, by simp, fun _ => ⟨by simp, iff_of_true rfl hcell⟩⟩
    · have hnone : ∀ i < n.toNat, ∀ j < n.toNat, ¬ CellOverflows A X n.toNat n.toNat i j :=
        fun i hi j hj h => hcell ⟨i, hi, j, hj, h⟩
      rcases sovVerifyInv_verdict hpass hnone with ⟨hres, hone⟩ | ⟨hres, hne⟩
      · rw [show result = .ok from hres]
        exact ⟨fun _ => ⟨hone, mul_eq_one_comm.mp hone⟩, by simp,
          fun _ => ⟨by simp, iff_of_false (by simp) hcell⟩⟩
      · rw [show result = .fail from hres]
        exact ⟨by simp, fun _ => hne, fun _ => ⟨by simp, iff_of_false (by simp) hcell⟩⟩
  · obtain ⟨hok, hfail⟩ := sovVerifyInv_of_not_pass hpass
    exact ⟨fun h => absurd h hok, fun h => absurd h hfail, fun h => absurd h hpass⟩

end Verifier

end SovereignBus
