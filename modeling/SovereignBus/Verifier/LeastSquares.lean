import SovereignBus.Verifier.Inverse
import SovereignBus.Library.LeastSquares

/-!
The verifier of least squares of `src/verifier/sov_verifier.c`.

* `residuals`, `columnProduct`, `lstsqStages`, `sovVerifyLstsq`: the product, the
  residual, and the product with the transposed matrix, with the allocations and
  the charges between them.
* `sovVerifyLstsq_cases`: a verdict comes with the values of all three stages.
* `lstsq_values`: computed values are exact, and nothing on the way to them left
  the range.
* `sov_verify_lstsq_sound`: an accepted solution solves the normal equations over
  the integers, so no vector has a smaller residual.
-/

namespace SovereignBus

namespace Verifier

open Checked LeastSquares Matrix

/-- The loop of the residual. -/
def residuals (ax : List Int64) (b : ℕ → Int64) (m : UInt64) : Except VerifyResult (List Int64) :=
  (List.range m.toNat).mapM fun i =>
    let d := subOverflow (ax.getD i 0) (b i)
    if d.1 then .error .overflow else .ok d.2

/-- The inner loop of the transposed product: `result[i]`, over the rows `j`. -/
def columnProduct (A : ℕ → Int64) (r : List Int64) (m n : UInt64) (i : ℕ) :
    Except VerifyResult Int64 :=
  (List.range m.toNat).foldlM
    (fun c j => checkedMuladd c (A (UInt64.ofNat j * n + UInt64.ofNat i).toNat) (r.getD j 0)) 0

/-- The scan for a value that is not zero. -/
def allZero (result : List Int64) (n : UInt64) : Bool :=
  (List.range n.toNat).all fun i => result.getD i 0 == 0

/-- `sov_verify_lstsq` behind its checks: the verdict, and the budget that `work`
becomes. The three allocations may fail independently. -/
def lstsqStages (malloc : ℕ → UInt64 → Bool) (A x b : ℕ → Int64) (m n : UInt64)
    (work : SovResourceBudget) : VerifyResult × SovResourceBudget :=
  match safeAllocMatrix (malloc 0) 1 m with
  | none => (.allocFailure, work)
  | some ax =>
      let product := sovMatrixVecMultWithBudget (some A) (some x) ax.data m n (some work)
      let work := product.2.getD work
      match product.1 with
      | .error res => (res, work)
      | .ok values =>
          match safeAllocMatrix (malloc 1) 1 m with
          | none => (.allocFailure, work)
          | some _ =>
              match residuals values b m with
              | .error res => (res, work)
              | .ok r =>
                  match safeAllocMatrix (malloc 2) 1 n with
                  | none => (.allocFailure, work)
                  | some _ =>
                      let charged := sovAddOperationCost work (m * n)
                      if charged.1 ≠ .ok then charged
                      else
                        match (List.range n.toNat).mapM (columnProduct A r m n) with
                        | .error res => (res, charged.2)
                        | .ok result => (if allZero result n then .ok else .fail, charged.2)

/-- `sov_verify_lstsq`: the verdict and the caller's budget. Its checks are those
of `sov_verify_sol`. -/
def sovVerifyLstsq (malloc : ℕ → UInt64 → Bool) (A : Buffer) (aLen : UInt64) (x : Buffer)
    (xLen : UInt64) (b : Buffer) (bLen m n : UInt64) (budget : Option SovResourceBudget) :
    VerifyResult × Option SovResourceBudget :=
  match A, x, b with
  | some A, some x, some b =>
      if m = 0 ∨ n = 0 then (.dimensionMismatch, budget)
      else
        let work := budget.getD sovInitResourceBudget
        let checks := solChecks (some A) aLen (some x) xLen (some b) bLen m n
        if checks ≠ .ok then (checks, budget)
        else
          let r := lstsqStages malloc A x b m n work
          (r.1, if budget.isSome then some r.2 else none)
  | _, _, _ => (.nullInput, budget)

/-! ### What a verdict comes with -/

/-- The values of the three stages. -/
structure Stages (A x b : ℕ → Int64) (m n : UInt64) (values r result : List Int64) : Prop where
  product : (List.range m.toNat).mapM (rowProduct A x n) = .ok values
  residual : residuals values b m = .ok r
  columns : (List.range n.toNat).mapM (columnProduct A r m n) = .ok result

lemma rowProduct_eq_error {A x : ℕ → Int64} {n : UInt64} {i : ℕ} {res : VerifyResult}
    (h : rowProduct A x n i = .error res) : res = .overflow :=
  checkedDot_eq_error h

lemma columnProduct_eq_error {A : ℕ → Int64} {r : List Int64} {m n : UInt64} {i : ℕ}
    {res : VerifyResult} (h : columnProduct A r m n i = .error res) : res = .overflow :=
  checkedDot_eq_error h

lemma residuals_eq_error {ax : List Int64} {b : ℕ → Int64} {m : UInt64} {res : VerifyResult}
    (h : residuals ax b m = .error res) : res = .overflow := by
  obtain ⟨i, -, hi⟩ := mapM_eq_error h
  simp only at hi
  split_ifs at hi
  exact (Except.error.inj hi).symm

/-- A product is no verdict: it is computed, or it ends in an error. -/
lemma sovMatrixVecMult_cases (A x : ℕ → Int64) (result : Bool) (m n : UInt64)
    (work : SovResourceBudget) :
    (∃ res, (sovMatrixVecMultWithBudget (some A) (some x) result m n (some work)).1 = .error res
        ∧ res ≠ .ok ∧ res ≠ .fail)
      ∨ ∃ values, (sovMatrixVecMultWithBudget (some A) (some x) result m n (some work)).1
            = .ok values ∧ (List.range m.toNat).mapM (rowProduct A x n) = .ok values := by
  cases result with
  | false => exact Or.inl ⟨.nullInput, by simp [sovMatrixVecMultWithBudget]⟩
  | true =>
      simp only [sovMatrixVecMultWithBudget]
      split_ifs with hcharged
      · exact Or.inl ⟨_, rfl, hcharged, chargeProduct_ne_fail m n _⟩
      · cases hrows : (List.range m.toNat).mapM (rowProduct A x n) with
        | error res =>
            obtain ⟨i, -, hi⟩ := mapM_eq_error hrows
            obtain rfl := rowProduct_eq_error hi
            exact Or.inl ⟨.overflow, rfl, by simp, by simp⟩
        | ok values => exact Or.inr ⟨values, rfl, rfl⟩

/-- Behind the checks there is no verdict, or it comes with the values of all
stages. -/
lemma lstsqStages_cases (malloc : ℕ → UInt64 → Bool) (A x b : ℕ → Int64) (m n : UInt64)
    (work : SovResourceBudget) :
    ((lstsqStages malloc A x b m n work).1 ≠ .ok ∧ (lstsqStages malloc A x b m n work).1 ≠ .fail)
      ∨ ∃ values r result, Stages A x b m n values r result
          ∧ (lstsqStages malloc A x b m n work).1 = if allZero result n then .ok else .fail := by
  rw [lstsqStages]
  cases safeAllocMatrix (malloc 0) 1 m with
  | none => exact Or.inl (by simp)
  | some ax =>
      rcases sovMatrixVecMult_cases A x ax.data m n work with
        ⟨res, herr, hres⟩ | ⟨values, hok, hrows⟩
      · simp only [herr]
        exact Or.inl hres
      simp only [hok]
      cases safeAllocMatrix (malloc 1) 1 m with
      | none => exact Or.inl (by simp)
      | some _ =>
          cases hr : residuals values b m with
          | error res =>
              obtain rfl := residuals_eq_error hr
              exact Or.inl (by simp)
          | ok r =>
              cases safeAllocMatrix (malloc 2) 1 n with
              | none => exact Or.inl (by simp)
              | some _ =>
                  simp only
                  split_ifs with hcharged
                  · exact Or.inl ⟨hcharged, sovAddOperationCost_ne_fail _ _⟩
                  · cases hcols : (List.range n.toNat).mapM (columnProduct A r m n) with
                    | error res =>
                        obtain ⟨i, -, hi⟩ := mapM_eq_error hcols
                        obtain rfl := columnProduct_eq_error hi
                        exact Or.inl (by simp)
                    | ok result => exact Or.inr ⟨values, r, result, ⟨hrows, hr, hcols⟩, rfl⟩

/-- A verdict comes with dimensions within the limits and the values of all
stages. -/
lemma sovVerifyLstsq_cases (malloc : ℕ → UInt64 → Bool) (A x b : ℕ → Int64)
    (aLen xLen bLen m n : UInt64) (budget : Option SovResourceBudget) :
    let result := (sovVerifyLstsq malloc (some A) aLen (some x) xLen (some b) bLen m n budget).1
    (result ≠ .ok ∧ result ≠ .fail)
      ∨ sovCheckDimensions m n = .ok
        ∧ ∃ values r zs, Stages A x b m n values r zs
          ∧ result = if allZero zs n then .ok else .fail := by
  intro result
  by_cases hzero : m = 0 ∨ n = 0
  · exact Or.inl (by simp [result, sovVerifyLstsq, hzero])
  by_cases hlimits : solChecks (some A) aLen (some x) xLen (some b) bLen m n = .ok
  · have hresult :
        result = (lstsqStages malloc A x b m n (budget.getD sovInitResourceBudget)).1 := by
      simp [result, sovVerifyLstsq, hzero, hlimits]
    rw [hresult]
    rcases lstsqStages_cases malloc A x b m n (budget.getD sovInitResourceBudget) with h | h
    · exact Or.inl h
    · exact Or.inr ⟨(andThen_eq_ok.mp hlimits).1, h⟩
  · exact Or.inl (by simp [result, sovVerifyLstsq, hzero, hlimits, solChecks_ne_fail])

/-! ### Exact values -/

/-- The exact residual of the row `i`. -/
def exactResidual (A x b : ℕ → Int64) (n i : ℕ) : ℤ := partialSum A x n i n - (b i).toInt

/-- The exact entry `i` of the transposed product with the residual. -/
def gradient (A x b : ℕ → Int64) (m n i : ℕ) : ℤ :=
  ∑ j ∈ Finset.range m, (A (j * n + i)).toInt * exactResidual A x b n j

/-- Some product, partial sum or difference on the way to the verdict leaves the
range. -/
def LstsqOverflows (A x b : ℕ → Int64) (m n : ℕ) : Prop :=
  (∃ i < m, RowOverflows A x n i)
    ∨ (∃ i < m, ¬ Fits (exactResidual A x b n i))
    ∨ ∃ i < n, DotOverflows (fun j => (A (j * n + i)).toInt) (exactResidual A x b n) m

/-- A dot product looks at no more than `n` members. -/
lemma dotOverflows_congr {a x y : ℕ → ℤ} {n : ℕ} (h : ∀ j < n, x j = y j) :
    DotOverflows a x n ↔ DotOverflows a y n := by
  rw [DotOverflows, DotOverflows]
  refine exists_congr fun j => and_congr_right fun hj => ?_
  rw [h j hj, Finset.sum_congr rfl fun k hk => by
    rw [h k (by have := Finset.mem_range.mp hk; omega)]]

/-- Computed values are exact, and nothing on the way to them left the range. -/
lemma lstsq_values {A x b : ℕ → Int64} {m n : UInt64} (hdim : sovCheckDimensions m n = .ok)
    {values r result : List Int64} (h : Stages A x b m n values r result) :
    ¬ LstsqOverflows A x b m.toNat n.toNat
      ∧ ∀ i < n.toNat, (result.getD i 0).toInt = gradient A x b m.toNat n.toNat i := by
  have hrow : ∀ i < m.toNat, ¬ RowOverflows A x n.toNat i
      ∧ (values.getD i 0).toInt = partialSum A x n.toNat i n.toNat := by
    intro i hi
    have hi' := mapM_range_eq_ok h.product 0 i hi
    rw [rowProduct_eq hdim A x hi] at hi'
    exact checkedDot_eq_ok hi'
  have hres : ∀ i < m.toNat, Fits (exactResidual A x b n.toNat i)
      ∧ (r.getD i 0).toInt = exactResidual A x b n.toNat i := by
    intro i hi
    have hi' := mapM_range_eq_ok h.residual 0 i hi
    rw [exactResidual, ← (hrow i hi).2]
    simp only at hi'
    split_ifs at hi' with hover
    have hfits := not_not.mp fun h => hover ((subOverflow_iff _ _).mpr h)
    rw [← Except.ok.inj hi']
    exact ⟨hfits, subOverflow_exact hfits⟩
  have hcol : ∀ i < n.toNat,
      ¬ DotOverflows (fun j => (A (j * n.toNat + i)).toInt) (exactResidual A x b n.toNat) m.toNat
        ∧ (result.getD i 0).toInt = gradient A x b m.toNat n.toNat i := by
    intro i hi
    have hi' := mapM_range_eq_ok h.columns 0 i hi
    rw [columnProduct, foldlM_congr (fun j hj c => by
      rw [index_toNat hdim (List.mem_range.mp hj) hi])] at hi'
    obtain ⟨hover, hval⟩ :=
      checkedDot_eq_ok (a := fun j => A (j * n.toNat + i)) (x := fun j => r.getD j 0) hi'
    refine ⟨fun ho => hover ((dotOverflows_congr fun j hj => (hres j hj).2).mpr ho), ?_⟩
    calc (result.getD i 0).toInt
        = ∑ j ∈ Finset.range m.toNat,
            (A (j * n.toNat + i)).toInt * (r.getD j 0).toInt := hval
      _ = gradient A x b m.toNat n.toNat i := by
          refine Finset.sum_congr rfl fun j hj => ?_
          rw [(hres j (Finset.mem_range.mp hj)).2]
  refine ⟨?_, fun i hi => (hcol i hi).2⟩
  rintro (⟨i, hi, ho⟩ | ⟨i, hi, ho⟩ | ⟨i, hi, ho⟩)
  · exact (hrow i hi).1 ho
  · exact ho (hres i hi).1
  · exact (hcol i hi).1 ho

/-! ### The normal equations -/

/-- The entries of a vector over the integers. -/
def vector (x : ℕ → Int64) (n : ℕ) : Fin n → ℤ := fun j => (x j).toInt

lemma residual_entries (A x b : ℕ → Int64) {m n : ℕ} (i : Fin m) :
    residualVector (entries A m n) (vector x n) (vector b m) i = exactResidual A x b n i := by
  rw [residualVector, Pi.sub_apply, exactResidual, partialSum, ← Fin.sum_univ_eq_sum_range
    fun k => (A (i * n + k)).toInt * (x k).toInt]
  rfl

lemma normal_entries_iff (A x b : ℕ → Int64) (m n : ℕ) :
    SolvesNormal (entries A m n) (vector x n) (vector b m) ↔ ∀ i < n, gradient A x b m n i = 0 := by
  have hcol : ∀ i : Fin n,
      ((entries A m n)ᵀ *ᵥ residualVector (entries A m n) (vector x n) (vector b m)) i
        = gradient A x b m n i := by
    intro i
    rw [gradient, ← Fin.sum_univ_eq_sum_range
      fun j => (A (j * n + i)).toInt * exactResidual A x b n j]
    simp only [← residual_entries]
    rfl
  rw [SolvesNormal, funext_iff, Fin.forall_iff]
  exact forall₂_congr fun i hi => by rw [hcol ⟨i, hi⟩]; rfl

lemma allZero_iff {result : List Int64} {n : UInt64} {t : ℕ → ℤ}
    (h : ∀ i < n.toNat, (result.getD i 0).toInt = t i) :
    allZero result n = true ↔ ∀ i < n.toNat, t i = 0 := by
  rw [allZero, List.all_eq_true]
  simp only [List.mem_range, beq_iff_eq]
  refine forall₂_congr fun i hi => ?_
  rw [← h i hi, ← Int64.toInt_inj]
  rfl

/-- The verdicts of `sov_verify_lstsq`, for every budget: an accepted vector
solves the normal equations over the integers and has the smallest residual of
all rational vectors, a rejected one does not solve them, and there is no verdict
when a product, a partial sum or a difference leaves the range of `int64_t`. -/
theorem sov_verify_lstsq_sound (malloc : ℕ → UInt64 → Bool) (A x b : ℕ → Int64)
    (aLen xLen bLen m n : UInt64) (budget : Option SovResourceBudget) :
    let result := (sovVerifyLstsq malloc (some A) aLen (some x) xLen (some b) bLen m n budget).1
    let A' := entries A m.toNat n.toNat
    let x' := vector x n.toNat
    let b' := vector b m.toNat
    let cast := Int.castRingHom ℚ
    (result = .ok → A'ᵀ *ᵥ (A' *ᵥ x' - b') = 0
        ∧ ∀ y : Fin n.toNat → ℚ,
            sqNorm (A'.map cast *ᵥ (cast ∘ x') - cast ∘ b')
              ≤ sqNorm (A'.map cast *ᵥ y - cast ∘ b'))
      ∧ (result = .fail → A'ᵀ *ᵥ (A' *ᵥ x' - b') ≠ 0)
      ∧ (LstsqOverflows A x b m.toNat n.toNat → result ≠ .ok ∧ result ≠ .fail) := by
  intro result A' x' b' cast
  have hnormal : SolvesNormal A' x' b' ↔ ∀ i < n.toNat, gradient A x b m.toNat n.toNat i = 0 :=
    normal_entries_iff A x b m.toNat n.toNat
  rcases sovVerifyLstsq_cases malloc A x b aLen xLen bLen m n budget with
    ⟨hok, hfail⟩ | ⟨hdim, values, r, zs, hstages, hresult⟩
  · exact ⟨fun h => absurd h hok, fun h => absurd h hfail, fun _ => ⟨hok, hfail⟩⟩
  · obtain ⟨hfits, hvalues⟩ := lstsq_values hdim hstages
    have hzero : allZero zs n = true ↔ SolvesNormal A' x' b' :=
      (allZero_iff hvalues).trans hnormal.symm
    refine ⟨fun h => ?_, fun h => ?_, fun ho => absurd ho hfits⟩
    · have hn : SolvesNormal A' x' b' := by
        by_contra hn
        rw [show result = .fail from hresult.trans (if_neg fun hz => hn (hzero.mp hz))] at h
        exact absurd h (by simp)
      exact ⟨hn, fun y => sq_residual_le_of_normal (hn.map cast) y⟩
    · intro hn
      rw [show result = .ok from hresult.trans (if_pos (hzero.mpr hn))] at h
      exact absurd h (by simp)

end Verifier

end SovereignBus
