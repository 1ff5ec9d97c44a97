import SovereignBus.Verifier.LeastSquares

/-!
The limits of a caller's budget in `src/verifier/sov_verifier.c`.

* `InvDecides`, `SolDecides`, `LstsqDecides`: the inputs on which the engines come to a
  verdict, with the charges to the budget of the caller. `exists_stages`: without an overflow
  the stages of `sov_verify_lstsq` all have their values.
* `LimitsEnforced`: a verdict keeps the limits of the budget. The limit of the operations is
  always kept; those of the sizes are never looked at, the engines look at constants of their
  own. `limitsEnforced_iff`: so they are kept by the inputs that keep them, or get no verdict.
-/

namespace SovereignBus

namespace Verifier

open Checked

/-- The verdicts, as opposed to the errors. -/
def VerifyResult.Definitive (r : VerifyResult) : Prop := r = .ok ∨ r = .fail

/-- The sizes of a system are within the limits of a budget. A vector has no more cells than
the matrix. -/
structure WithinLimits (budget : SovResourceBudget) (m n : UInt64) : Prop where
  rows : m.toNat ≤ budget.maxDimensions.toNat
  cols : n.toNat ≤ budget.maxDimensions.toNat
  cells : m.toNat * n.toNat ≤ budget.maxCells.toNat

/-- What a call returns is no verdict, or it keeps the limits of its budget. -/
def LimitsEnforced (budget : SovResourceBudget) (m n : UInt64)
    (r : VerifyResult × Option SovResourceBudget) : Prop :=
  r.1.Definitive →
    WithinLimits budget m n
      ∧ ∃ after, r.2 = some after ∧ after.operationCount.toNat ≤ budget.maxOperations.toNat

lemma definitive_ite (p : Prop) [Decidable p] :
    (if p then VerifyResult.ok else .fail).Definitive := by
  split_ifs
  · exact .inl rfl
  · exact .inr rfl

/-- Where the operations are kept, only the sizes of decided inputs matter. -/
lemma limitsEnforced_iff_of_decides {budget : SovResourceBudget} {m n : UInt64}
    {r : VerifyResult × Option SovResourceBudget} {decides : Prop}
    (hdecides : r.1.Definitive ↔ decides)
    (hops : r.1.Definitive →
      ∃ after, r.2 = some after ∧ after.operationCount.toNat ≤ budget.maxOperations.toNat) :
    LimitsEnforced budget m n r ↔ WithinLimits budget m n ∨ ¬ decides := by
  constructor
  · intro henforced
    by_cases h : decides
    · exact .inl (henforced (hdecides.2 h)).1
    · exact .inr h
  · rintro (hwithin | hnot) hdefinitive
    · exact ⟨hwithin, hops hdefinitive⟩
    · exact absurd (hdecides.1 hdefinitive) hnot

/-! ### Charges -/

/-- An accepted charge keeps the limit of the operations, and the limit itself. -/
lemma sovAddOperationCost_le {budget : SovResourceBudget} {cost : UInt64}
    (h : (sovAddOperationCost budget cost).1 = .ok) :
    (sovAddOperationCost budget cost).2.operationCount.toNat ≤ budget.maxOperations.toNat
      ∧ (sovAddOperationCost budget cost).2.maxOperations = budget.maxOperations := by
  simp only [sovAddOperationCost] at h ⊢
  split_ifs at h ⊢ with hwrap hover
  exact ⟨UInt64.le_iff_toNat_le.mp (UInt64.not_lt.mp hover), rfl⟩

lemma chargeProduct_le {budget : SovResourceBudget} {m n : UInt64}
    (h : (chargeProduct m n (some budget)).1 = .ok) :
    ∃ after, (chargeProduct m n (some budget)).2 = some after
      ∧ after.operationCount.toNat ≤ budget.maxOperations.toNat
      ∧ after.maxOperations = budget.maxOperations := by
  simp only [chargeProduct] at h ⊢
  split_ifs at h ⊢
  exact ⟨_, rfl, sovAddOperationCost_le h⟩

lemma chargeMatrixProduct_le {budget : SovResourceBudget} {m n p : UInt64}
    (h : (chargeMatrixProduct m n p (some budget)).1 = .ok) :
    ∃ after, (chargeMatrixProduct m n p (some budget)).2 = some after
      ∧ after.operationCount.toNat ≤ budget.maxOperations.toNat := by
  simp only [chargeMatrixProduct] at h ⊢
  split_ifs at h ⊢
  exact ⟨_, rfl, (sovAddOperationCost_le h).1⟩

/-! ### `sov_verify_inv` -/

/-- The inputs on which `sov_verify_inv` comes to a verdict. -/
def InvDecides (malloc : UInt64 → Bool) (A : Buffer) (aLen : UInt64) (X : Buffer)
    (xLen n : UInt64) (budget : SovResourceBudget) : Prop :=
  ∃ a x, A = some a ∧ X = some x ∧ InvChecksPass malloc A aLen X xLen n (some budget)
    ∧ ∀ i < n.toNat, ∀ j < n.toNat, ¬ CellOverflows a x n.toNat n.toNat i j

lemma sovVerifyInv_definitive_iff (malloc : UInt64 → Bool) (A : Buffer) (aLen : UInt64)
    (X : Buffer) (xLen n : UInt64) (budget : SovResourceBudget) :
    (sovVerifyInv malloc A aLen X xLen n (some budget)).1.Definitive
      ↔ InvDecides malloc A aLen X xLen n budget := by
  match A, X with
  | none, _ =>
      refine iff_of_false (by simp [sovVerifyInv, VerifyResult.Definitive]) ?_
      rintro ⟨a, x, h, -⟩
      exact absurd h (by simp)
  | some a, none =>
      refine iff_of_false (by simp [sovVerifyInv, VerifyResult.Definitive]) ?_
      rintro ⟨a', x, -, h, -⟩
      exact absurd h (by simp)
  | some a, some x =>
      constructor
      · intro hdefinitive
        have hpass : InvChecksPass malloc (some a) aLen (some x) xLen n (some budget) := by
          by_contra hpass
          obtain ⟨hok, hfail⟩ := sovVerifyInv_of_not_pass hpass
          exact hdefinitive.elim hok hfail
        refine ⟨a, x, rfl, rfl, hpass, fun i hi j hj hover => ?_⟩
        have hres := sovVerifyInv_overflow hpass ⟨i, hi, j, hj, hover⟩
        rw [VerifyResult.Definitive, hres] at hdefinitive
        exact absurd hdefinitive (by simp)
      · rintro ⟨a', x', ha, hx, hpass, hcells⟩
        obtain rfl := Option.some.inj ha
        obtain rfl := Option.some.inj hx
        exact (sovVerifyInv_verdict hpass hcells).imp And.left And.left

/-- A verdict on an inverse comes with an accepted charge. -/
lemma sovVerifyInv_operations {malloc : UInt64 → Bool} {A : Buffer} {aLen : UInt64} {X : Buffer}
    {xLen n : UInt64} {budget : SovResourceBudget}
    (h : InvDecides malloc A aLen X xLen n budget) :
    ∃ after, (sovVerifyInv malloc A aLen X xLen n (some budget)).2 = some after
      ∧ after.operationCount.toNat ≤ budget.maxOperations.toNat := by
  obtain ⟨a, x, rfl, rfl, hpass, -⟩ := h
  obtain ⟨after, hafter, hle⟩ := chargeMatrixProduct_le hpass.charged
  have hdim := hpass.dimensions
  obtain ⟨hn, hlimits, halloc, hcharged⟩ := hpass
  obtain ⟨product, hproduct⟩ := Option.isSome_iff_exists.mp halloc
  have hdata := safeAllocMatrix_data (mul_self_ne_zero_of_dimensions hdim hn) hproduct
  refine ⟨after, ?_, hle⟩
  rw [Option.getD_some] at hcharged
  simp only [sovVerifyInv, Option.isNone_some, Bool.false_eq_true, or_self, if_false, hn, hlimits,
    ne_eq, not_true, hproduct, sovMatrixMultWithBudget, hdata, hcharged, Option.getD_some,
    Option.isSome_some, if_true]
  exact hafter

/-! ### `sov_verify_sol` -/

/-- The inputs on which `sov_verify_sol` comes to a verdict. -/
def SolDecides (malloc : UInt64 → Bool) (A : Buffer) (aLen : UInt64) (x : Buffer) (xLen : UInt64)
    (b : Buffer) (bLen m n : UInt64) (budget : SovResourceBudget) : Prop :=
  ∃ a y c, A = some a ∧ x = some y ∧ b = some c
    ∧ ChecksPass malloc A aLen x xLen b bLen m n (some budget)
    ∧ ∀ i < m.toNat, ¬ RowOverflows a y n.toNat i

lemma sovVerifySol_definitive_iff (malloc : UInt64 → Bool) (A : Buffer) (aLen : UInt64)
    (x : Buffer) (xLen : UInt64) (b : Buffer) (bLen m n : UInt64) (budget : SovResourceBudget) :
    (sovVerifySol malloc A aLen x xLen b bLen m n (some budget)).1.Definitive
      ↔ SolDecides malloc A aLen x xLen b bLen m n budget := by
  match A, x, b with
  | none, _, _ | some _, none, _ | some _, some _, none =>
      refine iff_of_false (by simp [sovVerifySol, VerifyResult.Definitive]) ?_
      rintro ⟨a, y, c, hA, hx, hb, -⟩
      simp at hA hx hb
  | some a, some y, some c =>
      constructor
      · intro hdefinitive
        have hpass : ChecksPass malloc (some a) aLen (some y) xLen (some c) bLen m n
            (some budget) := by
          by_contra hpass
          obtain ⟨hok, hfail⟩ := sovVerifySol_of_not_pass hpass
          exact hdefinitive.elim hok hfail
        refine ⟨a, y, c, rfl, rfl, rfl, hpass, fun i hi hover => ?_⟩
        have hres := sovVerifySol_overflow hpass ⟨i, hi, hover⟩
        rw [VerifyResult.Definitive, hres] at hdefinitive
        exact absurd hdefinitive (by simp)
      · rintro ⟨a', y', c', ha, hy, hc, hpass, hrows⟩
        obtain rfl := Option.some.inj ha
        obtain rfl := Option.some.inj hy
        obtain rfl := Option.some.inj hc
        exact (sovVerifySol_verdict hpass hrows).imp And.left And.left

/-- A verdict on a solution comes with an accepted charge. -/
lemma sovVerifySol_operations {malloc : UInt64 → Bool} {A : Buffer} {aLen : UInt64} {x : Buffer}
    {xLen : UInt64} {b : Buffer} {bLen m n : UInt64} {budget : SovResourceBudget}
    (h : SolDecides malloc A aLen x xLen b bLen m n budget) :
    ∃ after, (sovVerifySol malloc A aLen x xLen b bLen m n (some budget)).2 = some after
      ∧ after.operationCount.toNat ≤ budget.maxOperations.toNat := by
  obtain ⟨a, y, c, rfl, rfl, rfl, hpass, -⟩ := h
  obtain ⟨after, hafter, hle, -⟩ := chargeProduct_le hpass.charged
  obtain ⟨hm, hn, hlimits, halloc, hcharged⟩ := hpass
  obtain ⟨product, hproduct⟩ := Option.isSome_iff_exists.mp halloc
  have hdata := safeAllocMatrix_data (by simpa using hm) hproduct
  refine ⟨after, ?_, hle⟩
  rw [Option.getD_some] at hcharged
  simp only [sovVerifySol, Option.isNone_some, Bool.false_eq_true, or_self, if_false, hm, hn,
    hlimits, ne_eq, not_true, hproduct, sovMatrixVecMultWithBudget, hdata, hcharged,
    Option.getD_some, Option.isSome_some, if_true]
  exact hafter

/-! ### `sov_verify_lstsq` -/

/-- Every check of `sov_verify_lstsq` passes: its three allocations succeed, and the budget
takes the charge for the product twice. -/
structure LstsqChecksPass (malloc : ℕ → UInt64 → Bool) (A : Buffer) (aLen : UInt64) (x : Buffer)
    (xLen : UInt64) (b : Buffer) (bLen m n : UInt64) (budget : SovResourceBudget) : Prop where
  rows : m ≠ 0
  cols : n ≠ 0
  limits : solChecks A aLen x xLen b bLen m n = .ok
  product : (safeAllocMatrix (malloc 0) 1 m).isSome
  residual : (safeAllocMatrix (malloc 1) 1 m).isSome
  result : (safeAllocMatrix (malloc 2) 1 n).isSome
  charged : (chargeProduct m n (some budget)).1 = .ok
  chargedAgain : ∀ work, (chargeProduct m n (some budget)).2 = some work →
    (sovAddOperationCost work (m * n)).1 = .ok

/-- The inputs on which `sov_verify_lstsq` comes to a verdict. -/
def LstsqDecides (malloc : ℕ → UInt64 → Bool) (A : Buffer) (aLen : UInt64) (x : Buffer)
    (xLen : UInt64) (b : Buffer) (bLen m n : UInt64) (budget : SovResourceBudget) : Prop :=
  ∃ a y c, A = some a ∧ x = some y ∧ b = some c
    ∧ LstsqChecksPass malloc A aLen x xLen b bLen m n budget
    ∧ ¬ LstsqOverflows a y c m.toNat n.toNat

section Stages

variable {malloc : ℕ → UInt64 → Bool} {A x b : ℕ → Int64} {aLen xLen bLen m n : UInt64}
  {budget : SovResourceBudget}

/-- Without an overflow all stages have their values. -/
lemma exists_stages (hdim : sovCheckDimensions m n = .ok)
    (h : ¬ LstsqOverflows A x b m.toNat n.toNat) :
    ∃ values r result, Stages A x b m n values r result := by
  rw [LstsqOverflows, not_or, not_or] at h
  push Not at h
  obtain ⟨hrows, hfits, hcols⟩ := h
  obtain ⟨values, hvalues, hexact⟩ := matrixVec_ok hdim hrows
  have hresidual : ∀ i < m.toNat, ∃ d, (if (subOverflow (values.getD i 0) (b i)).1 then
        .error .overflow else .ok (subOverflow (values.getD i 0) (b i)).2 :
          Except VerifyResult Int64) = .ok d ∧ d.toInt = exactResidual A x b n.toNat i := by
    intro i hi
    have hd : Fits ((values.getD i 0).toInt - (b i).toInt) := by
      rw [hexact i hi]
      exact hfits i hi
    refine ⟨_, if_neg ?_, ?_⟩
    · rw [subOverflow_iff, not_not]
      exact hd
    · rw [subOverflow_exact hd, hexact i hi, exactResidual]
  obtain ⟨r, hr, hlen, hres⟩ := mapM_range_ok hresidual
  have hrexact : ∀ j < m.toNat, (r.getD j 0).toInt = exactResidual A x b n.toNat j := by
    intro j hj
    rw [List.getD_eq_getElem _ _ (by omega)]
    exact hres j (by omega)
  have hcolumn : ∀ i < n.toNat, ∃ c, columnProduct A r m n i = .ok c ∧ True := by
    intro i hi
    rw [columnProduct, foldlM_congr (fun j hj c => by
      rw [index_toNat hdim (List.mem_range.mp hj) hi])]
    have hdot : ¬ DotOverflows (fun j => (A (j * n.toNat + i)).toInt)
        (fun j => (r.getD j 0).toInt) m.toNat := fun hover =>
      hcols i hi ((dotOverflows_congr hrexact).mp hover)
    obtain ⟨c, hc, -⟩ :=
      checkedDot_ok (a := fun j => A (j * n.toNat + i)) (x := fun j => r.getD j 0) hdot
    exact ⟨c, hc, trivial⟩
  obtain ⟨result, hresult, -⟩ := mapM_range_ok hcolumn
  exact ⟨values, r, result, hvalues, hr, hresult⟩

/-- A product that is computed has been charged. -/
lemma sovMatrixVecMult_charged {result : Bool} {values : List Int64}
    (h : (sovMatrixVecMultWithBudget (some A) (some x) result m n (some budget)).1 = .ok values) :
    (chargeProduct m n (some budget)).1 = .ok
      ∧ (sovMatrixVecMultWithBudget (some A) (some x) result m n (some budget)).2
          = (chargeProduct m n (some budget)).2 := by
  cases result with
  | false => exact absurd h (by simp [sovMatrixVecMultWithBudget])
  | true =>
      simp only [sovMatrixVecMultWithBudget] at h ⊢
      split_ifs at h ⊢ with hcharged
      exact ⟨not_not.mp hcharged, rfl⟩

/-- A verdict behind the checks comes from three allocations and two charges. -/
lemma lstsqStages_definitive (h : (lstsqStages malloc A x b m n budget).1.Definitive) :
    (safeAllocMatrix (malloc 0) 1 m).isSome ∧ (safeAllocMatrix (malloc 1) 1 m).isSome
      ∧ (safeAllocMatrix (malloc 2) 1 n).isSome ∧ (chargeProduct m n (some budget)).1 = .ok
      ∧ ∀ work, (chargeProduct m n (some budget)).2 = some work →
          (sovAddOperationCost work (m * n)).1 = .ok := by
  rw [lstsqStages] at h
  cases hax : safeAllocMatrix (malloc 0) 1 m with
  | none => simp [hax, VerifyResult.Definitive] at h
  | some ax =>
      rcases sovMatrixVecMult_cases A x ax.data m n budget with
        ⟨res, herr, hres⟩ | ⟨values, hok, -⟩
      · simp only [hax, herr] at h
        exact absurd h (not_or.mpr hres)
      obtain ⟨hcharged, hwork⟩ := sovMatrixVecMult_charged hok
      simp only [hax, hok, hwork] at h
      cases hres : safeAllocMatrix (malloc 1) 1 m with
      | none => simp [hres, VerifyResult.Definitive] at h
      | some _ =>
          cases hr : residuals values b m with
          | error res =>
              obtain rfl := residuals_eq_error hr
              simp [hres, hr, VerifyResult.Definitive] at h
          | ok r =>
              cases hresult : safeAllocMatrix (malloc 2) 1 n with
              | none => simp [hres, hr, hresult, VerifyResult.Definitive] at h
              | some _ =>
                  refine ⟨rfl, rfl, rfl, hcharged, fun work hw => ?_⟩
                  simp only [hres, hr, hresult, hw, Option.getD_some] at h
                  by_contra hne
                  rw [if_pos hne] at h
                  exact h.elim hne (sovAddOperationCost_ne_fail _ _)

/-- Past the pointers and the zeros the engine runs its stages behind the checks. -/
lemma sovVerifyLstsq_eq (hm : m ≠ 0) (hn : n ≠ 0)
    (hlimits : solChecks (some A) aLen (some x) xLen (some b) bLen m n = .ok) :
    sovVerifyLstsq malloc (some A) aLen (some x) xLen (some b) bLen m n (some budget)
      = ((lstsqStages malloc A x b m n budget).1,
          some (lstsqStages malloc A x b m n budget).2) := by
  simp [sovVerifyLstsq, hm, hn, hlimits]

/-- A verdict comes from inputs that pass the checks, and have no overflow. -/
lemma LstsqChecksPass.of_definitive
    (h : (sovVerifyLstsq malloc (some A) aLen (some x) xLen (some b) bLen m n
      (some budget)).1.Definitive) :
    LstsqChecksPass malloc (some A) aLen (some x) xLen (some b) bLen m n budget
      ∧ ¬ LstsqOverflows A x b m.toNat n.toNat := by
  have hover : ¬ LstsqOverflows A x b m.toNat n.toNat := by
    rcases sovVerifyLstsq_cases malloc A x b aLen xLen bLen m n (some budget) with
      hnot | ⟨hdim, values, r, zs, hstages, -⟩
    · exact absurd h (not_or.mpr hnot)
    · exact (lstsq_values hdim hstages).1
  by_cases hm : m = 0
  · simp [sovVerifyLstsq, hm, VerifyResult.Definitive] at h
  by_cases hn : n = 0
  · simp [sovVerifyLstsq, hn, VerifyResult.Definitive] at h
  by_cases hlimits : solChecks (some A) aLen (some x) xLen (some b) bLen m n = .ok
  · rw [sovVerifyLstsq_eq hm hn hlimits] at h
    obtain ⟨hax, hres, hresult, hcharged, hagain⟩ := lstsqStages_definitive h
    exact ⟨⟨hm, hn, hlimits, hax, hres, hresult, hcharged, hagain⟩, hover⟩
  · simp [sovVerifyLstsq, hm, hn, hlimits, VerifyResult.Definitive, solChecks_ne_fail] at h

/-- Past the checks and without an overflow there is a verdict, and both charges are
accepted. -/
lemma sovVerifyLstsq_of_pass
    (hpass : LstsqChecksPass malloc (some A) aLen (some x) xLen (some b) bLen m n budget)
    (hfits : ¬ LstsqOverflows A x b m.toNat n.toNat) :
    (sovVerifyLstsq malloc (some A) aLen (some x) xLen (some b) bLen m n
        (some budget)).1.Definitive
      ∧ ∃ after, (sovVerifyLstsq malloc (some A) aLen (some x) xLen (some b) bLen m n
          (some budget)).2 = some after
        ∧ after.operationCount.toNat ≤ budget.maxOperations.toNat := by
  obtain ⟨hm, hn, hlimits, hax, hres, hresult, hcharged, hagain⟩ := hpass
  obtain ⟨ax, hax⟩ := Option.isSome_iff_exists.mp hax
  obtain ⟨residual, hres⟩ := Option.isSome_iff_exists.mp hres
  obtain ⟨result, hresult⟩ := Option.isSome_iff_exists.mp hresult
  obtain ⟨work, hwork, -, hmax⟩ := chargeProduct_le hcharged
  obtain ⟨values, r, zs, hstages⟩ := exists_stages (andThen_eq_ok.mp hlimits).1 hfits
  have hdata := safeAllocMatrix_data (by simpa using hm) hax
  have hlast := sovAddOperationCost_le (hagain work hwork)
  have hrun : lstsqStages malloc A x b m n budget
      = (if allZero zs n then .ok else .fail, (sovAddOperationCost work (m * n)).2) := by
    simp only [lstsqStages, hax, hdata, sovMatrixVecMultWithBudget, hcharged, hwork, ne_eq,
      not_true, if_false, hstages.product, hres, hstages.residual, hresult, Option.getD_some,
      hagain work hwork, hstages.columns]
  rw [sovVerifyLstsq_eq hm hn hlimits, hrun]
  exact ⟨definitive_ite _, _, rfl, by rw [← hmax]; exact hlast.1⟩

end Stages

lemma sovVerifyLstsq_definitive_iff (malloc : ℕ → UInt64 → Bool) (A : Buffer) (aLen : UInt64)
    (x : Buffer) (xLen : UInt64) (b : Buffer) (bLen m n : UInt64) (budget : SovResourceBudget) :
    (sovVerifyLstsq malloc A aLen x xLen b bLen m n (some budget)).1.Definitive
      ↔ LstsqDecides malloc A aLen x xLen b bLen m n budget := by
  match A, x, b with
  | none, _, _ | some _, none, _ | some _, some _, none =>
      refine iff_of_false (by simp [sovVerifyLstsq, VerifyResult.Definitive]) ?_
      rintro ⟨a, y, c, hA, hx, hb, -⟩
      simp at hA hx hb
  | some a, some y, some c =>
      constructor
      · intro hdefinitive
        obtain ⟨hpass, hfits⟩ := LstsqChecksPass.of_definitive hdefinitive
        exact ⟨a, y, c, rfl, rfl, rfl, hpass, hfits⟩
      · rintro ⟨a', y', c', ha, hy, hc, hpass, hfits⟩
        obtain rfl := Option.some.inj ha
        obtain rfl := Option.some.inj hy
        obtain rfl := Option.some.inj hc
        exact (sovVerifyLstsq_of_pass hpass hfits).1

/-- A verdict on least squares comes with two accepted charges. -/
lemma sovVerifyLstsq_operations {malloc : ℕ → UInt64 → Bool} {A : Buffer} {aLen : UInt64}
    {x : Buffer} {xLen : UInt64} {b : Buffer} {bLen m n : UInt64} {budget : SovResourceBudget}
    (h : LstsqDecides malloc A aLen x xLen b bLen m n budget) :
    ∃ after, (sovVerifyLstsq malloc A aLen x xLen b bLen m n (some budget)).2 = some after
      ∧ after.operationCount.toNat ≤ budget.maxOperations.toNat := by
  obtain ⟨a, y, c, rfl, rfl, rfl, hpass, hfits⟩ := h
  exact (sovVerifyLstsq_of_pass hpass hfits).2

/-! ### All engines -/

/-- Each engine enforces the limits of the budget it is passed exactly on the systems whose
sizes are within them, and on those it does not come to a verdict about. -/
theorem limitsEnforced_iff (budget : SovResourceBudget) :
    (∀ (malloc : UInt64 → Bool) (A : Buffer) (aLen : UInt64) (X : Buffer) (xLen n : UInt64),
      LimitsEnforced budget n n (sovVerifyInv malloc A aLen X xLen n (some budget))
        ↔ WithinLimits budget n n ∨ ¬ InvDecides malloc A aLen X xLen n budget)
      ∧ (∀ (malloc : UInt64 → Bool) (A : Buffer) (aLen : UInt64) (x : Buffer) (xLen : UInt64)
          (b : Buffer) (bLen m n : UInt64),
        LimitsEnforced budget m n (sovVerifySol malloc A aLen x xLen b bLen m n (some budget))
          ↔ WithinLimits budget m n ∨ ¬ SolDecides malloc A aLen x xLen b bLen m n budget)
      ∧ ∀ (malloc : ℕ → UInt64 → Bool) (A : Buffer) (aLen : UInt64) (x : Buffer) (xLen : UInt64)
          (b : Buffer) (bLen m n : UInt64),
        LimitsEnforced budget m n (sovVerifyLstsq malloc A aLen x xLen b bLen m n (some budget))
          ↔ WithinLimits budget m n ∨ ¬ LstsqDecides malloc A aLen x xLen b bLen m n budget := by
  refine ⟨fun malloc A aLen X xLen n => ?_, fun malloc A aLen x xLen b bLen m n => ?_,
    fun malloc A aLen x xLen b bLen m n => ?_⟩
  · have hdecides := sovVerifyInv_definitive_iff malloc A aLen X xLen n budget
    exact limitsEnforced_iff_of_decides hdecides fun h => sovVerifyInv_operations (hdecides.1 h)
  · have hdecides := sovVerifySol_definitive_iff malloc A aLen x xLen b bLen m n budget
    exact limitsEnforced_iff_of_decides hdecides fun h => sovVerifySol_operations (hdecides.1 h)
  · have hdecides := sovVerifyLstsq_definitive_iff malloc A aLen x xLen b bLen m n budget
    exact limitsEnforced_iff_of_decides hdecides fun h => sovVerifyLstsq_operations (hdecides.1 h)

/-- A budget that allows no size at all, and a single operation. -/
def noSizes : SovResourceBudget := ⟨0, 0, 1, 0, false⟩

/-- The inverse of one number is accepted under that budget. -/
theorem not_limitsEnforced_noSizes :
    ¬ LimitsEnforced noSizes 1 1
      (sovVerifyInv (fun _ => true) (some fun _ => 1) 1 (some fun _ => 1) 1 1 (some noSizes)) := by
  intro henforced
  have hok : (sovVerifyInv (fun _ => true) (some fun _ => 1) 1 (some fun _ => 1) 1 1
      (some noSizes)).1 = .ok := by decide +kernel
  exact absurd (henforced (.inl hok)).1.rows (by decide)

end Verifier

end SovereignBus
