import SovereignBus.Library.Checked

/-!
The limits of `src/verifier/sov_verifier.c`: results, budgets, and the checks a
verifier makes before it computes.

* `VerifyResult`, `SovResourceBudget`, `SafeMatrix`: the types of the header.
  A `size_t` is a `UInt64`, and a pointer to `int64_t`s a `Buffer`.
* `safeAllocMatrix`, `validateMatrixBuffer`, `sovCheckDimensions`,
  `sovCheckMatrixCells`, `sovAddOperationCost`, `sovInitResourceBudget`: the
  functions of the source.
-/

namespace SovereignBus

namespace Verifier

inductive VerifyResult where
  | ok
  | fail
  | overflow
  | dimensionMismatch
  | nullInput
  | singular
  | allocFailure
  | bufferOverflow
  | dimsExceeded
  | cellsExceeded
  | opsExceeded
  | resourceExceeded
  deriving DecidableEq

/-- A pointer to `int64_t`s: `NULL`, or the values behind it. -/
abbrev Buffer := Option (ℕ → Int64)

/-- `SIZE_MAX`. -/
def sizeMax : UInt64 := UInt64.ofNat (2 ^ 64 - 1)

/-- `SOV_MAX_MATRIX_DIM`. -/
def sovMaxMatrixDim : UInt64 := 65536

/-- `SOV_MAX_MATRIX_CELLS`. -/
def sovMaxMatrixCells : UInt64 := 268435456

/-- `SOV_OPERATION_BUDGET_PER_CALL`. -/
def sovOperationBudgetPerCall : UInt64 := 100000000

structure SovResourceBudget where
  maxDimensions : UInt64
  maxCells : UInt64
  maxOperations : UInt64
  operationCount : UInt64
  budgetExceeded : Bool

/-- The matrix `safe_alloc_matrix` allocates; `data` tells whether the pointer
is not `NULL`. -/
structure SafeMatrix where
  rows : UInt64
  cols : UInt64
  data : Bool
  capacity : UInt64

/-- `safe_alloc_matrix`; `malloc` tells which sizes can be allocated. -/
def safeAllocMatrix (malloc : UInt64 → Bool) (rows cols : UInt64) : Option SafeMatrix :=
  if rows > 0 ∧ cols > sizeMax / rows then none
  else
    let nelems := rows * cols
    if nelems > 0 ∧ nelems > sizeMax / 8 then none
    else if malloc 32 = false then none
    else if nelems > 0 then
      if malloc (nelems * 8) then some ⟨rows, cols, true, nelems⟩ else none
    else some ⟨rows, cols, false, nelems⟩

def validateMatrixBuffer (data : Buffer) (declaredRows declaredCols actualCapacity : UInt64) :
    VerifyResult :=
  if data.isNone then .nullInput
  else if declaredRows > 0 ∧ declaredCols > sizeMax / declaredRows then .overflow
  else if declaredRows * declaredCols > actualCapacity then .bufferOverflow
  else .ok

def sovCheckDimensions (n m : UInt64) : VerifyResult :=
  if n > sovMaxMatrixDim ∨ m > sovMaxMatrixDim then .dimsExceeded else .ok

def sovCheckMatrixCells (rows cols : UInt64) : VerifyResult :=
  if rows > 0 ∧ cols > sizeMax / rows then .overflow
  else if rows * cols > sovMaxMatrixCells then .cellsExceeded
  else .ok

/-- `sov_add_operation_cost`: the result and the budget it leaves. -/
def sovAddOperationCost (budget : SovResourceBudget) (cost : UInt64) :
    VerifyResult × SovResourceBudget :=
  if cost > 0 ∧ budget.operationCount > sizeMax - cost then
    (.opsExceeded, { budget with budgetExceeded := true })
  else
    let budget := { budget with operationCount := budget.operationCount + cost }
    if budget.operationCount > budget.maxOperations then
      (.opsExceeded, { budget with budgetExceeded := true })
    else (.ok, budget)

/-- The budget `sov_init_resource_budget` sets up. -/
def sovInitResourceBudget : SovResourceBudget :=
  ⟨sovMaxMatrixDim, sovMaxMatrixCells, sovOperationBudgetPerCall, 0, false⟩

/-- A check and, if it passes, the next one. -/
def VerifyResult.andThen (r next : VerifyResult) : VerifyResult := if r ≠ .ok then r else next

/-! ### What the checks make sure of -/

lemma andThen_eq_ok {r next : VerifyResult} : r.andThen next = .ok ↔ r = .ok ∧ next = .ok := by
  rw [VerifyResult.andThen]
  split_ifs with h
  · simp [h]
  · simp [not_not.mp h]

/-- No check is a verdict, and neither is one check after another. -/
lemma andThen_ne_fail {r next : VerifyResult} (hr : r ≠ .fail) (hnext : next ≠ .fail) :
    r.andThen next ≠ .fail := by
  rw [VerifyResult.andThen]
  split_ifs
  · exact hr
  · exact hnext

lemma validateMatrixBuffer_ne_fail (data : Buffer) (rows cols capacity : UInt64) :
    validateMatrixBuffer data rows cols capacity ≠ .fail := by
  rw [validateMatrixBuffer]
  split_ifs <;> simp

lemma sovCheckDimensions_ne_fail (n m : UInt64) : sovCheckDimensions n m ≠ .fail := by
  rw [sovCheckDimensions]
  split_ifs <;> simp

lemma sovCheckMatrixCells_ne_fail (rows cols : UInt64) : sovCheckMatrixCells rows cols ≠ .fail := by
  rw [sovCheckMatrixCells]
  split_ifs <;> simp

lemma sovAddOperationCost_ne_fail (budget : SovResourceBudget) (cost : UInt64) :
    (sovAddOperationCost budget cost).1 ≠ .fail := by
  simp only [sovAddOperationCost]
  split_ifs <;> simp

lemma sovCheckDimensions_le {n m : UInt64} (h : sovCheckDimensions n m = .ok) :
    n.toNat ≤ 65536 ∧ m.toNat ≤ 65536 := by
  rw [sovCheckDimensions] at h
  split_ifs at h with hlim
  push Not at hlim
  simpa [UInt64.le_iff_toNat_le, sovMaxMatrixDim] using hlim

/-- A buffer that passes its check holds the declared number of entries. -/
lemma validateMatrixBuffer_le {data : Buffer} {rows cols capacity : UInt64}
    (h : validateMatrixBuffer data rows cols capacity = .ok) :
    (rows * cols).toNat ≤ capacity.toNat := by
  rw [validateMatrixBuffer] at h
  split_ifs at h with _ _ hsize
  exact UInt64.le_iff_toNat_le.mp (UInt64.not_lt.mp hsize)

/-- A matrix that is not empty gets its data. -/
lemma safeAllocMatrix_data {malloc : UInt64 → Bool} {rows cols : UInt64} {m : SafeMatrix}
    (hne : rows * cols ≠ 0) (h : safeAllocMatrix malloc rows cols = some m) : m.data = true := by
  have hpos : rows * cols > 0 := UInt64.pos_iff_ne_zero.mpr hne
  simp only [safeAllocMatrix, hpos, if_true] at h
  split_ifs at h
  exact (congrArg SafeMatrix.data (Option.some.inj h)).symm

end Verifier

end SovereignBus
