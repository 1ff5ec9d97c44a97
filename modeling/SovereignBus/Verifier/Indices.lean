import SovereignBus.Library.Guarded
import SovereignBus.Verifier.LeastSquares

/-!
The indices and sizes of `src/verifier/sov_verifier.c`.

* `sovMatrixVecMultSafe`: the product that checks its buffers.
* `Bounded`: the functions of the source once more, every product and sum of sizes guarded
  against wrapping around, and every entry read or written against the length of its buffer:
  the declared one of a caller's buffer, the capacity of a temporary one.
* `indices_safe`: on all inputs the guarded functions run without a fault, and return what the
  functions of the source do.
-/

namespace SovereignBus

namespace Verifier

open Guarded Checked

/-- `sov_matrix_vec_mult`. -/
def sovMatrixVecMult (A x : Buffer) (result : Bool) (m n : UInt64) :
    Except VerifyResult (List Int64) :=
  (sovMatrixVecMultWithBudget A x result m n none).1

/-- `sov_matrix_vec_mult_safe`: the values of `result`, or the error. -/
def sovMatrixVecMultSafe (A : Buffer) (aLen : UInt64) (x : Buffer) (xLen : UInt64)
    (result : Buffer) (rLen m n : UInt64) : Except VerifyResult (List Int64) :=
  let res := validateMatrixBuffer A m n aLen
  if res ≠ .ok then .error res
  else
    let res := validateMatrixBuffer x 1 n xLen
    if res ≠ .ok then .error res
    else
      let res := validateMatrixBuffer result 1 m rLen
      if res ≠ .ok then .error res
      else sovMatrixVecMult A x result.isSome m n

namespace Bounded

/-! ### The functions of the source -/

/-- `safe_alloc_matrix`, with both of its products guarded. -/
def safeAllocMatrix (malloc : UInt64 → Bool) (rows cols : UInt64) :
    Except Guarded.Fault (Option SafeMatrix) :=
  if rows > 0 ∧ cols > sizeMax / rows then pure none
  else do
    let nelems ← mul rows cols
    if nelems > 0 ∧ nelems > sizeMax / 8 then pure none
    else
      let dataSize ← mul nelems 8
      if malloc 32 = false then pure none
      else if nelems > 0 then
        if malloc dataSize then pure (some ⟨rows, cols, true, nelems⟩) else pure none
      else pure (some ⟨rows, cols, false, nelems⟩)

/-- `validate_matrix_buffer`, with its product guarded. -/
def validateMatrixBuffer (data : Buffer) (declaredRows declaredCols actualCapacity : UInt64) :
    Except Guarded.Fault VerifyResult :=
  if data.isNone then pure .nullInput
  else if declaredRows > 0 ∧ declaredCols > sizeMax / declaredRows then pure .overflow
  else do
    let requiredSize ← mul declaredRows declaredCols
    if requiredSize > actualCapacity then pure .bufferOverflow else pure .ok

/-- `sov_check_matrix_cells`, with the number of cells guarded. -/
def sovCheckMatrixCells (rows cols : UInt64) : Except Guarded.Fault VerifyResult :=
  if rows > 0 ∧ cols > sizeMax / rows then pure .overflow
  else do
    let totalCells ← mul rows cols
    if totalCells > sovMaxMatrixCells then pure .cellsExceeded else pure .ok

/-- `sov_add_operation_cost`, with the sum of the costs guarded. -/
def sovAddOperationCost (budget : SovResourceBudget) (cost : UInt64) :
    Except Guarded.Fault (VerifyResult × SovResourceBudget) :=
  if cost > 0 ∧ budget.operationCount > sizeMax - cost then
    pure (.opsExceeded, { budget with budgetExceeded := true })
  else do
    let count ← add budget.operationCount cost
    let budget := { budget with operationCount := count }
    if budget.operationCount > budget.maxOperations then
      pure (.opsExceeded, { budget with budgetExceeded := true })
    else pure (.ok, budget)

/-- The charge for `m * n` operations. -/
def chargeProduct (m n : UInt64) :
    Option SovResourceBudget → Except Guarded.Fault (VerifyResult × Option SovResourceBudget)
  | none => pure (.ok, none)
  | some budget =>
      if m > 0 ∧ n > sizeMax / m then pure (.overflow, some budget)
      else do
        let r ← sovAddOperationCost budget (← mul m n)
        pure (r.1, some r.2)

/-- The charge for `m * n * p` operations. -/
def chargeMatrixProduct (m n p : UInt64) :
    Option SovResourceBudget → Except Guarded.Fault (VerifyResult × Option SovResourceBudget)
  | none => pure (.ok, none)
  | some budget =>
      if m > 0 ∧ n > sizeMax / m then pure (.overflow, some budget)
      else do
        let mn ← mul m n
        if mn > 0 ∧ p > sizeMax / mn then pure (.overflow, some budget)
        else
          let r ← sovAddOperationCost budget (← mul mn p)
          pure (r.1, some r.2)

/-- The inner loop of the product with a vector, with the entry `result[i]` it writes. -/
def rowProduct (A : ℕ → Int64) (aLen : UInt64) (x : ℕ → Int64) (xLen rLen n : UInt64) (i : ℕ) :
    ExceptT VerifyResult (Except Guarded.Fault) Int64 := do
  lift (place rLen (UInt64.ofNat i))
  (List.range n.toNat).foldlM (fun c j => do
    let a ← lift (entry A aLen (UInt64.ofNat i) n (UInt64.ofNat j))
    let xj ← lift (fetch x xLen (UInt64.ofNat j))
    lift (place rLen (UInt64.ofNat i))
    own (checkedMuladd c a xj)) 0

/-- `sov_matrix_vec_mult_with_budget`, with the lengths of its buffers. -/
def sovMatrixVecMultWithBudget (A : Buffer) (aLen : UInt64) (x : Buffer) (xLen : UInt64)
    (result : Bool) (rLen m n : UInt64) (budget : Option SovResourceBudget) :
    Except Guarded.Fault (Except VerifyResult (List Int64) × Option SovResourceBudget) :=
  match A, x, result with
  | some A, some x, true => do
      let charged ← chargeProduct m n budget
      if charged.1 ≠ .ok then pure (.error charged.1, charged.2)
      else
        let values ← ((List.range m.toNat).mapM (rowProduct A aLen x xLen rLen n)).run
        pure (values, charged.2)
  | _, _, _ => pure (.error .nullInput, budget)

def sovMatrixVecMultSafe (A : Buffer) (aLen : UInt64) (x : Buffer) (xLen : UInt64)
    (result : Buffer) (rLen m n : UInt64) :
    Except Guarded.Fault (Except VerifyResult (List Int64)) := do
  let res ← validateMatrixBuffer A m n aLen
  if res ≠ .ok then pure (.error res)
  else
    let res ← validateMatrixBuffer x 1 n xLen
    if res ≠ .ok then pure (.error res)
    else
      let res ← validateMatrixBuffer result 1 m rLen
      if res ≠ .ok then pure (.error res)
      else
        let r ← sovMatrixVecMultWithBudget A aLen x xLen result.isSome rLen m n none
        pure r.1

/-- The innermost loop of the product with a matrix, with the entry `result[i * p + j]`. -/
def cellProduct (A : ℕ → Int64) (aLen : UInt64) (B : ℕ → Int64) (bLen rLen n p : UInt64)
    (i j : ℕ) : ExceptT VerifyResult (Except Guarded.Fault) Int64 := do
  lift (placeAt rLen (UInt64.ofNat i) p (UInt64.ofNat j))
  (List.range n.toNat).foldlM (fun c k => do
    let a ← lift (entry A aLen (UInt64.ofNat i) n (UInt64.ofNat k))
    let b ← lift (entry B bLen (UInt64.ofNat k) p (UInt64.ofNat j))
    lift (placeAt rLen (UInt64.ofNat i) p (UInt64.ofNat j))
    own (checkedMuladd c a b)) 0

/-- `sov_matrix_mult_with_budget`, with the lengths of its buffers. -/
def sovMatrixMultWithBudget (A : Buffer) (aLen : UInt64) (B : Buffer) (bLen : UInt64)
    (result : Bool) (rLen m n p : UInt64) (budget : Option SovResourceBudget) :
    Except Guarded.Fault (Except VerifyResult (List Int64) × Option SovResourceBudget) :=
  match A, B, result with
  | some A, some B, true => do
      let charged ← chargeMatrixProduct m n p budget
      if charged.1 ≠ .ok then pure (.error charged.1, charged.2)
      else
        let rows ← ((List.range m.toNat).mapM fun i =>
          (List.range p.toNat).mapM (cellProduct A aLen B bLen rLen n p i)).run
        pure (rows.map List.flatten, charged.2)
  | _, _, _ => pure (.error .nullInput, budget)

/-- `sov_matrix_equal`, with the lengths of its buffers. -/
def sovMatrixEqual (A : Buffer) (aLen : UInt64) (B : Buffer) (bLen nelems : UInt64) :
    Except Guarded.Fault Bool :=
  match A, B with
  | some A, some B => (List.range nelems.toNat).allM fun i => do
      let a ← fetch A aLen (UInt64.ofNat i)
      let b ← fetch B bLen (UInt64.ofNat i)
      pure (a == b)
  | _, _ => pure false

/-- The scan for the identity. -/
def isIdentity (data : ℕ → Int64) (len n : UInt64) : Except Guarded.Fault Bool :=
  (List.range n.toNat).allM fun i => (List.range n.toNat).allM fun j => do
    let v ← entry data len (UInt64.ofNat i) n (UInt64.ofNat j)
    pure (v == if i = j then 1 else 0)

/-- The checks of `sov_verify_inv` on dimensions, cells and lengths. -/
def invChecks (A : Buffer) (aLen : UInt64) (X : Buffer) (xLen n : UInt64) :
    Except Guarded.Fault VerifyResult :=
  let res := sovCheckDimensions n n
  if res ≠ .ok then pure res
  else do
    let res ← sovCheckMatrixCells n n
    if res ≠ .ok then pure res
    else
      let res ← validateMatrixBuffer A n n aLen
      if res ≠ .ok then pure res else validateMatrixBuffer X n n xLen

/-- `sov_verify_inv`, whose product is read at the capacity it was allocated with. -/
def sovVerifyInv (malloc : UInt64 → Bool) (A : Buffer) (aLen : UInt64) (X : Buffer)
    (xLen n : UInt64) (budget : Option SovResourceBudget) :
    Except Guarded.Fault (VerifyResult × Option SovResourceBudget) :=
  if A.isNone ∨ X.isNone then pure (.nullInput, budget)
  else if n = 0 then pure (.dimensionMismatch, budget)
  else do
    let work := budget.getD sovInitResourceBudget
    let checks ← invChecks A aLen X xLen n
    if checks ≠ .ok then pure (checks, budget)
    else
      match ← safeAllocMatrix malloc n n with
      | none => pure (.allocFailure, budget)
      | some product =>
          let r ← sovMatrixMultWithBudget A aLen X xLen product.data product.capacity n n n
            (some work)
          let verdict ←
            match r.1 with
            | .error res => pure res
            | .ok values => do
                if ← isIdentity (fun c => values.getD c 0) product.capacity n then pure .ok
                else pure .fail
          pure (verdict, if budget.isSome then r.2 else none)

/-- The checks of `sov_verify_sol` and of `sov_verify_lstsq`. -/
def solChecks (A : Buffer) (aLen : UInt64) (x : Buffer) (xLen : UInt64) (b : Buffer)
    (bLen m n : UInt64) : Except Guarded.Fault VerifyResult :=
  let res := sovCheckDimensions m n
  if res ≠ .ok then pure res
  else do
    let res ← sovCheckMatrixCells m n
    if res ≠ .ok then pure res
    else
      let res ← validateMatrixBuffer A m n aLen
      if res ≠ .ok then pure res
      else
        let res ← validateMatrixBuffer x 1 n xLen
        if res ≠ .ok then pure res else validateMatrixBuffer b 1 m bLen

/-- `sov_verify_sol`, whose product is read at the capacity it was allocated with. -/
def sovVerifySol (malloc : UInt64 → Bool) (A : Buffer) (aLen : UInt64) (x : Buffer)
    (xLen : UInt64) (b : Buffer) (bLen m n : UInt64) (budget : Option SovResourceBudget) :
    Except Guarded.Fault (VerifyResult × Option SovResourceBudget) :=
  if A.isNone ∨ x.isNone ∨ b.isNone then pure (.nullInput, budget)
  else if m = 0 ∨ n = 0 then pure (.dimensionMismatch, budget)
  else do
    let work := budget.getD sovInitResourceBudget
    let checks ← solChecks A aLen x xLen b bLen m n
    if checks ≠ .ok then pure (checks, budget)
    else
      match ← safeAllocMatrix malloc 1 m with
      | none => pure (.allocFailure, budget)
      | some product =>
          let r ← sovMatrixVecMultWithBudget A aLen x xLen product.data product.capacity m n
            (some work)
          let verdict ←
            match r.1 with
            | .error res => pure res
            | .ok values => do
                if ← sovMatrixEqual (some fun i => values.getD i 0) product.capacity b bLen m then
                  pure .ok
                else pure .fail
          pure (verdict, if budget.isSome then r.2 else none)

/-- The loop of the residual. -/
def residuals (ax : List Int64) (axLen : UInt64) (b : ℕ → Int64) (bLen rLen m : UInt64) :
    ExceptT VerifyResult (Except Guarded.Fault) (List Int64) :=
  (List.range m.toNat).mapM fun i => do
    let v ← lift (fetch (fun i => ax.getD i 0) axLen (UInt64.ofNat i))
    let w ← lift (fetch b bLen (UInt64.ofNat i))
    lift (place rLen (UInt64.ofNat i))
    own (let d := subOverflow v w; if d.1 then .error .overflow else .ok d.2)

/-- The inner loop of the transposed product, with the entry `result[i]`. -/
def columnProduct (A : ℕ → Int64) (aLen : UInt64) (r : List Int64) (rLen resultLen m n : UInt64)
    (i : ℕ) : ExceptT VerifyResult (Except Guarded.Fault) Int64 := do
  lift (place resultLen (UInt64.ofNat i))
  (List.range m.toNat).foldlM (fun c j => do
    let aji ← lift (entry A aLen (UInt64.ofNat j) n (UInt64.ofNat i))
    let rj ← lift (fetch (fun j => r.getD j 0) rLen (UInt64.ofNat j))
    lift (place resultLen (UInt64.ofNat i))
    own (checkedMuladd c aji rj)) 0

/-- The scan for a value that is not zero. -/
def allZero (result : List Int64) (len n : UInt64) : Except Guarded.Fault Bool :=
  (List.range n.toNat).allM fun i => do
    let v ← fetch (fun i => result.getD i 0) len (UInt64.ofNat i)
    pure (v == 0)

/-- `sov_verify_lstsq` behind its checks. -/
def lstsqStages (malloc : ℕ → UInt64 → Bool) (A : ℕ → Int64) (aLen : UInt64) (x : ℕ → Int64)
    (xLen : UInt64) (b : ℕ → Int64) (bLen m n : UInt64) (work : SovResourceBudget) :
    Except Guarded.Fault (VerifyResult × SovResourceBudget) := do
  match ← safeAllocMatrix (malloc 0) 1 m with
  | none => pure (.allocFailure, work)
  | some ax =>
      let product ← sovMatrixVecMultWithBudget (some A) aLen (some x) xLen ax.data ax.capacity m n
        (some work)
      let work := product.2.getD work
      match product.1 with
      | .error res => pure (res, work)
      | .ok values =>
          match ← safeAllocMatrix (malloc 1) 1 m with
          | none => pure (.allocFailure, work)
          | some residual =>
              match ← (residuals values ax.capacity b bLen residual.capacity m).run with
              | .error res => pure (res, work)
              | .ok r =>
                  match ← safeAllocMatrix (malloc 2) 1 n with
                  | none => pure (.allocFailure, work)
                  | some result =>
                      let charged ← sovAddOperationCost work (← mul m n)
                      if charged.1 ≠ .ok then pure charged
                      else
                        match ← ((List.range n.toNat).mapM
                            (columnProduct A aLen r residual.capacity result.capacity m n)).run with
                        | .error res => pure (res, charged.2)
                        | .ok values => do
                            if ← allZero values result.capacity n then pure (.ok, charged.2)
                            else pure (.fail, charged.2)

/-- `sov_verify_lstsq`, with the stages behind its checks. -/
def sovVerifyLstsq (malloc : ℕ → UInt64 → Bool) (A : Buffer) (aLen : UInt64) (x : Buffer)
    (xLen : UInt64) (b : Buffer) (bLen m n : UInt64) (budget : Option SovResourceBudget) :
    Except Guarded.Fault (VerifyResult × Option SovResourceBudget) :=
  match A, x, b with
  | some A, some x, some b =>
      if m = 0 ∨ n = 0 then pure (.dimensionMismatch, budget)
      else do
        let work := budget.getD sovInitResourceBudget
        let checks ← solChecks (some A) aLen (some x) xLen (some b) bLen m n
        if checks ≠ .ok then pure (checks, budget)
        else
          let r ← lstsqStages malloc A aLen x xLen b bLen m n work
          pure (r.1, if budget.isSome then some r.2 else none)
  | _, _, _ => pure (.nullInput, budget)

/-! ### Sizes -/

/-- A product that passes the test against `SIZE_MAX` does not wrap. -/
lemma mul_toNat_lt_of_test {a b : UInt64} (h : ¬ (a > 0 ∧ b > sizeMax / a)) :
    a.toNat * b.toNat < 2 ^ 64 := by
  by_cases ha : a = 0
  · rw [ha, UInt64.toNat_zero, Nat.zero_mul]
    omega
  · have hpos : 0 < a.toNat := Nat.pos_of_ne_zero fun h0 => ha (UInt64.toNat_inj.mp h0)
    have hle : b.toNat ≤ (2 ^ 64 - 1) / a.toNat := by
      have hdiv := UInt64.not_lt.mp fun hlt => h ⟨UInt64.pos_iff_ne_zero.mpr ha, hlt⟩
      rwa [UInt64.le_iff_toNat_le, UInt64.toNat_div] at hdiv
    calc a.toNat * b.toNat ≤ a.toNat * ((2 ^ 64 - 1) / a.toNat) := Nat.mul_le_mul_left _ hle
      _ ≤ 2 ^ 64 - 1 := Nat.mul_div_le _ _
      _ < 2 ^ 64 := by omega

lemma mul_of_test {a b : UInt64} (h : ¬ (a > 0 ∧ b > sizeMax / a)) : mul a b = .ok (a * b) :=
  mul_eq_ok (mul_toNat_lt_of_test h)

/-- A sum that passes the test against `SIZE_MAX` does not wrap. -/
lemma add_of_test {a b : UInt64} (h : ¬ (b > 0 ∧ a > sizeMax - b)) : add a b = .ok (a + b) := by
  refine add_eq_ok ?_
  have hb := b.toNat_lt
  by_cases h0 : b = 0
  · rw [h0, UInt64.toNat_zero, Nat.add_zero]
    exact a.toNat_lt
  · have hle := UInt64.not_lt.mp fun hlt => h ⟨UInt64.pos_iff_ne_zero.mpr h0, hlt⟩
    have hmax : (sizeMax - b).toNat = 2 ^ 64 - 1 - b.toNat :=
      UInt64.toNat_sub_of_le sizeMax b (UInt64.le_iff_toNat_le.mpr (Nat.le_sub_one_of_lt hb))
    rw [UInt64.le_iff_toNat_le, hmax] at hle
    omega

/-- An allocation tests both products before it makes them. -/
lemma safeAllocMatrix_eq (malloc : UInt64 → Bool) (rows cols : UInt64) :
    safeAllocMatrix malloc rows cols = .ok (Verifier.safeAllocMatrix malloc rows cols) := by
  rw [safeAllocMatrix, Verifier.safeAllocMatrix]
  by_cases htest : rows > 0 ∧ cols > sizeMax / rows
  · rw [if_pos htest, if_pos htest]
    rfl
  rw [if_neg htest, if_neg htest, mul_of_test htest, ok_bind]
  by_cases hsize : rows * cols > 0 ∧ rows * cols > sizeMax / 8
  · simp only [if_pos hsize]
    rfl
  · have hbytes : mul (rows * cols) 8 = .ok (rows * cols * 8) := by
      refine mul_eq_ok ?_
      by_cases hpos : rows * cols > 0
      · have hle := UInt64.not_lt.mp fun hlt => hsize ⟨hpos, hlt⟩
        rw [UInt64.le_iff_toNat_le, UInt64.toNat_div] at hle
        exact (Nat.mul_le_of_le_div _ _ _ hle).trans_lt (by decide)
      · rw [not_not.mp (mt UInt64.pos_iff_ne_zero.mpr hpos)]
        decide
    simp only [if_neg hsize, hbytes, ok_bind]
    split_ifs <;> rfl

lemma validateMatrixBuffer_eq (data : Buffer) (rows cols capacity : UInt64) :
    validateMatrixBuffer data rows cols capacity
      = .ok (Verifier.validateMatrixBuffer data rows cols capacity) := by
  rw [validateMatrixBuffer, Verifier.validateMatrixBuffer]
  split_ifs with hnull htest hsize
  · rfl
  · rfl
  · rw [mul_of_test htest, ok_bind, if_pos hsize]
    rfl
  · rw [mul_of_test htest, ok_bind, if_neg hsize]
    rfl

lemma sovCheckMatrixCells_eq (rows cols : UInt64) :
    sovCheckMatrixCells rows cols = .ok (Verifier.sovCheckMatrixCells rows cols) := by
  rw [sovCheckMatrixCells, Verifier.sovCheckMatrixCells]
  split_ifs with htest hcells
  · rfl
  · rw [mul_of_test htest, ok_bind, if_pos hcells]
    rfl
  · rw [mul_of_test htest, ok_bind, if_neg hcells]
    rfl

/-- A charge is tested before it is added. -/
lemma sovAddOperationCost_eq (budget : SovResourceBudget) (cost : UInt64) :
    sovAddOperationCost budget cost = .ok (Verifier.sovAddOperationCost budget cost) := by
  rw [sovAddOperationCost, Verifier.sovAddOperationCost]
  by_cases htest : cost > 0 ∧ budget.operationCount > sizeMax - cost
  · rw [if_pos htest, if_pos htest]
    rfl
  · rw [if_neg htest, if_neg htest, add_of_test htest, ok_bind]
    dsimp only
    split_ifs <;> rfl

lemma chargeProduct_eq (m n : UInt64) (budget : Option SovResourceBudget) :
    chargeProduct m n budget = .ok (Verifier.chargeProduct m n budget) := by
  cases budget with
  | none => rfl
  | some budget =>
      rw [chargeProduct, Verifier.chargeProduct]
      split_ifs with htest
      · rfl
      · rw [mul_of_test htest, ok_bind, sovAddOperationCost_eq, ok_bind]
        rfl

lemma chargeMatrixProduct_eq (m n p : UInt64) (budget : Option SovResourceBudget) :
    chargeMatrixProduct m n p budget = .ok (Verifier.chargeMatrixProduct m n p budget) := by
  cases budget with
  | none => rfl
  | some budget =>
      simp only [chargeMatrixProduct, Verifier.chargeMatrixProduct]
      split_ifs with htest htest'
      · rfl
      · rw [mul_of_test htest, ok_bind, if_pos htest']
        rfl
      · rw [mul_of_test htest, ok_bind, if_neg htest', mul_of_test htest', ok_bind,
          sovAddOperationCost_eq, ok_bind]
        rfl

/-- The checks of a solution run without a fault. -/
lemma solChecks_eq (A : Buffer) (aLen : UInt64) (x : Buffer) (xLen : UInt64) (b : Buffer)
    (bLen m n : UInt64) :
    solChecks A aLen x xLen b bLen m n = .ok (Verifier.solChecks A aLen x xLen b bLen m n) := by
  simp only [solChecks, Verifier.solChecks, sovCheckMatrixCells_eq, validateMatrixBuffer_eq,
    ok_bind, VerifyResult.andThen]
  split_ifs <;> rfl

lemma invChecks_eq (A : Buffer) (aLen : UInt64) (X : Buffer) (xLen n : UInt64) :
    invChecks A aLen X xLen n = .ok (Verifier.invChecks A aLen X xLen n) := by
  simp only [invChecks, Verifier.invChecks, sovCheckMatrixCells_eq, validateMatrixBuffer_eq,
    ok_bind, VerifyResult.andThen]
  split_ifs <;> rfl

/-- A buffer that passes its check holds the declared entries. -/
lemma entries_le_of_validate {data : Buffer} {rows cols capacity : UInt64}
    (h : Verifier.validateMatrixBuffer data rows cols capacity = .ok) :
    data.isSome ∧ rows.toNat * cols.toNat ≤ capacity.toNat := by
  have hle := validateMatrixBuffer_le h
  rw [Verifier.validateMatrixBuffer] at h
  split_ifs at h with hnull htest
  rw [UInt64.toNat_mul, Nat.mod_eq_of_lt (mul_toNat_lt_of_test htest)] at hle
  exact ⟨by simpa [Option.isSome_iff_ne_none] using hnull, hle⟩

/-! ### Loops -/

section Loops

variable {A B x b : ℕ → Int64} {aLen bLen xLen rLen m n p : UInt64}

/-- A row of the product stays in the buffers. -/
lemma rowProduct_safe (hA : m.toNat * n.toNat ≤ aLen.toNat) (hx : n.toNat ≤ xLen.toNat)
    (hr : m.toNat ≤ rLen.toNat) {i : ℕ} (hi : i < m.toNat) :
    Safe (rowProduct A aLen x xLen rLen n i) (Verifier.rowProduct A x n i) := by
  have hplace : place rLen (UInt64.ofNat i) = .ok () :=
    place_eq_ok (by rw [toNat_ofNat_of_lt hi]; omega)
  refine safe_lift_bind hplace (Safe.foldlM (fun j hj c => ?_) 0)
  have hjn := List.mem_range.mp hj
  have hxj : fetch x xLen (UInt64.ofNat j) = .ok (x j) := by
    rw [fetch_eq_ok x (by rw [toNat_ofNat_of_lt hjn]; omega), toNat_ofNat_of_lt hjn]
  exact safe_lift_bind (entry_eq_ok A hA hi hjn) <| safe_lift_bind hxj <|
    safe_lift_bind hplace <| safe_own _

/-- A cell of the product stays in the buffers. -/
lemma cellProduct_safe (hA : m.toNat * n.toNat ≤ aLen.toNat) (hB : n.toNat * p.toNat ≤ bLen.toNat)
    (hr : m.toNat * p.toNat ≤ rLen.toNat) {i j : ℕ} (hi : i < m.toNat) (hj : j < p.toNat) :
    Safe (cellProduct A aLen B bLen rLen n p i j) (Verifier.cellProduct A B n p i j) := by
  have hplace : placeAt rLen (UInt64.ofNat i) p (UInt64.ofNat j) = .ok () := placeAt_eq_ok hr hi hj
  refine safe_lift_bind hplace (Safe.foldlM (fun k hk c => ?_) 0)
  have hkn := List.mem_range.mp hk
  exact safe_lift_bind (entry_eq_ok A hA hi hkn) <| safe_lift_bind (entry_eq_ok B hB hkn hj) <|
    safe_lift_bind hplace <| safe_own _

lemma residuals_safe {ax : List Int64} {axLen : UInt64} (hax : m.toNat ≤ axLen.toNat)
    (hb : m.toNat ≤ bLen.toNat) (hr : m.toNat ≤ rLen.toNat) :
    Safe (residuals ax axLen b bLen rLen m) (Verifier.residuals ax b m) := by
  refine Safe.mapM fun i hi => ?_
  have him := List.mem_range.mp hi
  have hindex := toNat_ofNat_of_lt him
  have hv : fetch (fun i => ax.getD i 0) axLen (UInt64.ofNat i) = .ok (ax.getD i 0) := by
    rw [fetch_eq_ok _ (by rw [hindex]; omega), hindex]
  have hw : fetch b bLen (UInt64.ofNat i) = .ok (b i) := by
    rw [fetch_eq_ok _ (by rw [hindex]; omega), hindex]
  have hplace : place rLen (UInt64.ofNat i) = .ok () := place_eq_ok (by rw [hindex]; omega)
  exact safe_lift_bind hv <| safe_lift_bind hw <| safe_lift_bind hplace <| safe_own _

/-- A column of the transposed product stays in the buffers. -/
lemma columnProduct_safe {r : List Int64} {resultLen : UInt64}
    (hA : m.toNat * n.toNat ≤ aLen.toNat) (hr : m.toNat ≤ rLen.toNat)
    (hresult : n.toNat ≤ resultLen.toNat) {i : ℕ} (hi : i < n.toNat) :
    Safe (columnProduct A aLen r rLen resultLen m n i) (Verifier.columnProduct A r m n i) := by
  have hplace : place resultLen (UInt64.ofNat i) = .ok () :=
    place_eq_ok (by rw [toNat_ofNat_of_lt hi]; omega)
  refine safe_lift_bind hplace (Safe.foldlM (fun j hj c => ?_) 0)
  have hjm := List.mem_range.mp hj
  have hrj : fetch (fun j => r.getD j 0) rLen (UInt64.ofNat j) = .ok (r.getD j 0) := by
    rw [fetch_eq_ok _ (by rw [toNat_ofNat_of_lt hjm]; omega), toNat_ofNat_of_lt hjm]
  exact safe_lift_bind (entry_eq_ok A hA hjm hi) <| safe_lift_bind hrj <|
    safe_lift_bind hplace <| safe_own _

lemma isIdentity_eq {data : ℕ → Int64} {len : UInt64} (h : n.toNat * n.toNat ≤ len.toNat) :
    isIdentity data len n = .ok (Verifier.isIdentity data n) := by
  refine allM_eq_ok fun i hi => allM_eq_ok fun j hj => ?_
  rw [entry_eq_ok data h (List.mem_range.mp hi) (List.mem_range.mp hj), ok_bind]
  rfl

lemma sovMatrixEqual_eq (hA : m.toNat ≤ aLen.toNat) (hB : m.toNat ≤ bLen.toNat) :
    sovMatrixEqual (some A) aLen (some B) bLen m
      = .ok (Verifier.sovMatrixEqual (some A) (some B) m) := by
  refine allM_eq_ok fun i hi => ?_
  have hindex := toNat_ofNat_of_lt (List.mem_range.mp hi)
  have him := List.mem_range.mp hi
  rw [fetch_eq_ok A (by rw [hindex]; omega), fetch_eq_ok B (by rw [hindex]; omega), ok_bind,
    ok_bind, hindex]
  rfl

lemma allZero_eq {result : List Int64} {len : UInt64} (h : n.toNat ≤ len.toNat) :
    allZero result len n = .ok (Verifier.allZero result n) := by
  refine allM_eq_ok fun i hi => ?_
  have hindex := toNat_ofNat_of_lt (List.mem_range.mp hi)
  have hin := List.mem_range.mp hi
  rw [fetch_eq_ok _ (by rw [hindex]; omega), ok_bind, hindex]
  rfl

end Loops

/-! ### Products -/

/-- The product with a vector needs buffers as long as its sizes say. -/
lemma sovMatrixVecMultWithBudget_eq {A x : ℕ → Int64} {aLen xLen rLen m n : UInt64}
    (hA : m.toNat * n.toNat ≤ aLen.toNat) (hx : n.toNat ≤ xLen.toNat) (hr : m.toNat ≤ rLen.toNat)
    (result : Bool) (budget : Option SovResourceBudget) :
    sovMatrixVecMultWithBudget (some A) aLen (some x) xLen result rLen m n budget
      = .ok (Verifier.sovMatrixVecMultWithBudget (some A) (some x) result m n budget) := by
  cases result with
  | false => rfl
  | true =>
      have hrows : Safe ((List.range m.toNat).mapM (rowProduct A aLen x xLen rLen n))
          ((List.range m.toNat).mapM (Verifier.rowProduct A x n)) :=
        Safe.mapM fun i hi => rowProduct_safe hA hx hr (List.mem_range.mp hi)
      rw [Safe] at hrows
      simp only [sovMatrixVecMultWithBudget, Verifier.sovMatrixVecMultWithBudget, chargeProduct_eq,
        hrows, ok_bind]
      split_ifs <;> rfl

/-- The product with a matrix needs buffers as long as its sizes say. -/
lemma sovMatrixMultWithBudget_eq {A B : ℕ → Int64} {aLen bLen rLen m n p : UInt64}
    (hA : m.toNat * n.toNat ≤ aLen.toNat) (hB : n.toNat * p.toNat ≤ bLen.toNat)
    (hr : m.toNat * p.toNat ≤ rLen.toNat) (result : Bool) (budget : Option SovResourceBudget) :
    sovMatrixMultWithBudget (some A) aLen (some B) bLen result rLen m n p budget
      = .ok (Verifier.sovMatrixMultWithBudget (some A) (some B) result m n p budget) := by
  cases result with
  | false => rfl
  | true =>
      have hrows : Safe
          ((List.range m.toNat).mapM fun i =>
            (List.range p.toNat).mapM (cellProduct A aLen B bLen rLen n p i))
          ((List.range m.toNat).mapM fun i =>
            (List.range p.toNat).mapM (Verifier.cellProduct A B n p i)) :=
        Safe.mapM fun i hi => Safe.mapM fun j hj =>
          cellProduct_safe hA hB hr (List.mem_range.mp hi) (List.mem_range.mp hj)
      rw [Safe] at hrows
      simp only [sovMatrixMultWithBudget, Verifier.sovMatrixMultWithBudget, chargeMatrixProduct_eq,
        hrows, ok_bind]
      split_ifs <;> rfl

lemma sovMatrixVecMultSafe_eq (A : Buffer) (aLen : UInt64) (x : Buffer) (xLen : UInt64)
    (result : Buffer) (rLen m n : UInt64) :
    sovMatrixVecMultSafe A aLen x xLen result rLen m n
      = .ok (Verifier.sovMatrixVecMultSafe A aLen x xLen result rLen m n) := by
  simp only [sovMatrixVecMultSafe, Verifier.sovMatrixVecMultSafe, validateMatrixBuffer_eq, ok_bind]
  split_ifs with hA hx hr
  · rfl
  · rfl
  · rfl
  · obtain ⟨haSome, haLen⟩ := entries_le_of_validate (not_not.mp hA)
    obtain ⟨hxSome, hxLen⟩ := entries_le_of_validate (not_not.mp hx)
    obtain ⟨-, hrLen⟩ := entries_le_of_validate (not_not.mp hr)
    obtain ⟨a, rfl⟩ := Option.isSome_iff_exists.mp haSome
    obtain ⟨y, rfl⟩ := Option.isSome_iff_exists.mp hxSome
    rw [UInt64.toNat_one, Nat.one_mul] at hxLen hrLen
    rw [sovMatrixVecMultWithBudget_eq haLen hxLen hrLen]
    rfl

/-! ### Engines -/

/-- The capacity of a temporary matrix. -/
lemma capacity_of_alloc {malloc : UInt64 → Bool} {rows cols : UInt64} {mat : SafeMatrix}
    (h : Verifier.safeAllocMatrix malloc rows cols = some mat) : mat.capacity = rows * cols := by
  simp only [Verifier.safeAllocMatrix] at h
  split_ifs at h <;> exact (congrArg SafeMatrix.capacity (Option.some.inj h)).symm

lemma exists_of_not_isNone₂ {A X : Buffer} (h : ¬ (A.isNone ∨ X.isNone)) :
    ∃ a x, A = some a ∧ X = some x := by
  match A, X with
  | some a, some x => exact ⟨a, x, rfl, rfl⟩
  | none, _ | some _, none => simp at h

lemma exists_of_not_isNone {A x b : Buffer} (h : ¬ (A.isNone ∨ x.isNone ∨ b.isNone)) :
    ∃ a y c, A = some a ∧ x = some y ∧ b = some c := by
  match A, x, b with
  | some a, some y, some c => exact ⟨a, y, c, rfl, rfl, rfl⟩
  | none, _, _ | some _, none, _ | some _, some _, none => simp at h

lemma sovVerifySol_eq (malloc : UInt64 → Bool) (A : Buffer) (aLen : UInt64) (x : Buffer)
    (xLen : UInt64) (b : Buffer) (bLen m n : UInt64) (budget : Option SovResourceBudget) :
    sovVerifySol malloc A aLen x xLen b bLen m n budget
      = .ok (Verifier.sovVerifySol malloc A aLen x xLen b bLen m n budget) := by
  simp only [sovVerifySol, Verifier.sovVerifySol, solChecks_eq, ok_bind, safeAllocMatrix_eq]
  split_ifs with hnull hzero hlimits
  · rfl
  · rfl
  · rfl
  all_goals
    obtain ⟨hA, hx, hb⟩ := solChecks_lengths (not_not.mp hlimits)
    obtain ⟨a, y, c, rfl, rfl, rfl⟩ := exists_of_not_isNone hnull
    cases halloc : Verifier.safeAllocMatrix malloc 1 m with
    | none => rfl
    | some product =>
        have hcap : m.toNat ≤ product.capacity.toNat := by
          rw [capacity_of_alloc halloc, UInt64.one_mul]
        simp only [sovMatrixVecMultWithBudget_eq hA hx hcap, ok_bind]
        cases (Verifier.sovMatrixVecMultWithBudget (some a) (some y) product.data m n
          (some (budget.getD sovInitResourceBudget))).1 with
        | error res => rfl
        | ok values =>
            simp only [sovMatrixEqual_eq hcap hb, ok_bind]
            split_ifs <;> rfl

/-- The lengths the checks of `sov_verify_inv` make sure of. -/
lemma invChecks_lengths {A X : Buffer} {aLen xLen n : UInt64}
    (h : Verifier.invChecks A aLen X xLen n = .ok) :
    n.toNat * n.toNat ≤ aLen.toNat ∧ n.toNat * n.toNat ≤ xLen.toNat := by
  obtain ⟨-, h⟩ := andThen_eq_ok.mp h
  obtain ⟨-, h⟩ := andThen_eq_ok.mp h
  obtain ⟨hA, hX⟩ := andThen_eq_ok.mp h
  exact ⟨(entries_le_of_validate hA).2, (entries_le_of_validate hX).2⟩

lemma sovVerifyInv_eq (malloc : UInt64 → Bool) (A : Buffer) (aLen : UInt64) (X : Buffer)
    (xLen n : UInt64) (budget : Option SovResourceBudget) :
    sovVerifyInv malloc A aLen X xLen n budget
      = .ok (Verifier.sovVerifyInv malloc A aLen X xLen n budget) := by
  simp only [sovVerifyInv, Verifier.sovVerifyInv, invChecks_eq, ok_bind, safeAllocMatrix_eq]
  split_ifs with hnull hzero hlimits
  · rfl
  · rfl
  · rfl
  all_goals
    obtain ⟨hA, hX⟩ := invChecks_lengths (not_not.mp hlimits)
    have hprod : n.toNat * n.toNat < 2 ^ 64 := hA.trans_lt aLen.toNat_lt
    obtain ⟨a, y, rfl, rfl⟩ := exists_of_not_isNone₂ hnull
    cases halloc : Verifier.safeAllocMatrix malloc n n with
    | none => rfl
    | some product =>
        have hcap : n.toNat * n.toNat ≤ product.capacity.toNat := by
          rw [capacity_of_alloc halloc, UInt64.toNat_mul, Nat.mod_eq_of_lt hprod]
        simp only [sovMatrixMultWithBudget_eq hA hX hcap, ok_bind]
        cases (Verifier.sovMatrixMultWithBudget (some a) (some y) product.data n n n
          (some (budget.getD sovInitResourceBudget))).1 with
        | error res => rfl
        | ok values =>
            simp only [isIdentity_eq hcap, ok_bind]
            split_ifs <;> rfl

/-- Behind the checks each stage writes to a matrix that was allocated for it. -/
lemma lstsqStages_eq (malloc : ℕ → UInt64 → Bool) {A x b : ℕ → Int64} {aLen xLen bLen m n : UInt64}
    (hA : m.toNat * n.toNat ≤ aLen.toNat) (hx : n.toNat ≤ xLen.toNat) (hb : m.toNat ≤ bLen.toNat)
    (work : SovResourceBudget) :
    lstsqStages malloc A aLen x xLen b bLen m n work
      = .ok (Verifier.lstsqStages malloc A x b m n work) := by
  have hcost : mul m n = .ok (m * n) := mul_eq_ok (hA.trans_lt aLen.toNat_lt)
  rw [lstsqStages, Verifier.lstsqStages, safeAllocMatrix_eq, ok_bind]
  cases hax : Verifier.safeAllocMatrix (malloc 0) 1 m with
  | none => rfl
  | some ax =>
      have haxCap : m.toNat ≤ ax.capacity.toNat := by rw [capacity_of_alloc hax, UInt64.one_mul]
      simp only [sovMatrixVecMultWithBudget_eq hA hx haxCap, ok_bind, safeAllocMatrix_eq]
      cases (Verifier.sovMatrixVecMultWithBudget (some A) (some x) ax.data m n (some work)).1 with
      | error res => rfl
      | ok values =>
          cases hresidual : Verifier.safeAllocMatrix (malloc 1) 1 m with
          | none => rfl
          | some residual =>
              have hresCap : m.toNat ≤ residual.capacity.toNat := by
                rw [capacity_of_alloc hresidual, UInt64.one_mul]
              have hres : (residuals values ax.capacity b bLen residual.capacity m).run
                  = .ok (Verifier.residuals values b m) := residuals_safe haxCap hb hresCap
              simp only [hres, ok_bind]
              cases Verifier.residuals values b m with
              | error res => rfl
              | ok r =>
                  cases hresult : Verifier.safeAllocMatrix (malloc 2) 1 n with
                  | none => rfl
                  | some result =>
                      have hresultCap : n.toNat ≤ result.capacity.toNat := by
                        rw [capacity_of_alloc hresult, UInt64.one_mul]
                      have hcols : Safe
                          ((List.range n.toNat).mapM
                            (columnProduct A aLen r residual.capacity result.capacity m n))
                          ((List.range n.toNat).mapM (Verifier.columnProduct A r m n)) :=
                        Safe.mapM fun i hi =>
                          columnProduct_safe hA hresCap hresultCap (List.mem_range.mp hi)
                      rw [Safe] at hcols
                      simp only [hcost, sovAddOperationCost_eq, hcols, ok_bind]
                      split_ifs with hcharged
                      · rfl
                      · cases (List.range n.toNat).mapM (Verifier.columnProduct A r m n) with
                        | error res => rfl
                        | ok values =>
                            simp only [allZero_eq hresultCap, ok_bind]
                            split_ifs <;> rfl

lemma sovVerifyLstsq_eq (malloc : ℕ → UInt64 → Bool) (A : Buffer) (aLen : UInt64) (x : Buffer)
    (xLen : UInt64) (b : Buffer) (bLen m n : UInt64) (budget : Option SovResourceBudget) :
    sovVerifyLstsq malloc A aLen x xLen b bLen m n budget
      = .ok (Verifier.sovVerifyLstsq malloc A aLen x xLen b bLen m n budget) := by
  match A, x, b with
  | none, _, _ | some _, none, _ | some _, some _, none => rfl
  | some a, some y, some c =>
      simp only [sovVerifyLstsq, Verifier.sovVerifyLstsq, solChecks_eq, ok_bind]
      split_ifs with hzero hlimits hbudget
      · rfl
      · rfl
      all_goals
        obtain ⟨hA, hx, hb⟩ := solChecks_lengths (not_not.mp hlimits)
        rw [lstsqStages_eq malloc hA hx hb]
        rfl

end Bounded

/-- On all inputs the engines and the safe product run without a fault: every index of an entry
is below the length of its buffer, and no product or sum that is an index, the size of an
allocation or the cost of operations wraps around. What they return is what the functions of the
source return. -/
theorem indices_safe :
    (∀ (malloc : UInt64 → Bool) (A : Buffer) (aLen : UInt64) (X : Buffer) (xLen n : UInt64)
        (budget : Option SovResourceBudget),
      Bounded.sovVerifyInv malloc A aLen X xLen n budget
        = .ok (sovVerifyInv malloc A aLen X xLen n budget))
      ∧ (∀ (malloc : UInt64 → Bool) (A : Buffer) (aLen : UInt64) (x : Buffer) (xLen : UInt64)
          (b : Buffer) (bLen m n : UInt64) (budget : Option SovResourceBudget),
        Bounded.sovVerifySol malloc A aLen x xLen b bLen m n budget
          = .ok (sovVerifySol malloc A aLen x xLen b bLen m n budget))
      ∧ (∀ (malloc : ℕ → UInt64 → Bool) (A : Buffer) (aLen : UInt64) (x : Buffer) (xLen : UInt64)
          (b : Buffer) (bLen m n : UInt64) (budget : Option SovResourceBudget),
        Bounded.sovVerifyLstsq malloc A aLen x xLen b bLen m n budget
          = .ok (sovVerifyLstsq malloc A aLen x xLen b bLen m n budget))
      ∧ ∀ (A : Buffer) (aLen : UInt64) (x : Buffer) (xLen : UInt64) (result : Buffer)
          (rLen m n : UInt64),
        Bounded.sovMatrixVecMultSafe A aLen x xLen result rLen m n
          = .ok (sovMatrixVecMultSafe A aLen x xLen result rLen m n) :=
  ⟨Bounded.sovVerifyInv_eq, Bounded.sovVerifySol_eq, Bounded.sovVerifyLstsq_eq,
    Bounded.sovMatrixVecMultSafe_eq⟩

end Verifier

end SovereignBus
