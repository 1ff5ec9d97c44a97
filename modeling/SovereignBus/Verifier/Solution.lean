import SovereignBus.Verifier.Limits

/-!
The verifier of linear systems of `src/verifier/sov_verifier.c`.

* `checkedMuladd`, `rowProduct`, `sovMatrixVecMultWithBudget`,
  `sovMatrixEqual`, `sovVerifySol`: the functions of the source. An error ends
  a product, so of a failed one only the result is kept.
* `checkedMuladd_exactOn`: the step of the inner loop is exact as long as the
  product and the sum fit; `checkedDot_ok` and `checkedDot_overflow` carry this
  through a dot product, `matrixVec_ok` and `matrixVec_overflow` through the
  rows.
* `sovVerifySol_congr`: no entry behind a declared length is read.
* `sov_verify_sol_exact`: verdicts are exact over the integers, and overflow is
  reported exactly when it occurs.
-/

namespace SovereignBus

namespace Verifier

open Checked

/-- `checked_muladd`: the new value of `*c`. -/
def checkedMuladd (c a b : Int64) : Except VerifyResult Int64 :=
  let product := mulOverflow a b
  if product.1 then .error .overflow
  else
    let sum := addOverflow c product.2
    if sum.1 then .error .overflow else .ok sum.2

/-- The inner loop of the product: `result[i]` after the columns of the row
`i`, with the index computed on 64 bits. -/
def rowProduct (A x : ℕ → Int64) (n : UInt64) (i : ℕ) : Except VerifyResult Int64 :=
  (List.range n.toNat).foldlM
    (fun c j => checkedMuladd c (A (UInt64.ofNat i * n + UInt64.ofNat j).toNat) (x j)) 0

/-- The charge for `m * n` operations: the result and the budget it leaves. -/
def chargeProduct (m n : UInt64) :
    Option SovResourceBudget → VerifyResult × Option SovResourceBudget
  | none => (.ok, none)
  | some budget =>
      if m > 0 ∧ n > sizeMax / m then (.overflow, some budget)
      else
        let r := sovAddOperationCost budget (m * n)
        (r.1, some r.2)

/-- `sov_matrix_vec_mult_with_budget`: the values of `result`, or the error,
and the budget. The flag tells whether the pointer `result` is not `NULL`. -/
def sovMatrixVecMultWithBudget (A x : Buffer) (result : Bool) (m n : UInt64)
    (budget : Option SovResourceBudget) :
    Except VerifyResult (List Int64) × Option SovResourceBudget :=
  match A, x, result with
  | some A, some x, true =>
      let charged := chargeProduct m n budget
      if charged.1 ≠ .ok then (.error charged.1, charged.2)
      else ((List.range m.toNat).mapM (rowProduct A x n), charged.2)
  | _, _, _ => (.error .nullInput, budget)

/-- `sov_matrix_equal`. -/
def sovMatrixEqual (A B : Buffer) (nelems : UInt64) : Bool :=
  match A, B with
  | some A, some B => (List.range nelems.toNat).all fun i => A i == B i
  | _, _ => false

/-- The checks of `sov_verify_sol` on dimensions, cells and lengths, in
order. -/
def solChecks (A : Buffer) (aLen : UInt64) (x : Buffer) (xLen : UInt64) (b : Buffer)
    (bLen m n : UInt64) : VerifyResult :=
  (sovCheckDimensions m n).andThen <|
    (sovCheckMatrixCells m n).andThen <|
      (validateMatrixBuffer A m n aLen).andThen <|
        (validateMatrixBuffer x 1 n xLen).andThen (validateMatrixBuffer b 1 m bLen)

/-- `sov_verify_sol`: the verdict and the caller's budget. Without a budget of
the caller's the function works on a fresh one. -/
def sovVerifySol (malloc : UInt64 → Bool) (A : Buffer) (aLen : UInt64) (x : Buffer) (xLen : UInt64)
    (b : Buffer) (bLen m n : UInt64) (budget : Option SovResourceBudget) :
    VerifyResult × Option SovResourceBudget :=
  if A.isNone ∨ x.isNone ∨ b.isNone then (.nullInput, budget)
  else if m = 0 ∨ n = 0 then (.dimensionMismatch, budget)
  else
    let work := budget.getD sovInitResourceBudget
    let checks := solChecks A aLen x xLen b bLen m n
    if checks ≠ .ok then (checks, budget)
    else
      match safeAllocMatrix malloc 1 m with
      | none => (.allocFailure, budget)
      | some product =>
          let r := sovMatrixVecMultWithBudget A x product.data m n (some work)
          let verdict :=
            match r.1 with
            | .error res => res
            | .ok values =>
                if sovMatrixEqual (some fun i => values.getD i 0) b m then .ok else .fail
          (verdict, if budget.isSome then r.2 else none)

/-! ### The product -/

/-- The exact value of the row `i` up to the column `j`. -/
def partialSum (A x : ℕ → Int64) (n i j : ℕ) : ℤ :=
  ∑ k ∈ Finset.range j, (A (i * n + k)).toInt * (x k).toInt

/-- Some product or left-to-right partial sum of the row leaves the range. -/
def RowOverflows (A x : ℕ → Int64) (n i : ℕ) : Prop :=
  ∃ j < n, ¬ Fits ((A (i * n + j)).toInt * (x j).toInt) ∨ ¬ Fits (partialSum A x n i (j + 1))

/-- The step of the inner loop is exact as long as the product and the sum
fit. -/
lemma checkedMuladd_exactOn (a x : ℕ → Int64) :
    ExactOn Int64.toInt
      (fun v j => Fits ((a j).toInt * (x j).toInt) ∧ Fits (v + (a j).toInt * (x j).toInt))
      (fun v j => v + (a j).toInt * (x j).toInt)
      (fun c j => checkedMuladd c (a j) (x j)) .overflow where
  exact_of_ok c j := by
    rintro ⟨hmul, hadd⟩
    have hprod : (mulOverflow (a j) (x j)).2.toInt = (a j).toInt * (x j).toInt :=
      mulOverflow_exact hmul
    rw [← hprod] at hadd ⊢
    refine ⟨(addOverflow c (mulOverflow (a j) (x j)).2).2, ?_, addOverflow_exact hadd⟩
    rw [checkedMuladd, if_neg (by rw [mulOverflow_iff, not_not]; exact hmul),
      if_neg (by rw [addOverflow_iff, not_not]; exact hadd)]
  error_of_not c j hnot := by
    rw [checkedMuladd]
    by_cases hmul : Fits ((a j).toInt * (x j).toInt)
    · have hadd := not_and.mp hnot hmul
      rw [← mulOverflow_exact hmul] at hadd
      rw [if_neg (by rw [mulOverflow_iff, not_not]; exact hmul),
        if_pos ((addOverflow_iff _ _).mpr hadd)]
    · rw [if_pos ((mulOverflow_iff _ _).mpr hmul)]

lemma foldl_range_eq_sum (t : ℕ → ℤ) (n : ℕ) :
    (List.range n).foldl (fun v j => v + t j) 0 = ∑ k ∈ Finset.range n, t k := by
  induction n with
  | zero => rfl
  | succ n ih => rw [List.range_succ, List.foldl_append, ih, Finset.sum_range_succ]; rfl

/-- Some product or left-to-right partial sum of a dot product leaves the
range. -/
def DotOverflows (a x : ℕ → ℤ) (n : ℕ) : Prop :=
  ∃ j < n, ¬ Fits (a j * x j) ∨ ¬ Fits (∑ k ∈ Finset.range (j + 1), a k * x k)

/-- The steps of a dot product are all allowed exactly when it does not
overflow. -/
lemma allOk_dot_iff (a x : ℕ → ℤ) (n : ℕ) :
    AllOk (fun v j => Fits (a j * x j) ∧ Fits (v + a j * x j)) (fun v j => v + a j * x j) 0
      (List.range n) ↔ ¬ DotOverflows a x n := by
  simp only [AllOk, List.length_range, List.getElem_range, List.take_range, DotOverflows,
    not_exists, not_and, not_or, not_not]
  refine forall₂_congr fun j hj => ?_
  rw [Nat.min_eq_left hj.le, foldl_range_eq_sum fun k => a k * x k, Finset.sum_range_succ]

section Dot

variable {a x : ℕ → Int64} {n : ℕ}

/-- A dot product that does not overflow is computed exactly. -/
lemma checkedDot_ok (h : ¬ DotOverflows (fun j => (a j).toInt) (fun j => (x j).toInt) n) :
    ∃ c, (List.range n).foldlM (fun c j => checkedMuladd c (a j) (x j)) 0 = .ok c
      ∧ c.toInt = ∑ k ∈ Finset.range n, (a k).toInt * (x k).toInt := by
  obtain ⟨c, hc, hval⟩ :=
    (checkedMuladd_exactOn a x).foldlM_ok (w := 0) ((allOk_dot_iff _ _ n).mpr h)
  refine ⟨c, hc, ?_⟩
  calc c.toInt
      = (List.range n).foldl (fun v j => v + (a j).toInt * (x j).toInt) 0 := hval
    _ = ∑ k ∈ Finset.range n, (a k).toInt * (x k).toInt :=
        foldl_range_eq_sum (fun k => (a k).toInt * (x k).toInt) n

/-- A dot product that overflows is reported. -/
lemma checkedDot_overflow (h : DotOverflows (fun j => (a j).toInt) (fun j => (x j).toInt) n) :
    (List.range n).foldlM (fun c j => checkedMuladd c (a j) (x j)) 0
      = .error VerifyResult.overflow := by
  refine (checkedMuladd_exactOn a x).foldlM_error (w := 0) ?_
  exact fun hall => (allOk_dot_iff _ _ n).mp hall h

/-- A computed dot product is exact, and did not overflow. -/
lemma checkedDot_eq_ok {c : Int64}
    (h : (List.range n).foldlM (fun c j => checkedMuladd c (a j) (x j)) 0
      = (.ok c : Except VerifyResult Int64)) :
    ¬ DotOverflows (fun j => (a j).toInt) (fun j => (x j).toInt) n
      ∧ c.toInt = ∑ k ∈ Finset.range n, (a k).toInt * (x k).toInt := by
  have hover : ¬ DotOverflows (fun j => (a j).toInt) (fun j => (x j).toInt) n := fun hover => by
    rw [checkedDot_overflow hover] at h
    exact absurd h (by simp)
  obtain ⟨c', hc', hval⟩ := checkedDot_ok hover
  rw [h] at hc'
  obtain rfl := Except.ok.inj hc'
  exact ⟨hover, hval⟩

/-- A dot product only fails by an overflow. -/
lemma checkedDot_eq_error {res : VerifyResult}
    (h : (List.range n).foldlM (fun c j => checkedMuladd c (a j) (x j)) 0 = .error res) :
    res = .overflow := by
  by_cases hover : DotOverflows (fun j => (a j).toInt) (fun j => (x j).toInt) n
  · rw [checkedDot_overflow hover] at h
    exact (Except.error.inj h).symm
  · obtain ⟨c, hc, -⟩ := checkedDot_ok hover
    rw [hc] at h
    exact absurd h (by simp)

end Dot

/-- The index of an entry does not wrap once the dimensions have been
checked. -/
lemma index_toNat {m n : UInt64} (hdim : sovCheckDimensions m n = .ok) {i j : ℕ}
    (hi : i < m.toNat) (hj : j < n.toNat) :
    (UInt64.ofNat i * n + UInt64.ofNat j).toNat = i * n.toNat + j := by
  obtain ⟨hm, hn⟩ := sovCheckDimensions_le hdim
  have hprod : i * n.toNat ≤ 65536 * 65536 := Nat.mul_le_mul (by omega) hn
  rw [UInt64.toNat_add, UInt64.toNat_mul, UInt64.toNat_ofNat_of_lt' (by rw [UInt64.size]; omega),
    UInt64.toNat_ofNat_of_lt' (by rw [UInt64.size]; omega)]
  omega

/-- The loop of a row is the checked loop over its entries. -/
lemma rowProduct_eq {m n : UInt64} (hdim : sovCheckDimensions m n = .ok) (A x : ℕ → Int64) {i : ℕ}
    (hi : i < m.toNat) :
    rowProduct A x n i
      = (List.range n.toNat).foldlM
          (fun c j => checkedMuladd c (A (i * n.toNat + j)) (x j)) 0 := by
  rw [rowProduct]
  exact foldlM_congr (fun j hj c => by rw [index_toNat hdim hi (List.mem_range.mp hj)]) 0

/-- A row that does not overflow is computed exactly. -/
lemma rowProduct_ok {m n : UInt64} (hdim : sovCheckDimensions m n = .ok) {A x : ℕ → Int64} {i : ℕ}
    (hi : i < m.toNat) (hrow : ¬ RowOverflows A x n.toNat i) :
    ∃ c, rowProduct A x n i = .ok c ∧ c.toInt = partialSum A x n.toNat i n.toNat := by
  rw [rowProduct_eq hdim A x hi]
  exact checkedDot_ok hrow

/-- A row that overflows is reported. -/
lemma rowProduct_overflow {m n : UInt64} (hdim : sovCheckDimensions m n = .ok) {A x : ℕ → Int64}
    {i : ℕ} (hi : i < m.toNat) (hrow : RowOverflows A x n.toNat i) :
    rowProduct A x n i = .error .overflow := by
  rw [rowProduct_eq hdim A x hi]
  exact checkedDot_overflow hrow

/-- Without an overflow the values of the product are the exact rows. -/
lemma matrixVec_ok {m n : UInt64} (hdim : sovCheckDimensions m n = .ok) {A x : ℕ → Int64}
    (hrows : ∀ i < m.toNat, ¬ RowOverflows A x n.toNat i) :
    ∃ values, (List.range m.toNat).mapM (rowProduct A x n) = .ok values
      ∧ ∀ i < m.toNat, (values.getD i 0).toInt = partialSum A x n.toNat i n.toNat := by
  obtain ⟨values, hval, hlen, hall⟩ := mapM_range_ok fun i hi => rowProduct_ok hdim hi (hrows i hi)
  refine ⟨values, hval, fun i hi => ?_⟩
  rw [List.getD_eq_getElem _ _ (by omega)]
  exact hall i (by omega)

/-- With an overflow the product is not computed. -/
lemma matrixVec_overflow {m n : UInt64} (hdim : sovCheckDimensions m n = .ok) {A x : ℕ → Int64}
    (hrows : ∃ i < m.toNat, RowOverflows A x n.toNat i) :
    (List.range m.toNat).mapM (rowProduct A x n) = .error .overflow := by
  refine mapM_range_error (fun i hi => ?_) ?_
  · by_cases hrow : RowOverflows A x n.toNat i
    · exact Or.inr (rowProduct_overflow hdim hi hrow)
    · obtain ⟨c, hc, -⟩ := rowProduct_ok hdim hi hrow
      exact Or.inl ⟨c, hc⟩
  · obtain ⟨i, hi, hrow⟩ := hrows
    exact ⟨i, hi, rowProduct_overflow hdim hi hrow⟩

/-! ### The verdict -/

/-- Every check of `sov_verify_sol` passes, the allocation between them
included: the work budget takes the charge for the product. -/
structure ChecksPass (malloc : UInt64 → Bool) (A : Buffer) (aLen : UInt64) (x : Buffer)
    (xLen : UInt64) (b : Buffer) (bLen m n : UInt64) (budget : Option SovResourceBudget) :
    Prop where
  rows : m ≠ 0
  cols : n ≠ 0
  limits : solChecks A aLen x xLen b bLen m n = .ok
  allocated : (safeAllocMatrix malloc 1 m).isSome
  charged : (chargeProduct m n (some (budget.getD sovInitResourceBudget))).1 = .ok

/-- The comparison of the computed rows with the right-hand side. -/
lemma sovMatrixEqual_iff {values : List Int64} {b : ℕ → Int64} {m : UInt64} {t : ℕ → ℤ}
    (h : ∀ i < m.toNat, (values.getD i 0).toInt = t i) :
    sovMatrixEqual (some fun i => values.getD i 0) (some b) m = true
      ↔ ∀ i < m.toNat, t i = (b i).toInt := by
  rw [sovMatrixEqual, List.all_eq_true]
  simp only [List.mem_range, beq_iff_eq]
  refine forall₂_congr fun i hi => ?_
  rw [← h i hi, Int64.toInt_inj]

lemma solChecks_ne_fail (A : Buffer) (aLen : UInt64) (x : Buffer) (xLen : UInt64) (b : Buffer)
    (bLen m n : UInt64) : solChecks A aLen x xLen b bLen m n ≠ .fail :=
  andThen_ne_fail (sovCheckDimensions_ne_fail m n) <|
    andThen_ne_fail (sovCheckMatrixCells_ne_fail m n) <|
      andThen_ne_fail (validateMatrixBuffer_ne_fail A m n aLen) <|
        andThen_ne_fail (validateMatrixBuffer_ne_fail x 1 n xLen)
          (validateMatrixBuffer_ne_fail b 1 m bLen)

lemma chargeProduct_ne_fail (m n : UInt64) (budget : Option SovResourceBudget) :
    (chargeProduct m n budget).1 ≠ .fail := by
  cases budget with
  | none => simp [chargeProduct]
  | some budget =>
      rw [chargeProduct]
      split_ifs
      · simp
      · exact sovAddOperationCost_ne_fail budget _

section Verdict

variable {malloc : UInt64 → Bool} {A x b : ℕ → Int64} {aLen xLen bLen m n : UInt64}
  {budget : Option SovResourceBudget}

/-- Without passing the checks there is no verdict. -/
lemma sovVerifySol_of_not_pass
    (hpass : ¬ ChecksPass malloc (some A) aLen (some x) xLen (some b) bLen m n budget) :
    (sovVerifySol malloc (some A) aLen (some x) xLen (some b) bLen m n budget).1 ≠ .ok
      ∧ (sovVerifySol malloc (some A) aLen (some x) xLen (some b) bLen m n budget).1 ≠ .fail := by
  rw [sovVerifySol, if_neg (by simp)]
  by_cases hzero : m = 0 ∨ n = 0
  · simp [hzero]
  by_cases hlimits : solChecks (some A) aLen (some x) xLen (some b) bLen m n = .ok
  · cases halloc : safeAllocMatrix malloc 1 m with
    | none => simp [hzero, hlimits]
    | some product =>
        have hdata := safeAllocMatrix_data (by simpa using not_or.mp hzero |>.1) halloc
        have hcharge : (chargeProduct m n (some (budget.getD sovInitResourceBudget))).1 ≠ .ok :=
          fun hcharged => hpass ⟨fun hm => hzero (Or.inl hm), fun hn => hzero (Or.inr hn), hlimits,
            by rw [halloc]; rfl, hcharged⟩
        have hfail := chargeProduct_ne_fail m n (some (budget.getD sovInitResourceBudget))
        simp [hzero, hlimits, hdata, sovMatrixVecMultWithBudget, hcharge, hfail]
  · simp [hzero, hlimits, solChecks_ne_fail]

/-- Past the checks the answer is that of the product and the comparison. -/
lemma sovVerifySol_of_pass
    (hpass : ChecksPass malloc (some A) aLen (some x) xLen (some b) bLen m n budget) :
    (sovVerifySol malloc (some A) aLen (some x) xLen (some b) bLen m n budget).1
      = match (List.range m.toNat).mapM (rowProduct A x n) with
        | .error res => res
        | .ok values =>
            if sovMatrixEqual (some fun i => values.getD i 0) (some b) m then .ok else .fail := by
  obtain ⟨hm, hn, hlimits, halloc, hcharged⟩ := hpass
  obtain ⟨product, hproduct⟩ := Option.isSome_iff_exists.mp halloc
  have hdata := safeAllocMatrix_data (by simpa using hm) hproduct
  simp [sovVerifySol, hm, hn, hlimits, hproduct, hdata, sovMatrixVecMultWithBudget, hcharged]

lemma ChecksPass.dimensions
    (hpass : ChecksPass malloc (some A) aLen (some x) xLen (some b) bLen m n budget) :
    sovCheckDimensions m n = .ok :=
  (andThen_eq_ok.mp hpass.limits).1

/-- Past the checks, a row that overflows is reported. -/
lemma sovVerifySol_overflow
    (hpass : ChecksPass malloc (some A) aLen (some x) xLen (some b) bLen m n budget)
    (hrows : ∃ i < m.toNat, RowOverflows A x n.toNat i) :
    (sovVerifySol malloc (some A) aLen (some x) xLen (some b) bLen m n budget).1 = .overflow := by
  rw [sovVerifySol_of_pass hpass, matrixVec_overflow hpass.dimensions hrows]

/-- Past the checks and without an overflow, the verdict is the comparison over
the integers. -/
lemma sovVerifySol_verdict
    (hpass : ChecksPass malloc (some A) aLen (some x) xLen (some b) bLen m n budget)
    (hrows : ∀ i < m.toNat, ¬ RowOverflows A x n.toNat i) :
    ((sovVerifySol malloc (some A) aLen (some x) xLen (some b) bLen m n budget).1 = .ok
        ∧ ∀ i < m.toNat, partialSum A x n.toNat i n.toNat = (b i).toInt)
      ∨ ((sovVerifySol malloc (some A) aLen (some x) xLen (some b) bLen m n budget).1 = .fail
        ∧ ∃ i < m.toNat, partialSum A x n.toNat i n.toNat ≠ (b i).toInt) := by
  obtain ⟨values, hvalues, hexact⟩ := matrixVec_ok hpass.dimensions hrows
  rw [sovVerifySol_of_pass hpass, hvalues]
  by_cases hequal : ∀ i < m.toNat, partialSum A x n.toNat i n.toNat = (b i).toInt
  · exact Or.inl ⟨if_pos ((sovMatrixEqual_iff hexact).mpr hequal), hequal⟩
  · refine Or.inr ⟨if_neg fun h => hequal ((sovMatrixEqual_iff hexact).mp h), ?_⟩
    push Not at hequal
    exact hequal

end Verdict

/-! ### What the function reads -/

/-- The lengths the checks make sure of. -/
lemma solChecks_lengths {A x b : Buffer} {aLen xLen bLen m n : UInt64}
    (h : solChecks A aLen x xLen b bLen m n = .ok) :
    m.toNat * n.toNat ≤ aLen.toNat ∧ n.toNat ≤ xLen.toNat ∧ m.toNat ≤ bLen.toNat := by
  obtain ⟨hdim, h⟩ := andThen_eq_ok.mp h
  obtain ⟨-, h⟩ := andThen_eq_ok.mp h
  obtain ⟨hA, h⟩ := andThen_eq_ok.mp h
  obtain ⟨hx, hb⟩ := andThen_eq_ok.mp h
  obtain ⟨hm, hn⟩ := sovCheckDimensions_le hdim
  have hprod : m.toNat * n.toNat ≤ 65536 * 65536 := Nat.mul_le_mul hm hn
  have hA' := validateMatrixBuffer_le hA
  have hx' := validateMatrixBuffer_le hx
  have hb' := validateMatrixBuffer_le hb
  rw [UInt64.toNat_mul, Nat.mod_eq_of_lt (by omega)] at hA'
  rw [UInt64.one_mul] at hx' hb'
  exact ⟨hA', hx', hb'⟩

/-- The entries of a row that the loop reads. -/
lemma rowProduct_congr {m n : UInt64} (hdim : sovCheckDimensions m n = .ok)
    {A A' x x' : ℕ → Int64} {i : ℕ} (hi : i < m.toNat)
    (hA : ∀ k < m.toNat * n.toNat, A k = A' k) (hx : ∀ j < n.toNat, x j = x' j) :
    rowProduct A x n i = rowProduct A' x' n i := by
  rw [rowProduct_eq hdim A x hi, rowProduct_eq hdim A' x' hi]
  refine foldlM_congr ?_ 0
  intro j hj c
  have hjn := List.mem_range.mp hj
  have hk : i * n.toNat + j < m.toNat * n.toNat :=
    calc i * n.toNat + j < (i + 1) * n.toNat := by rw [Nat.succ_mul]; omega
      _ ≤ m.toNat * n.toNat := Nat.mul_le_mul_right _ hi
  rw [hA _ hk, hx j hjn]

/-- No entry behind a declared length is read: buffers that agree up to their
declared lengths are answered alike. -/
theorem sovVerifySol_congr {malloc : UInt64 → Bool} {A A' x x' b b' : ℕ → Int64}
    {aLen xLen bLen m n : UInt64} {budget : Option SovResourceBudget}
    (hA : ∀ k < aLen.toNat, A k = A' k) (hx : ∀ k < xLen.toNat, x k = x' k)
    (hb : ∀ k < bLen.toNat, b k = b' k) :
    sovVerifySol malloc (some A) aLen (some x) xLen (some b) bLen m n budget
      = sovVerifySol malloc (some A') aLen (some x') xLen (some b') bLen m n budget := by
  have hchecks : solChecks (some A) aLen (some x) xLen (some b) bLen m n
      = solChecks (some A') aLen (some x') xLen (some b') bLen m n := rfl
  by_cases hlimits : solChecks (some A) aLen (some x) xLen (some b) bLen m n = .ok
  · obtain ⟨hAlen, hxlen, hblen⟩ := solChecks_lengths hlimits
    have hproduct : (List.range m.toNat).mapM (rowProduct A x n)
        = (List.range m.toNat).mapM (rowProduct A' x' n) := by
      refine mapM_congr ?_
      intro i hi
      exact rowProduct_congr (andThen_eq_ok.mp hlimits).1 (List.mem_range.mp hi)
        (fun k hk => hA k (by omega)) fun j hj => hx j (by omega)
    have hequal : ∀ values : Buffer,
        sovMatrixEqual values (some b) m = sovMatrixEqual values (some b') m := by
      intro values
      cases values with
      | none => rfl
      | some values =>
          rw [sovMatrixEqual, sovMatrixEqual, Bool.eq_iff_iff, List.all_eq_true, List.all_eq_true]
          refine forall₂_congr fun i hi => ?_
          have him := List.mem_range.mp hi
          rw [hb i (by omega)]
    have hvec : ∀ result budget,
        sovMatrixVecMultWithBudget (some A) (some x) result m n budget
          = sovMatrixVecMultWithBudget (some A') (some x') result m n budget := by
      intro result budget
      cases result with
      | true => simp only [sovMatrixVecMultWithBudget, hproduct]
      | false => rfl
    simp only [sovVerifySol, Option.isNone_some, ← hchecks, hvec, hequal]
  · simp [sovVerifySol, ← hchecks, hlimits]

/-- The verdicts of `sov_verify_sol` are exact over the integers, for every
budget, and past the checks it reports an overflow exactly when a product or a
partial sum of a row leaves the range of `int64_t`. -/
theorem sov_verify_sol_exact (malloc : UInt64 → Bool) (A x b : ℕ → Int64)
    (aLen xLen bLen m n : UInt64) (budget : Option SovResourceBudget) :
    let result := (sovVerifySol malloc (some A) aLen (some x) xLen (some b) bLen m n budget).1
    (result = .ok → ∀ i < m.toNat, partialSum A x n.toNat i n.toNat = (b i).toInt)
      ∧ (result = .fail → ∃ i < m.toNat, partialSum A x n.toNat i n.toNat ≠ (b i).toInt)
      ∧ (ChecksPass malloc (some A) aLen (some x) xLen (some b) bLen m n budget →
          (result = .overflow ↔ ∃ i < m.toNat, RowOverflows A x n.toNat i)) := by
  intro result
  by_cases hpass : ChecksPass malloc (some A) aLen (some x) xLen (some b) bLen m n budget
  · by_cases hrows : ∃ i < m.toNat, RowOverflows A x n.toNat i
    · have hres : result = .overflow := sovVerifySol_overflow hpass hrows
      rw [hres]
      exact ⟨by simp, by simp, fun _ => iff_of_true rfl hrows⟩
    · have hnone : ∀ i < m.toNat, ¬ RowOverflows A x n.toNat i := fun i hi hrow =>
        hrows ⟨i, hi, hrow⟩
      rcases sovVerifySol_verdict hpass hnone with ⟨hres, hall⟩ | ⟨hres, hsome⟩
      · rw [show result = .ok from hres]
        exact ⟨fun _ => hall, by simp, fun _ => iff_of_false (by simp) hrows⟩
      · rw [show result = .fail from hres]
        exact ⟨by simp, fun _ => hsome, fun _ => iff_of_false (by simp) hrows⟩
  · obtain ⟨hok, hfail⟩ := sovVerifySol_of_not_pass hpass
    exact ⟨fun h => absurd h hok, fun h => absurd h hfail, fun h => absurd h hpass⟩

end Verifier

end SovereignBus
