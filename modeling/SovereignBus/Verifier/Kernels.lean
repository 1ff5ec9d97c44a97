import SovereignBus.Verifier.LeastSquares
import SovereignBus.Library.Loop
import SovereignBus.Library.Guarded

/-!
The matrix kernels of `src/verifier/sov_verifier.c` on the memory behind their result.

* `KernelM`: the loops of a kernel. `checkedMuladdAt` is the step that a product of 64 bits
  ends before anything is stored, and a sum of 64 bits behind the store.
* `sovMatrixVecMultWithBudget`, `sovMatrixVecMult`, `sovMatrixMultWithBudget`,
  `sovMatrixTranspose`: the functions of the source, with the memory they leave.
* `vecMult_refines`: the memory of a product that succeeds holds the values of the product
  as a list.
* `kernels_agree`: the product with a vector is the product with a matrix of one column, in
  all it leaves, and the loop of `sov_verify_lstsq` over the columns is the product with the
  transposed matrix.
-/

namespace SovereignBus

namespace Verifier

namespace Kernel

open Checked

/-- The entries behind a pointer. -/
abbrev Memory := ℕ → Int64

/-- Loops over the memory behind `result`. A result other than `VER_OK` ends them, and
leaves the memory as it is then. -/
abbrev KernelM := ExceptT VerifyResult (StateM Memory)

/-- A run of loops: how it ends, and the memory. -/
def exec {α : Type} (loops : KernelM α) (mem : Memory) : Except VerifyResult α × Memory :=
  loops.run.run mem

/-- `result[k] = v`. -/
def store (k : UInt64) (v : Int64) : KernelM Unit := modify fun mem => Function.update mem k.toNat v

/-- `checked_muladd(&result[k], a, b)`. A sum that overflows is stored as it wrapped. -/
def checkedMuladdAt (k : UInt64) (a b : Int64) : KernelM Unit := do
  let product := mulOverflow a b
  if product.1 then throw .overflow
  else
    let mem ← get
    let sum := addOverflow (mem k.toNat) product.2
    store k sum.2
    if sum.1 then throw .overflow

/-- What a kernel leaves: its result, the memory behind `result`, and the budget. -/
structure Outcome where
  status : VerifyResult
  result : Buffer
  budget : Option SovResourceBudget

/-- What loops leave of the memory. -/
def outcome (loops : KernelM Unit) (mem : Memory) (budget : Option SovResourceBudget) : Outcome :=
  match exec loops mem with
  | (.ok _, mem) => ⟨.ok, some mem, budget⟩
  | (.error res, mem) => ⟨res, some mem, budget⟩

/-- The loops of the product with a vector. -/
def vecMultLoops (A x : ℕ → Int64) (m n : UInt64) : KernelM Unit :=
  forM (List.range m.toNat) fun i => do
    store (UInt64.ofNat i) 0
    forM (List.range n.toNat) fun j =>
      checkedMuladdAt (UInt64.ofNat i) (A (UInt64.ofNat i * n + UInt64.ofNat j).toNat) (x j)

/-- `sov_matrix_vec_mult_with_budget`. -/
def sovMatrixVecMultWithBudget (A x result : Buffer) (m n : UInt64)
    (budget : Option SovResourceBudget) : Outcome :=
  match A, x, result with
  | some A, some x, some mem =>
      let charged := chargeProduct m n budget
      if charged.1 ≠ .ok then ⟨charged.1, some mem, charged.2⟩
      else outcome (vecMultLoops A x m n) mem charged.2
  | _, _, _ => ⟨.nullInput, result, budget⟩

/-- `sov_matrix_vec_mult`. -/
def sovMatrixVecMult (A x result : Buffer) (m n : UInt64) : Outcome :=
  sovMatrixVecMultWithBudget A x result m n none

/-- The loops of the product with a matrix. -/
def multLoops (A B : ℕ → Int64) (m n p : UInt64) : KernelM Unit :=
  forM (List.range m.toNat) fun i =>
    forM (List.range p.toNat) fun j => do
      store (UInt64.ofNat i * p + UInt64.ofNat j) 0
      forM (List.range n.toNat) fun k =>
        checkedMuladdAt (UInt64.ofNat i * p + UInt64.ofNat j)
          (A (UInt64.ofNat i * n + UInt64.ofNat k).toNat)
          (B (UInt64.ofNat k * p + UInt64.ofNat j).toNat)

/-- `sov_matrix_mult_with_budget`. -/
def sovMatrixMultWithBudget (A B result : Buffer) (m n p : UInt64)
    (budget : Option SovResourceBudget) : Outcome :=
  match A, B, result with
  | some A, some B, some mem =>
      let charged := chargeMatrixProduct m n p budget
      if charged.1 ≠ .ok then ⟨charged.1, some mem, charged.2⟩
      else outcome (multLoops A B m n p) mem charged.2
  | _, _, _ => ⟨.nullInput, result, budget⟩

/-- The loops of the transposition. -/
def transposeLoops (A : ℕ → Int64) (m n : UInt64) : KernelM Unit :=
  forM (List.range m.toNat) fun i =>
    forM (List.range n.toNat) fun j =>
      store (UInt64.ofNat j * m + UInt64.ofNat i) (A (UInt64.ofNat i * n + UInt64.ofNat j).toNat)

/-- `sov_matrix_transpose`. It knows no budget. -/
def sovMatrixTranspose (A result : Buffer) (m n : UInt64) : Outcome :=
  match A, result with
  | some A, some mem => outcome (transposeLoops A m n) mem none
  | _, _ => ⟨.nullInput, result, none⟩

/-! ### Runs -/

section Runs

variable {α β : Type} {mem mem' : Memory}

lemma exec_bind_ok {loops : KernelM α} {a : α} (h : exec loops mem = (.ok a, mem'))
    (f : α → KernelM β) : exec (loops >>= f) mem = exec (f a) mem' := by
  have hrun : loops.run.run mem = (.ok a, mem') := h
  rw [exec, exec, ExceptT.run_bind, StateT.run_bind, hrun]
  rfl

lemma exec_bind_error {loops : KernelM α} {e : VerifyResult} (h : exec loops mem = (.error e, mem'))
    (f : α → KernelM β) : exec (loops >>= f) mem = (.error e, mem') := by
  have hrun : loops.run.run mem = (.error e, mem') := h
  rw [exec, ExceptT.run_bind, StateT.run_bind, hrun]
  rfl

@[simp] lemma exec_store (k : UInt64) (v : Int64) (mem : Memory) :
    exec (store k v) mem = (.ok (), Function.update mem k.toNat v) := rfl

lemma exec_forM_cons_ok {f : α → KernelM Unit} {i : α} {is : List α}
    (h : exec (f i) mem = (.ok (), mem')) :
    exec (forM (i :: is) f) mem = exec (forM is f) mem' := by
  rw [List.forM_cons, exec_bind_ok h]

lemma exec_forM_cons_error {f : α → KernelM Unit} {i : α} {is : List α} {e : VerifyResult}
    (h : exec (f i) mem = (.error e, mem')) :
    exec (forM (i :: is) f) mem = (.error e, mem') := by
  rw [List.forM_cons, exec_bind_error h]

lemma forM_congr {f g : α → KernelM Unit} {is : List α} (h : ∀ i ∈ is, f i = g i) :
    forM is f = forM is g := by
  induction is with
  | nil => rfl
  | cons i is ih =>
      rw [List.forM_cons, List.forM_cons, h i List.mem_cons_self,
        ih fun j hj => h j (List.mem_cons_of_mem i hj)]

lemma exec_muladdAt (k : UInt64) (a b : Int64) (mem : Memory) :
    exec (checkedMuladdAt k a b) mem
      = if (mulOverflow a b).1 then (.error .overflow, mem)
        else
          (if (addOverflow (mem k.toNat) (mulOverflow a b).2).1 then .error .overflow else .ok (),
            Function.update mem k.toNat (addOverflow (mem k.toNat) (mulOverflow a b).2).2) := by
  have hget : exec (get : KernelM Memory) mem = (.ok mem, mem) := rfl
  simp only [checkedMuladdAt]
  by_cases hmul : (mulOverflow a b).1 = true
  · rw [if_pos hmul, if_pos hmul]
    rfl
  · rw [if_neg hmul, if_neg hmul, exec_bind_ok hget, exec_bind_ok (exec_store _ _ _)]
    split_ifs <;> rfl

/-- The step stores what the checked sum computes. -/
lemma exec_muladdAt_ok {k : UInt64} {a b c : Int64}
    (h : checkedMuladd (mem k.toNat) a b = .ok c) :
    exec (checkedMuladdAt k a b) mem = (.ok (), Function.update mem k.toNat c) := by
  simp only [checkedMuladd] at h
  rw [exec_muladdAt]
  split_ifs at h ⊢
  rw [Except.ok.inj h]

lemma exec_muladdAt_error {k : UInt64} {a b : Int64} {e : VerifyResult}
    (h : checkedMuladd (mem k.toNat) a b = .error e) :
    ∃ mem', exec (checkedMuladdAt k a b) mem = (.error e, mem') := by
  simp only [checkedMuladd] at h
  rw [exec_muladdAt]
  split_ifs at h ⊢
  · exact ⟨mem, by rw [Except.error.inj h]⟩
  · exact ⟨_, by rw [Except.error.inj h]⟩

/-- The inner loop on the entry `k` is the checked loop on the value there. -/
lemma exec_muladds_ok {k : UInt64} {a b : ℕ → Int64} {js : List ℕ} {c c' : Int64}
    (h : js.foldlM (fun c j => checkedMuladd c (a j) (b j)) c = .ok c') :
    exec (forM js fun j => checkedMuladdAt k (a j) (b j)) (Function.update mem k.toNat c)
      = (.ok (), Function.update mem k.toNat c') := by
  induction js generalizing c with
  | nil =>
      obtain rfl := Except.ok.inj h
      rfl
  | cons j js ih =>
      rw [List.foldlM_cons, Except.bind_eq_ok] at h
      obtain ⟨d, hd, h⟩ := h
      have hstep : checkedMuladd (Function.update mem k.toNat c k.toNat) (a j) (b j) = .ok d := by
        rwa [Function.update_self]
      rw [exec_forM_cons_ok (f := fun j => checkedMuladdAt k (a j) (b j)) (exec_muladdAt_ok hstep),
        Function.update_idem, ih h]

lemma exec_muladds_error {k : UInt64} {a b : ℕ → Int64} {js : List ℕ} {c : Int64}
    {e : VerifyResult} (h : js.foldlM (fun c j => checkedMuladd c (a j) (b j)) c = .error e) :
    ∃ mem', exec (forM js fun j => checkedMuladdAt k (a j) (b j)) (Function.update mem k.toNat c)
      = (.error e, mem') := by
  induction js generalizing c with
  | nil => exact absurd h (by simp [pure, Except.pure])
  | cons j js ih =>
      rw [List.foldlM_cons, Except.bind_eq_error] at h
      rcases h with herr | ⟨d, hd, h⟩
      · have hstep : checkedMuladd (Function.update mem k.toNat c k.toNat) (a j) (b j)
            = .error e := by rwa [Function.update_self]
        obtain ⟨mem', hmem⟩ := exec_muladdAt_error hstep
        exact ⟨mem', exec_forM_cons_error hmem⟩
      · have hstep : checkedMuladd (Function.update mem k.toNat c k.toNat) (a j) (b j) = .ok d := by
          rwa [Function.update_self]
        rw [exec_forM_cons_ok (f := fun j => checkedMuladdAt k (a j) (b j))
          (exec_muladdAt_ok hstep), Function.update_idem]
        exact ih h

/-- An entry computed from two lists of factors. -/
def dotAt (k : UInt64) (a b : ℕ → Int64) (n : ℕ) : KernelM Unit := do
  store k 0
  forM (List.range n) fun j => checkedMuladdAt k (a j) (b j)

lemma exec_dotAt_ok {k : UInt64} {a b : ℕ → Int64} {n : ℕ} {c : Int64}
    (h : (List.range n).foldlM (fun c j => checkedMuladd c (a j) (b j)) 0 = .ok c) :
    exec (dotAt k a b n) mem = (.ok (), Function.update mem k.toNat c) := by
  rw [dotAt, exec_bind_ok (exec_store _ _ _), exec_muladds_ok h]

lemma exec_dotAt_error {k : UInt64} {a b : ℕ → Int64} {n : ℕ} {e : VerifyResult}
    (h : (List.range n).foldlM (fun c j => checkedMuladd c (a j) (b j)) 0 = .error e) :
    ∃ mem', exec (dotAt k a b n) mem = (.error e, mem') := by
  rw [dotAt, exec_bind_ok (exec_store _ _ _)]
  exact exec_muladds_error h

end Runs

/-! ### The product with a vector -/

section Rows

variable {mem : Memory} {a b : ℕ → ℕ → Int64} {n : ℕ}

/-- The first rows, and the next one. -/
lemma mapM_range_succ (f : ℕ → Except VerifyResult Int64) (rows : ℕ) :
    (List.range (rows + 1)).mapM f
      = (List.range rows).mapM f >>= fun values => f rows >>= fun c => pure (values ++ [c]) := by
  rw [List.range_succ, List.mapM_append]
  simp

lemma forM_range_succ (f : ℕ → KernelM Unit) (rows : ℕ) :
    forM (List.range (rows + 1)) f = forM (List.range rows) f >>= fun _ => f rows := by
  rw [List.range_succ, List.forM_append]
  simp

/-- Entries computed one after the other are those of the list of dot products. -/
lemma exec_dots_ok {rows : ℕ} (hrows : rows ≤ 2 ^ 64) {values : List Int64}
    (h : (List.range rows).mapM (fun i =>
      (List.range n).foldlM (fun c j => checkedMuladd c (a i j) (b i j)) 0) = .ok values) :
    exec (forM (List.range rows) fun i => dotAt (UInt64.ofNat i) (a i) (b i) n) mem
      = (.ok (), fun k => if k < rows then values.getD k 0 else mem k) := by
  induction rows generalizing values with
  | zero =>
      simp only [Nat.not_lt_zero, if_false]
      rfl
  | succ rows ih =>
      rw [mapM_range_succ, Except.bind_eq_ok] at h
      obtain ⟨values', hvalues, h⟩ := h
      obtain ⟨c, hc, h⟩ := Except.bind_eq_ok.1 h
      obtain rfl := Except.ok.inj h
      have hlen : values'.length = rows := by
        have hall := (mapM_eq_ok hvalues).length_eq
        rw [List.length_range] at hall
        exact hall.symm
      have hindex : (UInt64.ofNat rows).toNat = rows := by
        rw [UInt64.toNat_ofNat_of_lt']
        rw [UInt64.size]
        omega
      rw [forM_range_succ, exec_bind_ok (ih (by omega) hvalues), exec_dotAt_ok hc, hindex]
      refine congrArg (Prod.mk _) (funext fun k => ?_)
      rcases Nat.lt_trichotomy k rows with hk | rfl | hk
      · rw [Function.update_of_ne hk.ne, if_pos hk, if_pos (by omega),
          List.getD_append _ _ _ _ (by omega)]
      · rw [Function.update_self, if_pos (by omega), List.getD_append_right _ _ _ _ (by omega),
          hlen, Nat.sub_self]
        rfl
      · rw [Function.update_of_ne hk.ne', if_neg (by omega), if_neg (by omega)]

lemma exec_dots_error (mem : Memory) {rows : ℕ} (hrows : rows ≤ 2 ^ 64) {e : VerifyResult}
    (h : (List.range rows).mapM (fun i =>
      (List.range n).foldlM (fun c j => checkedMuladd c (a i j) (b i j)) 0) = .error e) :
    ∃ mem', exec (forM (List.range rows) fun i => dotAt (UInt64.ofNat i) (a i) (b i) n) mem
      = (.error e, mem') := by
  induction rows with
  | zero => exact absurd h (by simp [pure, Except.pure])
  | succ rows ih =>
      rw [mapM_range_succ, Except.bind_eq_error] at h
      rw [forM_range_succ]
      rcases h with herr | ⟨values, hvalues, h⟩
      · obtain ⟨mem', hmem⟩ := ih (by omega) herr
        exact ⟨mem', exec_bind_error hmem _⟩
      · rw [exec_bind_ok (exec_dots_ok (by omega) hvalues)]
        rcases Except.bind_eq_error.1 h with herr | ⟨c, -, h⟩
        · exact exec_dotAt_error herr
        · exact absurd h (by simp [pure, Except.pure])

end Rows

lemma vecMultLoops_eq (A x : ℕ → Int64) (m n : UInt64) :
    vecMultLoops A x m n
      = forM (List.range m.toNat) fun i =>
          dotAt (UInt64.ofNat i) (fun j => A (UInt64.ofNat i * n + UInt64.ofNat j).toNat) x
            n.toNat := rfl

/-- A product that succeeds leaves its values behind `result`, and every product the result
and the budget it ends with. -/
theorem vecMult_refines (A x mem : Memory) (m n : UInt64) (budget : Option SovResourceBudget) :
    let o := sovMatrixVecMultWithBudget (some A) (some x) (some mem) m n budget
    let l := Verifier.sovMatrixVecMultWithBudget (some A) (some x) true m n budget
    o.budget = l.2
      ∧ (∀ values, l.1 = .ok values → o.status = .ok
          ∧ o.result = some fun k => if k < m.toNat then values.getD k 0 else mem k)
      ∧ ∀ res, l.1 = .error res → o.status = res := by
  simp only [sovMatrixVecMultWithBudget, Verifier.sovMatrixVecMultWithBudget]
  split_ifs with hcharged
  · exact ⟨rfl, fun values h => by simp at h, fun res h => Except.error.inj h⟩
  · have hrows : m.toNat ≤ 2 ^ 64 := m.toNat_lt.le
    rw [outcome, vecMultLoops_eq]
    cases hvalues : (List.range m.toNat).mapM (rowProduct A x n) with
    | ok values =>
        rw [exec_dots_ok hrows hvalues]
        refine ⟨rfl, fun values' h => ?_, fun res h => by simp at h⟩
        rw [Except.ok.inj h]
        exact ⟨rfl, rfl⟩
    | error res =>
        obtain ⟨mem', hmem⟩ := exec_dots_error mem hrows hvalues
        rw [hmem]
        exact ⟨rfl, fun values h => by simp at h, fun res' h => Except.error.inj h⟩

/-! ### The transposition -/

/-- Entries of memory that are written at different places keep what was written. -/
lemma foldl_update_apply {ι : Type} (addr : ι → ℕ) (val : ι → Int64) {is : List ι}
    (hinj : ∀ i ∈ is, ∀ j ∈ is, addr i = addr j → i = j) (mem : Memory) {i : ι} (hi : i ∈ is) :
    is.foldl (fun mem i => Function.update mem (addr i) (val i)) mem (addr i) = val i := by
  induction is using List.reverseRecOn with
  | nil => exact absurd hi List.not_mem_nil
  | append_singleton is j ih =>
      rw [List.foldl_append, List.foldl_cons, List.foldl_nil]
      by_cases hij : addr i = addr j
      · rw [hij, Function.update_self, hinj i hi j (by simp) hij]
      · have hmem : i ∈ is := by
          rcases List.mem_append.mp hi with hmem | hmem
          · exact hmem
          · exact absurd (congrArg addr (List.mem_singleton.mp hmem)) hij
        rw [Function.update_of_ne hij]
        exact ih (fun k hk l hl => hinj k (by simp [hk]) l (by simp [hl])) hmem

lemma exec_stores {ι : Type} (addr : ι → UInt64) (val : ι → Int64) (is : List ι) (mem : Memory) :
    exec (forM is fun i => store (addr i) (val i)) mem
      = (.ok (), is.foldl (fun mem i => Function.update mem (addr i).toNat (val i)) mem) := by
  induction is generalizing mem with
  | nil => rfl
  | cons i is ih =>
      rw [exec_forM_cons_ok (f := fun i => store (addr i) (val i)) (exec_store _ _ _), ih,
        List.foldl_cons]

/-- Two loops are one over the pairs of their indices. -/
lemma forM_product {ι κ : Type} (f : ι × κ → KernelM Unit) (is : List ι) (js : List κ) :
    (forM is fun i => forM js fun j => f (i, j)) = forM (is ×ˢ js) f := by
  induction is with
  | nil => rfl
  | cons i is ih => rw [List.forM_cons, ih, List.product_cons, List.forM_append, List.forM_map]

/-- The transposed matrix holds the entries of the matrix. -/
lemma exec_transpose (A mem : Memory) {m n : UInt64} (h : m.toNat * n.toNat < 2 ^ 64) :
    ∃ T, exec (transposeLoops A m n) mem = (.ok (), T)
      ∧ ∀ i < m.toNat, ∀ j < n.toNat,
          T (UInt64.ofNat j * m + UInt64.ofNat i).toNat
            = A (UInt64.ofNat i * n + UInt64.ofNat j).toNat := by
  have h' : n.toNat * m.toNat < 2 ^ 64 := by rwa [Nat.mul_comm]
  have hpairs := exec_stores (fun p : ℕ × ℕ => UInt64.ofNat p.2 * m + UInt64.ofNat p.1)
    (fun p => A (UInt64.ofNat p.1 * n + UInt64.ofNat p.2).toNat)
    (List.range m.toNat ×ˢ List.range n.toNat) mem
  rw [← forM_product] at hpairs
  refine ⟨_, hpairs, fun i hi j hj => ?_⟩
  refine foldl_update_apply
    (fun p : ℕ × ℕ => (UInt64.ofNat p.2 * m + UInt64.ofNat p.1).toNat)
    (fun p => A (UInt64.ofNat p.1 * n + UInt64.ofNat p.2).toNat) (fun p hp q hq hpq => ?_) mem
    (i := (i, j)) (List.pair_mem_product.mpr ⟨List.mem_range.mpr hi, List.mem_range.mpr hj⟩)
  obtain ⟨i₁, j₁⟩ := p
  obtain ⟨i₂, j₂⟩ := q
  obtain ⟨hi₁, hj₁⟩ := List.pair_mem_product.mp hp
  obtain ⟨hi₂, hj₂⟩ := List.pair_mem_product.mp hq
  rw [List.mem_range] at hi₁ hj₁ hi₂ hj₂
  -- a place of the transposed matrix tells its column and its row
  rw [Guarded.toNat_index h' hj₁ hi₁, Guarded.toNat_index h' hj₂ hi₂] at hpq
  have hcol : i₁ = i₂ := by
    have hmod := congrArg (· % m.toNat) hpq
    simpa only [Nat.mul_add_mod_of_lt hi₁, Nat.mul_add_mod_of_lt hi₂] using hmod
  have hrow : j₁ = j₂ :=
    Nat.eq_of_mul_eq_mul_right (Nat.zero_lt_of_lt hi) (by omega)
  rw [hcol, hrow]

/-! ### Agreement -/

/-- The charge for a matrix of one column is that for a vector. -/
lemma chargeMatrixProduct_one (m n : UInt64) (budget : Option SovResourceBudget) :
    chargeMatrixProduct m n 1 budget = chargeProduct m n budget := by
  cases budget with
  | none => rfl
  | some budget =>
      have hone : ¬ (m * n > 0 ∧ 1 > sizeMax / (m * n)) := by
        rintro ⟨hpos, hlt⟩
        have hle : (m * n).toNat ≤ 2 ^ 64 - 1 := Nat.le_sub_one_of_lt (m * n).toNat_lt
        have hdiv : 1 ≤ (2 ^ 64 - 1) / (m * n).toNat :=
          (Nat.one_le_div_iff (UInt64.lt_iff_toNat_lt.mp hpos)).mpr hle
        rw [gt_iff_lt, UInt64.lt_iff_toNat_lt, UInt64.toNat_div] at hlt
        exact absurd hlt (not_lt.mpr hdiv)
      simp only [chargeMatrixProduct, chargeProduct, if_neg hone, UInt64.mul_one]

/-- The loops over a matrix of one column are those over a vector. -/
lemma multLoops_one (A x : ℕ → Int64) (m n : UInt64) :
    multLoops A x m n 1 = vecMultLoops A x m n := by
  refine forM_congr fun i _ => ?_
  have hindex : UInt64.ofNat i * 1 + UInt64.ofNat 0 = UInt64.ofNat i := by simp
  have hone : (1 : UInt64).toNat = 1 := rfl
  rw [hone, List.range_one, List.forM_cons, List.forM_nil, hindex]
  have hinner : ∀ k ∈ List.range n.toNat, (UInt64.ofNat k * 1 + UInt64.ofNat 0).toNat = k := by
    intro k hk
    have hlt := (List.mem_range.mp hk).trans n.toNat_lt
    simpa using hlt
  rw [forM_congr fun k hk => by rw [hinner k hk]]
  simp

/-- The rows of the transposed matrix are the columns of the matrix. -/
lemma rowProduct_transposed {A T : Memory} {m n : UInt64}
    (hT : ∀ i < m.toNat, ∀ j < n.toNat,
      T (UInt64.ofNat j * m + UInt64.ofNat i).toNat = A (UInt64.ofNat i * n + UInt64.ofNat j).toNat)
    (r : List Int64) {i : ℕ} (hi : i < n.toNat) :
    rowProduct T (fun j => r.getD j 0) m i = columnProduct A r m n i := by
  rw [rowProduct, columnProduct]
  exact foldlM_congr (fun j hj c => by rw [hT j (List.mem_range.mp hj) i hi]) 0

/-- The values a list of dot products ends with, read from the memory they were stored in. -/
lemma eq_map_range {values : List Int64} {n : ℕ} (hlen : values.length = n) (mem : Memory) :
    values = (List.range n).map fun k => if k < n then values.getD k 0 else mem k := by
  refine List.ext_getElem (by simp [hlen]) fun k hk _ => ?_
  have hkn : k < n := by omega
  simp [hkn, hk]

/-- On all inputs, the product with a vector leaves what the product with the matrix of this
one column leaves. For a matrix with no more entries than there are indices and any vector
`r`, the loop of `sov_verify_lstsq` over its columns computes the values, and ends in the
overflows, of the product of the transposed matrix with `r`. -/
theorem kernels_agree :
    (∀ (A x result : Buffer) (m n : UInt64) (budget : Option SovResourceBudget),
      sovMatrixVecMultWithBudget A x result m n budget
        = sovMatrixMultWithBudget A x result m n 1 budget)
      ∧ ∀ (A scratch mem : Memory) (r : List Int64) (m n : UInt64), m.toNat * n.toNat < 2 ^ 64 →
          let t := sovMatrixTranspose (some A) (some scratch) m n
          let o := sovMatrixVecMult t.result (some fun j => r.getD j 0) (some mem) n m
          let values := (List.range n.toNat).mapM (columnProduct A r m n)
          t.status = .ok
            ∧ (∀ vs, values = .ok vs
                ↔ o.status = .ok ∧ ∃ out, o.result = some out ∧ vs = (List.range n.toNat).map out)
            ∧ (values = .error .overflow ↔ o.status = .overflow) := by
  constructor
  · intro A x result m n budget
    match A, x, result with
    | some A, some x, some mem =>
        simp only [sovMatrixVecMultWithBudget, sovMatrixMultWithBudget, chargeMatrixProduct_one,
          multLoops_one]
    | none, _, _ | some _, none, _ | some _, some _, none => rfl
  · intro A scratch mem r m n h t o values
    obtain ⟨T, hexec, hT⟩ := exec_transpose A scratch h
    have ht : t = ⟨.ok, some T, none⟩ := by
      simp only [t, sovMatrixTranspose, outcome, hexec]
    have hvalues : (List.range n.toNat).mapM (rowProduct T (fun j => r.getD j 0) m) = values :=
      mapM_congr fun i hi => rowProduct_transposed hT r (List.mem_range.mp hi)
    have ho : o = sovMatrixVecMultWithBudget (some T) (some fun j => r.getD j 0) (some mem) n m
        none := by
      simp only [o, ht, sovMatrixVecMult]
    obtain ⟨-, hok, herror⟩ := vecMult_refines T (fun j => r.getD j 0) mem n m none
    simp only [Verifier.sovMatrixVecMultWithBudget, chargeProduct, hvalues, ← ho] at hok herror
    refine ⟨by rw [ht], ?_⟩
    cases hv : values with
    | error res =>
        obtain ⟨i, -, hi⟩ := mapM_eq_error hv
        obtain rfl := columnProduct_eq_error hi
        have hstatus : o.status = .overflow := herror .overflow (by simp [hv])
        rw [hstatus]
        exact ⟨fun vs => by simp, by simp⟩
    | ok vs =>
        obtain ⟨hstatus, hresult⟩ := hok vs (by simp [hv])
        have hlen : vs.length = n.toNat := by
          simpa using (mapM_eq_ok hv).length_eq.symm
        rw [hstatus, hresult]
        refine ⟨fun vs' => ⟨?_, ?_⟩, by simp⟩
        · rintro ⟨⟩
          exact ⟨rfl, _, rfl, eq_map_range hlen mem⟩
        · rintro ⟨-, out, hout, rfl⟩
          rw [← Option.some.inj hout, ← eq_map_range hlen mem]

/-- The columns of a matrix of two rows. -/
theorem kernels_agree_pair :
    let A : Memory := fun k => if k = 0 then 2 else 3
    let t := sovMatrixTranspose (some A) (some fun _ => 0) 2 1
    let o := sovMatrixVecMult t.result (some fun j => [5, 7].getD j 0) (some fun _ => 0) 1 2
    t.status = .ok
      ∧ (∀ vs, (List.range 1).mapM (columnProduct A [5, 7] 2 1) = .ok vs
          ↔ o.status = .ok ∧ ∃ out, o.result = some out ∧ vs = (List.range 1).map out)
      ∧ ((List.range 1).mapM (columnProduct A [5, 7] 2 1) = .error .overflow
          ↔ o.status = .overflow) :=
  kernels_agree.2 _ _ _ [5, 7] 2 1 (by decide)

end Kernel

end Verifier

end SovereignBus
