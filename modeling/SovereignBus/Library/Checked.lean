import Mathlib

/-!
Loops on machine words that check every step for overflow.

* `Fits`: the values of an `Int64`. `mulOverflow` and `addOverflow` report
  whether an operation left them (`mulOverflow_iff`, `addOverflow_iff`).
* `ExactOn`: an operation on words that computes an operation on values as long
  as a condition holds and fails when it does not. `ExactOn.foldlM_ok` and
  `ExactOn.foldlM_error` carry this through a loop.
-/

namespace Checked

/-! ### Words -/

/-- The integers an `Int64` holds. -/
def Fits (z : ℤ) : Prop := -2 ^ 63 ≤ z ∧ z < 2 ^ 63

lemma bmod_eq_self_iff (z : ℤ) : z.bmod (2 ^ 64) = z ↔ Fits z := by
  rw [Int.bmod_eq_iff (by norm_num), Fits]
  norm_num

/-- `__builtin_mul_overflow`: the wrapped product, and whether it is not the
product. -/
def mulOverflow (a b : Int64) : Bool × Int64 := (decide ((a * b).toInt ≠ a.toInt * b.toInt), a * b)

/-- `__builtin_add_overflow`. -/
def addOverflow (a b : Int64) : Bool × Int64 := (decide ((a + b).toInt ≠ a.toInt + b.toInt), a + b)

lemma mulOverflow_iff (a b : Int64) : (mulOverflow a b).1 = true ↔ ¬ Fits (a.toInt * b.toInt) := by
  rw [mulOverflow, decide_eq_true_iff, Int64.toInt_mul, Ne, bmod_eq_self_iff]

lemma addOverflow_iff (a b : Int64) : (addOverflow a b).1 = true ↔ ¬ Fits (a.toInt + b.toInt) := by
  rw [addOverflow, decide_eq_true_iff, Int64.toInt_add, Ne, bmod_eq_self_iff]

/-- A product that fits is computed. -/
lemma mulOverflow_exact {a b : Int64} (h : Fits (a.toInt * b.toInt)) :
    (mulOverflow a b).2.toInt = a.toInt * b.toInt := by
  rw [mulOverflow, Int64.toInt_mul, (bmod_eq_self_iff _).mpr h]

/-- A sum that fits is computed. -/
lemma addOverflow_exact {a b : Int64} (h : Fits (a.toInt + b.toInt)) :
    (addOverflow a b).2.toInt = a.toInt + b.toInt := by
  rw [addOverflow, Int64.toInt_add, (bmod_eq_self_iff _).mpr h]

/-- `__builtin_sub_overflow`. -/
def subOverflow (a b : Int64) : Bool × Int64 := (decide ((a - b).toInt ≠ a.toInt - b.toInt), a - b)

lemma subOverflow_iff (a b : Int64) : (subOverflow a b).1 = true ↔ ¬ Fits (a.toInt - b.toInt) := by
  rw [subOverflow, decide_eq_true_iff, Int64.toInt_sub, Ne, bmod_eq_self_iff]

/-- A difference that fits is computed. -/
lemma subOverflow_exact {a b : Int64} (h : Fits (a.toInt - b.toInt)) :
    (subOverflow a b).2.toInt = a.toInt - b.toInt := by
  rw [subOverflow, Int64.toInt_sub, (bmod_eq_self_iff _).mpr h]

/-! ### Loops -/

variable {W V A E : Type*}

/-- On words `W` with the values `val`, the operation `f` computes `g` as long
as `ok` holds, and fails with `e` when it does not. -/
structure ExactOn (val : W → V) (ok : V → A → Prop) (g : V → A → V) (f : W → A → Except E W)
    (e : E) : Prop where
  exact_of_ok : ∀ w a, ok (val w) a → ∃ w', f w a = .ok w' ∧ val w' = g (val w) a
  error_of_not : ∀ w a, ¬ ok (val w) a → f w a = .error e

variable {val : W → V} {ok : V → A → Prop} {g : V → A → V} {f : W → A → Except E W} {e : E}

/-- Every step of the loop on values is allowed. -/
def AllOk (ok : V → A → Prop) (g : V → A → V) (v : V) (as : List A) : Prop :=
  ∀ i (h : i < as.length), ok ((as.take i).foldl g v) as[i]

lemma allOk_cons {v : V} {a : A} {as : List A} :
    AllOk ok g v (a :: as) ↔ ok v a ∧ AllOk ok g (g v a) as := by
  constructor
  · intro h
    exact ⟨h 0 (Nat.succ_pos _), fun i hi => h (i + 1) (Nat.succ_lt_succ hi)⟩
  · rintro ⟨h0, h⟩ i hi
    cases i with
    | zero => exact h0
    | succ i => exact h i (Nat.lt_of_succ_lt_succ hi)

/-- A loop all of whose steps are allowed computes the loop on values. -/
theorem ExactOn.foldlM_ok (h : ExactOn val ok g f e) {w : W} {as : List A}
    (hall : AllOk ok g (val w) as) :
    ∃ w', as.foldlM f w = .ok w' ∧ val w' = as.foldl g (val w) := by
  induction as generalizing w with
  | nil => exact ⟨w, rfl, rfl⟩
  | cons a as ih =>
      obtain ⟨ha, has⟩ := allOk_cons.mp hall
      obtain ⟨w₁, hw₁, hv₁⟩ := h.exact_of_ok w a ha
      obtain ⟨w', hw', hv'⟩ := ih (hv₁ ▸ has)
      refine ⟨w', ?_, by rw [hv', hv₁, List.foldl_cons]⟩
      rw [List.foldlM_cons, hw₁]
      exact hw'

/-- A loop with a step that is not allowed fails. -/
theorem ExactOn.foldlM_error (h : ExactOn val ok g f e) {w : W} {as : List A}
    (hall : ¬ AllOk ok g (val w) as) : as.foldlM f w = .error e := by
  induction as generalizing w with
  | nil => exact absurd (fun i hi => absurd hi (by simp)) hall
  | cons a as ih =>
      rw [allOk_cons, not_and] at hall
      rw [List.foldlM_cons]
      by_cases ha : ok (val w) a
      · obtain ⟨w₁, hw₁, hv₁⟩ := h.exact_of_ok w a ha
        rw [hw₁]
        exact ih (hv₁ ▸ hall ha)
      · rw [h.error_of_not w a ha]
        rfl

lemma foldlM_congr {f' : W → A → Except E W} {as : List A} (h : ∀ a ∈ as, ∀ w, f w a = f' w a)
    (w : W) : as.foldlM f w = as.foldlM f' w := by
  induction as generalizing w with
  | nil => rfl
  | cons a as ih =>
      rw [List.foldlM_cons, List.foldlM_cons, h a List.mem_cons_self w]
      exact congrArg _ (funext (ih fun a' ha' => h a' (List.mem_cons_of_mem a ha')))

lemma mapM_congr {B : Type*} {f f' : A → Except E B} {as : List A}
    (h : ∀ a ∈ as, f a = f' a) : as.mapM f = as.mapM f' := by
  induction as with
  | nil => rfl
  | cons a as ih =>
      rw [List.mapM_cons, List.mapM_cons, h a List.mem_cons_self,
        ih fun a' ha' => h a' (List.mem_cons_of_mem a ha')]

/-- A pass over a list whose members all succeed. -/
lemma mapM_ok {B : Type*} {f : A → Except E B} {P : A → B → Prop} {as : List A}
    (h : ∀ a ∈ as, ∃ b, f a = .ok b ∧ P a b) : ∃ bs, as.mapM f = .ok bs ∧ List.Forall₂ P as bs := by
  induction as with
  | nil => exact ⟨[], rfl, List.Forall₂.nil⟩
  | cons a as ih =>
      obtain ⟨b, hb, hP⟩ := h a List.mem_cons_self
      obtain ⟨bs, hbs, hPs⟩ := ih fun a' ha' => h a' (List.mem_cons_of_mem a ha')
      refine ⟨b :: bs, ?_, List.Forall₂.cons hP hPs⟩
      rw [List.mapM_cons, hb, hbs]
      rfl

/-- A pass over the first `n` numbers that all succeed. -/
lemma mapM_range_ok {B : Type*} {f : ℕ → Except E B} {P : ℕ → B → Prop} {n : ℕ}
    (h : ∀ i < n, ∃ b, f i = .ok b ∧ P i b) :
    ∃ bs, (List.range n).mapM f = .ok bs ∧ bs.length = n ∧ ∀ i (hi : i < bs.length), P i bs[i] := by
  obtain ⟨bs, hbs, hall⟩ := mapM_ok fun i hi => h i (List.mem_range.mp hi)
  obtain ⟨hlen, hget⟩ := List.forall₂_iff_get.mp hall
  rw [List.length_range] at hlen
  refine ⟨bs, hbs, hlen.symm, fun i hi => ?_⟩
  simpa using hget i (by rw [List.length_range]; omega) hi

/-- A pass over a list one of whose members fails. -/
lemma mapM_error {B : Type*} {f : A → Except E B} {as : List A}
    (h : ∀ a ∈ as, (∃ b, f a = .ok b) ∨ f a = .error e) (he : ∃ a ∈ as, f a = .error e) :
    as.mapM f = .error e := by
  induction as with
  | nil => simp at he
  | cons a as ih =>
      have has := fun a' ha' => h a' (List.mem_cons_of_mem a ha')
      rw [List.mapM_cons]
      rcases h a List.mem_cons_self with ⟨b, hb⟩ | ha
      · obtain ⟨a', hmem, ha'⟩ := he
        rcases List.mem_cons.mp hmem with rfl | hmem'
        · rw [hb] at ha'
          exact absurd ha' (by simp)
        · rw [hb, ih has ⟨a', hmem', ha'⟩]
          rfl
      · rw [ha]
        rfl

/-- A pass that succeeds has succeeded on every member. -/
lemma mapM_eq_ok {B : Type*} {f : A → Except E B} {as : List A} {bs : List B}
    (h : as.mapM f = .ok bs) : List.Forall₂ (fun a b => f a = .ok b) as bs := by
  induction as generalizing bs with
  | nil =>
      obtain rfl : [] = bs := Except.ok.inj h
      exact List.Forall₂.nil
  | cons a as ih =>
      rw [List.mapM_cons] at h
      cases ha : f a with
      | error e =>
          rw [ha] at h
          exact absurd h (by simp [bind, Except.bind])
      | ok b =>
          cases has : as.mapM f with
          | error e =>
              rw [ha, has] at h
              exact absurd h (by simp [bind, Except.bind])
          | ok bs' =>
              rw [ha, has] at h
              obtain rfl : b :: bs' = bs := Except.ok.inj h
              exact List.Forall₂.cons ha (ih has)

/-- A pass over the first `n` numbers that succeeds. -/
lemma mapM_range_eq_ok {B : Type*} {f : ℕ → Except E B} {n : ℕ} {bs : List B}
    (h : (List.range n).mapM f = .ok bs) (d : B) : ∀ i < n, f i = .ok (bs.getD i d) := by
  intro i hi
  obtain ⟨hlen, hget⟩ := List.forall₂_iff_get.mp (mapM_eq_ok h)
  rw [List.length_range] at hlen
  rw [List.getD_eq_getElem _ _ (by omega)]
  simpa using hget i (by simpa using hi) (by omega)

/-- A pass that fails has failed on a member. -/
lemma mapM_eq_error {B : Type*} {f : A → Except E B} {as : List A} (h : as.mapM f = .error e) :
    ∃ a ∈ as, f a = .error e := by
  induction as with
  | nil => exact absurd h (by simp [pure, Except.pure])
  | cons a as ih =>
      rw [List.mapM_cons] at h
      cases ha : f a with
      | error e' =>
          rw [ha] at h
          obtain rfl : e' = e := Except.error.inj h
          exact ⟨a, List.mem_cons_self, ha⟩
      | ok b =>
          cases has : as.mapM f with
          | error e' =>
              rw [ha, has] at h
              obtain rfl : e' = e := Except.error.inj h
              obtain ⟨a', hmem, ha'⟩ := ih has
              exact ⟨a', List.mem_cons_of_mem a hmem, ha'⟩
          | ok bs =>
              rw [ha, has] at h
              exact absurd h (by simp [bind, Except.bind, pure, Except.pure])

/-- A pass over the first `n` numbers one of which fails. -/
lemma mapM_range_error {B : Type*} {f : ℕ → Except E B} {n : ℕ}
    (h : ∀ i < n, (∃ b, f i = .ok b) ∨ f i = .error e) (he : ∃ i < n, f i = .error e) :
    (List.range n).mapM f = .error e := by
  obtain ⟨i, hi, hfail⟩ := he
  exact mapM_error (fun j hj => h j (List.mem_range.mp hj)) ⟨i, List.mem_range.mpr hi, hfail⟩

end Checked
