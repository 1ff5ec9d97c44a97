import Mathlib

/-!
Runs that end at the first fault: a product or a sum of words that wraps around, or a place
that is not in its array.

* `Fault`, `mul`, `add`, `index`, `fetch`, `entry`, `place`, `placeAt`: the guarded operations.
* `Safe`: a guarded run, which may end in an error of its own, has no fault, and ends as the
  unguarded one. `Safe.bind`, `Safe.foldlM` and `Safe.mapM` carry this through a run.
* `allM_eq_ok`: so does a scan that stops where a test fails.
-/

namespace Guarded

/-- What must not happen. -/
inductive Fault where
  | wraps
  | outside

/-- A product of words. -/
def mul (a b : UInt64) : Except Fault UInt64 :=
  if a.toNat * b.toNat < 2 ^ 64 then .ok (a * b) else .error .wraps

/-- A sum of words. -/
def add (a b : UInt64) : Except Fault UInt64 :=
  if a.toNat + b.toNat < 2 ^ 64 then .ok (a + b) else .error .wraps

/-- The index `i * n + j`. -/
def index (i n j : UInt64) : Except Fault UInt64 := do
  add (← mul i n) j

/-- The entry `i` of an array of `len` entries. -/
def fetch {α : Type} (a : ℕ → α) (len i : UInt64) : Except Fault α :=
  if i.toNat < len.toNat then .ok (a i.toNat) else .error .outside

/-- The entry in the row `i` and the column `j` of an array with rows of length `n`. -/
def entry {α : Type} (a : ℕ → α) (len i n j : UInt64) : Except Fault α := do
  fetch a len (← index i n j)

/-- The entry `i` of an array of `len` entries is written. -/
def place (len i : UInt64) : Except Fault Unit :=
  if i.toNat < len.toNat then .ok () else .error .outside

/-- The entry in the row `i` and the column `j` is written. -/
def placeAt (len i n j : UInt64) : Except Fault Unit := do
  place len (← index i n j)

lemma ok_bind {E α β : Type} (a : α) (f : α → Except E β) : (.ok a : Except E α) >>= f = f a := rfl

lemma mul_eq_ok {a b : UInt64} (h : a.toNat * b.toNat < 2 ^ 64) : mul a b = .ok (a * b) := if_pos h

lemma add_eq_ok {a b : UInt64} (h : a.toNat + b.toNat < 2 ^ 64) : add a b = .ok (a + b) := if_pos h

lemma fetch_eq_ok {α : Type} (a : ℕ → α) {len i : UInt64} (h : i.toNat < len.toNat) :
    fetch a len i = .ok (a i.toNat) := if_pos h

lemma place_eq_ok {len i : UInt64} (h : i.toNat < len.toNat) : place len i = .ok () := if_pos h

/-- The place of an entry in an array with rows of length `n`. -/
lemma entry_lt {m n i j : ℕ} (hi : i < m) (hj : j < n) : i * n + j < m * n :=
  calc i * n + j < i * n + n := Nat.add_lt_add_left hj _
    _ = (i + 1) * n := (Nat.succ_mul i n).symm
    _ ≤ m * n := Nat.mul_le_mul_right n hi

lemma toNat_ofNat_of_lt {i : ℕ} {n : UInt64} (h : i < n.toNat) : (UInt64.ofNat i).toNat = i :=
  UInt64.toNat_ofNat_of_lt' (h.trans n.toNat_lt)

/-- The index of an entry of an array that is no longer than a word can say. -/
lemma toNat_index {m n : UInt64} (h : m.toNat * n.toNat < 2 ^ 64) {i j : ℕ} (hi : i < m.toNat)
    (hj : j < n.toNat) :
    (UInt64.ofNat i * n + UInt64.ofNat j).toNat = i * n.toNat + j := by
  have hlt := entry_lt hi hj
  rw [UInt64.toNat_add, UInt64.toNat_mul, toNat_ofNat_of_lt hi, toNat_ofNat_of_lt hj,
    Nat.mod_add_mod, Nat.mod_eq_of_lt (by omega)]

lemma index_eq_ok {m n : UInt64} (h : m.toNat * n.toNat < 2 ^ 64) {i j : ℕ} (hi : i < m.toNat)
    (hj : j < n.toNat) :
    index (UInt64.ofNat i) n (UInt64.ofNat j) = .ok (UInt64.ofNat i * n + UInt64.ofNat j) := by
  have hlt := entry_lt hi hj
  have hmul : (UInt64.ofNat i).toNat * n.toNat < 2 ^ 64 := by
    rw [toNat_ofNat_of_lt hi]
    omega
  have hsum : (UInt64.ofNat i * n).toNat + (UInt64.ofNat j).toNat < 2 ^ 64 := by
    rw [UInt64.toNat_mul, Nat.mod_eq_of_lt hmul, toNat_ofNat_of_lt hi, toNat_ofNat_of_lt hj]
    omega
  rw [index, mul_eq_ok hmul]
  exact add_eq_ok hsum

lemma entry_eq_ok {α : Type} (a : ℕ → α) {len m n : UInt64}
    (h : m.toNat * n.toNat ≤ len.toNat) {i j : ℕ} (hi : i < m.toNat) (hj : j < n.toNat) :
    entry a len (UInt64.ofNat i) n (UInt64.ofNat j)
      = .ok (a (UInt64.ofNat i * n + UInt64.ofNat j).toNat) := by
  have hlen := len.toNat_lt
  have hlt := entry_lt hi hj
  rw [entry, index_eq_ok (m := m) (by omega) hi hj]
  refine fetch_eq_ok a ?_
  rw [toNat_index (m := m) (by omega) hi hj]
  omega

lemma placeAt_eq_ok {len m n : UInt64} (h : m.toNat * n.toNat ≤ len.toNat) {i j : ℕ}
    (hi : i < m.toNat) (hj : j < n.toNat) :
    placeAt len (UInt64.ofNat i) n (UInt64.ofNat j) = .ok () := by
  have hlen := len.toNat_lt
  have hlt := entry_lt hi hj
  rw [placeAt, index_eq_ok (m := m) (by omega) hi hj]
  refine place_eq_ok ?_
  rw [toNat_index (m := m) (by omega) hi hj]
  omega

/-! ### Runs with errors of their own -/

variable {E α β : Type}

/-- A guarded operation, which may end in a fault, but in no error. -/
def lift (x : Except Fault α) : ExceptT E (Except Fault) α := ExceptT.lift x

/-- A step that may end in an error, but in no fault. -/
def own (y : Except E α) : ExceptT E (Except Fault) α := ExceptT.mk (.ok y)

/-- The run has no fault, and ends as `y`. -/
def Safe (x : ExceptT E (Except Fault) α) (y : Except E α) : Prop := x.run = .ok y

lemma safe_own (y : Except E α) : Safe (own y) y := rfl

lemma safe_pure (a : α) : Safe (pure a : ExceptT E (Except Fault) α) (.ok a) := rfl

/-- A guarded operation without a fault goes on with its value. -/
lemma safe_lift_bind {x : Except Fault α} {a : α} (hx : x = .ok a)
    {f : α → ExceptT E (Except Fault) β} {y : Except E β} (h : Safe (f a) y) :
    Safe (lift x >>= f) y := by
  rw [hx]
  exact h

lemma Safe.bind {x : ExceptT E (Except Fault) α} {y : Except E α} (hx : Safe x y)
    {f : α → ExceptT E (Except Fault) β} {g : α → Except E β}
    (h : ∀ a, y = .ok a → Safe (f a) (g a)) : Safe (x >>= f) (y >>= g) := by
  rw [Safe] at hx ⊢
  rw [ExceptT.run_bind, hx]
  cases y with
  | error e => rfl
  | ok a => exact h a rfl

lemma Safe.foldlM {f : β → α → ExceptT E (Except Fault) β} {g : β → α → Except E β} {as : List α}
    (h : ∀ a ∈ as, ∀ c, Safe (f c a) (g c a)) (c : β) : Safe (as.foldlM f c) (as.foldlM g c) := by
  induction as generalizing c with
  | nil => rfl
  | cons a as ih =>
      rw [List.foldlM_cons, List.foldlM_cons]
      exact (h a List.mem_cons_self c).bind fun d _ =>
        ih (fun a' ha' => h a' (List.mem_cons_of_mem a ha')) d

lemma Safe.mapM {f : α → ExceptT E (Except Fault) β} {g : α → Except E β} {as : List α}
    (h : ∀ a ∈ as, Safe (f a) (g a)) : Safe (as.mapM f) (as.mapM g) := by
  induction as with
  | nil => rfl
  | cons a as ih =>
      rw [List.mapM_cons, List.mapM_cons]
      exact (h a List.mem_cons_self).bind fun b _ =>
        (ih fun a' ha' => h a' (List.mem_cons_of_mem a ha')).bind fun bs _ => safe_pure _

/-- A scan whose tests have no fault. -/
lemma allM_eq_ok {f : α → Except Fault Bool} {g : α → Bool} {as : List α}
    (h : ∀ a ∈ as, f a = .ok (g a)) : as.allM f = .ok (as.all g) := by
  induction as with
  | nil => rfl
  | cons a as ih =>
      have has := ih fun a' ha' => h a' (List.mem_cons_of_mem a ha')
      rw [List.allM, h a List.mem_cons_self, List.all_cons]
      cases g a with
      | false => rfl
      | true => exact has

end Guarded
