import Mathlib

/-!
Exclusive or, the algebra under every checksum of its kind.

* `Pi.instXorOp`: families `ι → G` take the operation place by place, and obey
  its laws when `G` does.
* `LawfulXor.xor_right_inj` and `LawfulXor.xor_left_inj`: adding one element is
  injective.
* `xorSum`: the exclusive or of a list. `foldl_xor_eq` reads an accumulator
  loop as one, `xorSum_map_single` evaluates the sum when all terms but one
  vanish, and `map_xorSum` carries it into an additive monoid.
-/

namespace LawfulXor

variable {G : Type*} [XorOp G] [Zero G] [LawfulXor G]

lemma xor_left_comm (a b c : G) : a ^^^ (b ^^^ c) = b ^^^ (a ^^^ c) := by
  rw [← xor_assoc, xor_comm a b, xor_assoc]

/-- Adding one element on the left is injective. -/
lemma xor_right_inj {a b c : G} : a ^^^ b = a ^^^ c ↔ b = c :=
  (xor_right_involutive a).injective.eq_iff

lemma xor_left_inj {a b c : G} : a ^^^ c = b ^^^ c ↔ a = b :=
  (xor_left_involutive c).injective.eq_iff

end LawfulXor

/-! ### The exclusive or of a list -/

section XorSum

variable {G : Type*} [XorOp G] [Zero G]

/-- The exclusive or of all members of a list. -/
def xorSum (l : List G) : G := l.foldr (· ^^^ ·) 0

@[simp] lemma xorSum_nil : xorSum ([] : List G) = 0 := rfl

@[simp] lemma xorSum_cons (a : G) (l : List G) : xorSum (a :: l) = a ^^^ xorSum l := rfl

/-- A map that takes exclusive or to addition takes sums to sums. -/
lemma map_xorSum {M : Type*} [AddCommMonoid M] {φ : G → M} (hzero : φ 0 = 0)
    (hxor : ∀ a b, φ (a ^^^ b) = φ a + φ b) (l : List G) : φ (xorSum l) = (l.map φ).sum := by
  induction l with
  | nil => exact hzero
  | cons a l ih => rw [xorSum_cons, hxor, ih, List.map_cons, List.sum_cons]

variable [LawfulXor G]

/-- An accumulator loop adds the sum of its terms to the start value. -/
lemma foldl_xor_eq {ι : Type*} (f : ι → G) (l : List ι) (s : G) :
    l.foldl (fun s i => s ^^^ f i) s = s ^^^ xorSum (l.map f) := by
  induction l generalizing s with
  | nil => simp
  | cons i l ih => simp [ih, xor_assoc]

lemma xorSum_map_eq_zero {ι : Type*} {f : ι → G} {l : List ι} (h : ∀ i ∈ l, f i = 0) :
    xorSum (l.map f) = 0 := by
  induction l with
  | nil => rfl
  | cons i l ih =>
      have hi : f i = 0 := h i (by simp)
      have hl := ih fun j hj => h j (by simp [hj])
      simp [hi, hl]

/-- A sum all of whose terms but one vanish is that term. -/
lemma xorSum_map_single {ι : Type*} {f : ι → G} {l : List ι} {j : ι} (hnd : l.Nodup)
    (hj : j ∈ l) (h : ∀ i ∈ l, i ≠ j → f i = 0) : xorSum (l.map f) = f j := by
  induction l with
  | nil => simp at hj
  | cons i l ih =>
      obtain ⟨hi, hnd'⟩ := List.nodup_cons.mp hnd
      rcases List.mem_cons.mp hj with rfl | hj'
      · have hl : xorSum (l.map f) = 0 :=
          xorSum_map_eq_zero fun k hk => h k (by simp [hk]) fun hkj => hi (hkj ▸ hk)
        simp [hl]
      · have hij : i ≠ j := fun hij => hi (hij ▸ hj')
        have hi0 : f i = 0 := h i (by simp) hij
        have hl := ih hnd' hj' fun k hk => h k (by simp [hk])
        simp [hi0, hl]

end XorSum

/-! ### Families -/

instance Pi.instXorOp {ι : Type*} {G : Type*} [XorOp G] : XorOp (ι → G) where
  xor a b := fun i => a i ^^^ b i

@[simp] lemma Pi.xor_apply {ι : Type*} {G : Type*} [XorOp G] (a b : ι → G) (i : ι) :
    (a ^^^ b) i = a i ^^^ b i := rfl

instance Pi.instLawfulXor {ι : Type*} {G : Type*} [XorOp G] [Zero G] [LawfulXor G] :
    LawfulXor (ι → G) where
  xor_assoc _ _ _ := funext fun _ => LawfulXor.xor_assoc _ _ _
  xor_comm _ _ := funext fun _ => LawfulXor.xor_comm _ _
  xor_zero _ := funext fun _ => LawfulXor.xor_zero _
  xor_self _ := funext fun _ => LawfulXor.xor_self _
