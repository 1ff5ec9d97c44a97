import Mathlib

/-!
Byte ranges handed out one after another.

* `Follows`: every range starts at the cursor the range before it left behind;
  `cursor` is what the last one left.
* ranges whose cursor is their own end are packed: `Follows.start_getElem` and
  `Follows.end_le`.
* `Placed`: increasing, disjoint ranges that stay below a limit.
  `placed_iff_spaced` says of ranges with any cursors when they are placed.
-/

namespace Extents

variable {A : Type*} (start size next : A → ℕ)

/-- The cursor behind a list of ranges. -/
def cursor (off : ℕ) (as : List A) : ℕ := as.foldl (fun _ a => next a) off

/-- Every range starts at the cursor left by the range before it. -/
def Follows (off : ℕ) : List A → Prop
  | [] => True
  | a :: as => start a = off ∧ Follows (next a) as

@[simp] lemma cursor_nil (off : ℕ) : cursor next off [] = off := rfl

@[simp] lemma cursor_concat (off : ℕ) (as : List A) (a : A) :
    cursor next off (as ++ [a]) = next a := by
  simp [cursor]

lemma follows_concat {off : ℕ} {as : List A} {a : A} :
    Follows start next off (as ++ [a])
      ↔ Follows start next off as ∧ start a = cursor next off as := by
  induction as generalizing off with
  | nil => simp [Follows]
  | cons b as ih => simp [Follows, ih, cursor, and_assoc]

lemma follows_map {B : Type*} {f : B → A} {off : ℕ} {bs : List B} :
    Follows start next off (bs.map f)
      ↔ Follows (fun b => start (f b)) (fun b => next (f b)) off bs := by
  induction bs generalizing off with
  | nil => exact Iff.rfl
  | cons b bs ih => simp [Follows, ih]

lemma cursor_map {B : Type*} (f : B → A) (off : ℕ) (bs : List B) :
    cursor next off (bs.map f) = cursor (fun b => next (f b)) off bs := by
  simp [cursor, List.foldl_map]

/-! ### Packed ranges -/

/-- Ranges one directly behind the other. -/
abbrev Packed (off : ℕ) (as : List A) : Prop := Follows start (fun a => start a + size a) off as

variable {start size next}

lemma Packed.cursor_eq {off : ℕ} {as : List A} (h : Packed start size off as) :
    cursor (fun a => start a + size a) off as = off + (as.map size).sum := by
  induction as generalizing off with
  | nil => simp
  | cons a as ih =>
      obtain ⟨rfl, has⟩ := h
      calc cursor (fun b => start b + size b) (start a) (a :: as)
          = cursor (fun b => start b + size b) (start a + size a) as := rfl
        _ = start a + size a + (as.map size).sum := ih has
        _ = start a + ((a :: as).map size).sum := by
            rw [List.map_cons, List.sum_cons, Nat.add_assoc]

/-- The sizes of the ranges before it say where a packed range starts. -/
lemma Packed.start_getElem {off : ℕ} {as : List A} (h : Packed start size off as) {i : ℕ}
    (hi : i < as.length) : start as[i] = off + ((as.take i).map size).sum := by
  induction as generalizing off i with
  | nil => simp at hi
  | cons a as ih =>
      obtain ⟨rfl, has⟩ := h
      cases i with
      | zero => simp
      | succ i =>
          rw [List.getElem_cons_succ, ih has (by simpa using hi), List.take_succ_cons,
            List.map_cons, List.sum_cons, Nat.add_assoc]

/-- No packed range starts before the first one. -/
lemma Packed.le_start {off : ℕ} {as : List A} (h : Packed start size off as) {a : A}
    (ha : a ∈ as) : off ≤ start a := by
  obtain ⟨i, hi, rfl⟩ := List.getElem_of_mem ha
  rw [h.start_getElem hi]
  omega

/-- A packed range ends before the next one starts. -/
lemma Packed.pairwise {off : ℕ} {as : List A} (h : Packed start size off as) :
    as.Pairwise fun a b => start a + size a ≤ start b := by
  induction as generalizing off with
  | nil => exact List.Pairwise.nil
  | cons a as ih => exact List.Pairwise.cons (fun b hb => Packed.le_start h.2 hb) (ih h.2)

/-- No packed range ends behind the last one. -/
lemma Packed.end_le {off : ℕ} {as : List A} (h : Packed start size off as) {a : A}
    (ha : a ∈ as) : start a + size a ≤ off + (as.map size).sum := by
  induction as generalizing off with
  | nil => simp at ha
  | cons b as ih =>
      obtain ⟨rfl, has⟩ := h
      rw [List.map_cons, List.sum_cons, ← Nat.add_assoc]
      rcases List.mem_cons.mp ha with rfl | ha'
      · omega
      · exact ih has ha'

/-! ### Placed ranges -/

variable (start size next)

/-- The places a range covers. -/
def range (a : A) : Set ℕ := Set.Ico (start a) (start a + size a)

variable {start size next}

/-- Packed ranges cover every place once. -/
lemma Packed.existsUnique {off : ℕ} {as : List A} (h : Packed start size off as) {i : ℕ}
    (hlo : off ≤ i) (hhi : i < off + (as.map size).sum) :
    ∃! a, a ∈ as ∧ i ∈ range start size a := by
  induction as generalizing off with
  | nil =>
      simp only [List.map_nil, List.sum_nil] at hhi
      omega
  | cons a as ih =>
      obtain ⟨rfl, has⟩ := h
      rw [List.map_cons, List.sum_cons, ← Nat.add_assoc] at hhi
      rcases lt_or_ge i (start a + size a) with hi | hi
      · refine ⟨a, ⟨List.mem_cons_self, hlo, hi⟩, ?_⟩
        rintro b ⟨hb, hib, -⟩
        rcases List.mem_cons.mp hb with rfl | hb'
        · rfl
        · have hle : start a + size a ≤ start b := Packed.le_start has hb'
          omega
      · obtain ⟨b, ⟨hb, hib⟩, hunique⟩ := ih has hi hhi
        refine ⟨b, ⟨List.mem_cons_of_mem a hb, hib⟩, ?_⟩
        rintro c ⟨hc, hic⟩
        rcases List.mem_cons.mp hc with rfl | hc'
        · exact absurd hic.2 (not_lt.mpr hi)
        · exact hunique c ⟨hc', hic⟩

variable (start size next)

/-- Increasing starts, disjoint ranges, and none that ends behind the limit. -/
structure Placed (limit : ℕ) (as : List A) : Prop where
  increasing : as.Pairwise fun a b => start a < start b
  disjoint : as.Pairwise fun a b => Disjoint (range start size a) (range start size b)
  inside : ∀ a ∈ as, start a + size a ≤ limit

/-- The cursors leave room: every range ends below the limit, and before the
cursor the next one starts from. -/
def Spaced (limit off : ℕ) : List A → Prop
  | [] => True
  | a :: as =>
      off + size a ≤ limit ∧ (as ≠ [] → off + size a ≤ next a) ∧ Spaced limit (next a) as

variable {start size next}

lemma disjoint_range_iff {a b : A} (hb : 0 < size b) (hab : start a < start b) :
    Disjoint (range start size a) (range start size b) ↔ start a + size a ≤ start b := by
  rw [range, range, Set.Ico_disjoint_Ico]
  omega

/-- The ranges behind the cursor of a placed list start at the cursor or later. -/
lemma Follows.le_start {off limit : ℕ} {as : List A} (h : Follows start next off as)
    (hp : Placed start size limit as) {a : A} (ha : a ∈ as) : off ≤ start a := by
  cases as with
  | nil => simp at ha
  | cons b as =>
      obtain ⟨rfl, -⟩ := h
      rcases List.mem_cons.mp ha with rfl | ha'
      · exact le_rfl
      · exact (List.rel_of_pairwise_cons hp.increasing ha').le

/-- Exactly when ranges that follow their cursors are placed. -/
theorem placed_iff_spaced {off limit : ℕ} {as : List A} (h : Follows start next off as)
    (hsize : ∀ a ∈ as, 0 < size a) :
    Placed start size limit as ↔ Spaced size next limit off as := by
  induction as generalizing off with
  | nil => exact iff_of_true ⟨List.Pairwise.nil, List.Pairwise.nil, by simp⟩ trivial
  | cons a as ih =>
      obtain ⟨rfl, has⟩ := h
      have ih' := ih has fun b hb => hsize b (List.mem_cons_of_mem a hb)
      constructor
      · intro hp
        have hp' : Placed start size limit as :=
          ⟨hp.increasing.of_cons, hp.disjoint.of_cons,
            fun b hb => hp.inside b (List.mem_cons_of_mem a hb)⟩
        refine ⟨hp.inside a List.mem_cons_self, fun hne => ?_, ih'.mp hp'⟩
        obtain ⟨b, bs, rfl⟩ := List.exists_cons_of_ne_nil hne
        have hb : b ∈ b :: bs := List.mem_cons_self
        rw [← has.1]
        have hlt := List.rel_of_pairwise_cons hp.increasing hb
        exact (disjoint_range_iff (hsize b (by simp)) hlt).mp
          (List.rel_of_pairwise_cons hp.disjoint hb)
      · rintro ⟨hlim, hroom, hsp⟩
        have hp := ih'.mpr hsp
        have hend : ∀ b ∈ as, start a + size a ≤ start b := fun b hb =>
          (hroom (List.ne_nil_of_mem hb)).trans (has.le_start hp hb)
        have hlt : ∀ b ∈ as, start a < start b := fun b hb => by
          have ha := hsize a List.mem_cons_self
          have hab := hend b hb
          omega
        refine ⟨List.Pairwise.cons hlt hp.increasing,
          List.Pairwise.cons (fun b hb => ?_) hp.disjoint, fun b hb => ?_⟩
        · have hsb := hsize b (List.mem_cons_of_mem a hb)
          exact (disjoint_range_iff hsb (hlt b hb)).mpr (hend b hb)
        · rcases List.mem_cons.mp hb with rfl | hb'
          · exact hlim
          · exact hp.inside b hb'

end Extents
