import Mathlib

/-!
Lists cut into lines.

* `cut`: a list cut behind every separator, the way `split_inclusive` and line
  readers cut a text; the last line may lack its separator.
* `unfinished`, `opening`: the end and the beginning of a text that is read in
  two parts, and `cut_append`, how its lines are put together.
* `Insensitive`, `Tears`: readers of single lines, and a text cut inside a line.
  `read_in_parts_iff` says when reading a text in parts reads its lines, for
  every reader, and `readParts_of_barren` what one reader has to find in the
  lines that are cut.
-/

namespace Lines

variable {A : Type*} (sep : A → Bool)

/-- A list cut behind every separator. -/
def cut : List A → List (List A)
  | [] => []
  | a :: l =>
      if sep a then [a] :: cut l
      else
        match cut l with
        | [] => [[a]]
        | p :: ps => (a :: p) :: ps

/-- What stands behind the last separator. -/
def unfinished (l : List A) : List A := l.rtakeWhile fun a => !sep a

/-- The first line. -/
def opening (l : List A) : List A := (cut sep l).head?.getD []

@[simp] lemma cut_nil : cut sep [] = [] := rfl

@[simp] lemma opening_nil : opening sep [] = [] := rfl

@[simp] lemma unfinished_nil : unfinished sep [] = [] := rfl

variable {sep}

lemma cut_cons_sep {a : A} (ha : sep a = true) (l : List A) :
    cut sep (a :: l) = [a] :: cut sep l := by
  rw [cut, if_pos ha]

/-- An element that is no separator joins the first line. -/
lemma cut_cons_of_not {a : A} (ha : sep a = false) (l : List A) :
    cut sep (a :: l) = (a :: opening sep l) :: (cut sep l).tail := by
  rw [cut, if_neg (by simp [ha]), opening]
  cases cut sep l <;> rfl

lemma opening_cons_of_not {a : A} (ha : sep a = false) (l : List A) :
    opening sep (a :: l) = a :: opening sep l := by
  rw [opening, cut_cons_of_not ha]
  rfl

lemma opening_cons_sep {a : A} (ha : sep a = true) (l : List A) : opening sep (a :: l) = [a] := by
  rw [opening, cut_cons_sep ha]
  rfl

lemma cut_of_ne_nil {l : List A} (hl : l ≠ []) :
    cut sep l = opening sep l :: (cut sep l).tail := by
  cases l with
  | nil => exact absurd rfl hl
  | cons a l =>
      cases ha : sep a
      · rw [opening_cons_of_not ha, cut_cons_of_not ha, List.tail_cons]
      · rw [opening_cons_sep ha, cut_cons_sep ha, List.tail_cons]

variable (sep) in
/-- The lines make up the text. -/
@[simp] lemma flatten_cut (l : List A) : (cut sep l).flatten = l := by
  induction l with
  | nil => rfl
  | cons a l ih =>
      cases ha : sep a
      · rw [cut_cons_of_not ha, List.flatten_cons, List.cons_append]
        congr 1
        cases l with
        | nil => rfl
        | cons b l =>
            rw [← List.flatten_cons, ← cut_of_ne_nil (List.cons_ne_nil b l), ih]
      · rw [cut_cons_sep ha, List.flatten_cons, ih, List.singleton_append]

/-- A text without separators continues into the first line. -/
lemma cut_append_of_not {u : List A} (hu : ∀ a ∈ u, sep a = false) {l : List A} (hl : l ≠ []) :
    cut sep (u ++ l) = (u ++ opening sep l) :: (cut sep l).tail := by
  induction u with
  | nil => exact cut_of_ne_nil hl
  | cons a u ih =>
      have hcut := ih fun b hb => hu b (List.mem_cons_of_mem a hb)
      rw [List.cons_append, cut_cons_of_not (hu a List.mem_cons_self), opening, hcut]
      rfl

lemma cut_of_not {u : List A} (hu : ∀ a ∈ u, sep a = false) (hne : u ≠ []) :
    cut sep u = [u] := by
  induction u with
  | nil => exact absurd rfl hne
  | cons a u ih =>
      rw [cut_cons_of_not (hu a List.mem_cons_self)]
      cases u with
      | nil => rfl
      | cons b u =>
          rw [opening, ih (fun c hc => hu c (List.mem_cons_of_mem a hc)) (List.cons_ne_nil b u)]
          rfl

/-- A line with its separator. -/
lemma cut_line {u : List A} (hu : ∀ a ∈ u, sep a = false) {s : A} (hs : sep s = true)
    (l : List A) : cut sep (u ++ s :: l) = (u ++ [s]) :: cut sep l := by
  rw [cut_append_of_not hu (List.cons_ne_nil s l), opening_cons_sep hs, cut_cons_sep hs,
    List.tail_cons]

lemma cut_append_sep {s : A} (hs : sep s = true) (l r : List A) :
    cut sep (l ++ s :: r) = cut sep (l ++ [s]) ++ cut sep r := by
  induction l with
  | nil => simp [cut_cons_sep hs]
  | cons a l ih =>
      have hne : cut sep (l ++ [s]) ≠ [] := by
        intro h
        have hflat := flatten_cut sep (l ++ [s])
        simp [h] at hflat
      cases ha : sep a
      · rw [List.cons_append, List.cons_append, cut_cons_of_not ha, cut_cons_of_not ha, opening,
          opening, ih]
        obtain ⟨p, ps, hps⟩ := List.exists_cons_of_ne_nil hne
        rw [hps]
        rfl
      · rw [List.cons_append, List.cons_append, cut_cons_sep ha, cut_cons_sep ha, ih]
        rfl

/-! ### Texts in two parts -/

variable (sep) in
lemma exists_sep_or (l : List A) : (∃ s ∈ l, sep s = true) ∨ ∀ a ∈ l, sep a = false := by
  rw [or_iff_not_imp_left]
  intro hl a ha
  by_contra hs
  exact hl ⟨a, ha, by simpa using hs⟩

lemma unfinished_not_sep {l : List A} : ∀ a ∈ unfinished sep l, sep a = false := by
  intro a ha
  simpa using List.mem_rtakeWhile_imp ha

lemma unfinished_of_not {u : List A} (hu : ∀ a ∈ u, sep a = false) : unfinished sep u = u :=
  List.rtakeWhile_eq_self_iff.mpr fun a ha => by simp [hu a ha]

lemma unfinished_concat_of_not (l : List A) {a : A} (ha : sep a = false) :
    unfinished sep (l ++ [a]) = unfinished sep l ++ [a] :=
  List.rtakeWhile_concat_pos _ _ _ (by simp [ha])

@[simp] lemma unfinished_concat_sep (l : List A) {s : A} (hs : sep s = true) :
    unfinished sep (l ++ [s]) = [] :=
  List.rtakeWhile_concat_neg _ _ _ (by simp [hs])

lemma unfinished_append_of_not (l : List A) {u : List A} (hu : ∀ a ∈ u, sep a = false) :
    unfinished sep (l ++ u) = unfinished sep l ++ u := by
  induction u using List.reverseRecOn with
  | nil => simp
  | append_singleton u a ih =>
      have ha : sep a = false := hu a (by simp)
      have ih := ih fun b hb => hu b (by simp [hb])
      rw [← List.append_assoc, unfinished_concat_of_not _ ha, ih, List.append_assoc]

/-- A separator in the second part hides the first. -/
lemma unfinished_append_sep (l r : List A) (hr : ∃ s ∈ r, sep s = true) :
    unfinished sep (l ++ r) = unfinished sep r := by
  induction r using List.reverseRecOn with
  | nil => simp at hr
  | append_singleton r a ih =>
      rw [← List.append_assoc]
      cases ha : sep a
      · obtain ⟨s, hmem, hs⟩ := hr
        have hne : s ≠ a := by
          rintro rfl
          simp [ha] at hs
        rw [unfinished_concat_of_not _ ha, unfinished_concat_of_not _ ha,
          ih ⟨s, by simpa [hne] using hmem, hs⟩]
      · rw [unfinished_concat_sep _ ha, unfinished_concat_sep _ ha]

lemma opening_append_of_not {u : List A} (hu : ∀ a ∈ u, sep a = false) (l : List A) :
    opening sep (u ++ l) = u ++ opening sep l := by
  induction u with
  | nil => rfl
  | cons a u ih =>
      rw [List.cons_append, opening_cons_of_not (hu a List.mem_cons_self),
        ih fun b hb => hu b (List.mem_cons_of_mem a hb), List.cons_append]

variable (sep) in
/-- The lines of the first part that are over stay as they are. -/
lemma cut_append (l : List A) :
    ∃ ps, ∀ r, cut sep (l ++ r) = ps ++ cut sep (unfinished sep l ++ r) := by
  induction l using List.reverseRecOn with
  | nil => exact ⟨[], fun r => rfl⟩
  | append_singleton l a ih =>
      obtain ⟨ps, hps⟩ := ih
      cases ha : sep a
      · refine ⟨ps, fun r => ?_⟩
        rw [List.append_assoc, hps, unfinished_concat_of_not l ha, List.append_assoc]
      · refine ⟨cut sep (l ++ [a]), fun r => ?_⟩
        rw [unfinished_concat_sep l ha, List.nil_append, List.append_assoc, List.singleton_append,
          cut_append_sep ha]

/-! ### Reading in parts -/

variable {B : Type*} (sep) (ws : A → Bool)

/-- Nothing but white space. -/
def Blank (l : List A) : Prop := ∀ a ∈ l, ws a = true

instance decidableBlank (l : List A) : Decidable (Blank ws l) :=
  inferInstanceAs (Decidable (∀ a ∈ l, ws a = true))

/-- A reader of single lines that does not look at the white space around them. -/
structure Insensitive (read : List A → Option B) : Prop where
  left : ∀ u l, Blank ws u → read (u ++ l) = read l
  right : ∀ l u, Blank ws u → read (l ++ u) = read l
  nil : read [] = none

/-- A text without the white space around it. -/
def strip (l : List A) : List A := (l.dropWhile ws).rdropWhile ws

/-- The text is cut inside a line: there is some of it on both sides. -/
def Tears (l r : List A) : Prop := ¬ Blank ws (unfinished sep l) ∧ ¬ Blank ws (opening sep r)

/-- No part of the line reads as anything. -/
def Barren (read : List A → Option B) (l : List A) : Prop := ∀ v, v <:+: l → read v = none

/-- What a reader gets of the lines of a text. -/
def readLines (read : List A → Option B) (l : List A) : List B := (cut sep l).filterMap read

/-- The reader that only sees whether a line is blank. -/
def marks (l : List A) : Option Unit := if l.all ws then none else some ()

variable {sep ws}

lemma Blank.nil : Blank ws [] := by simp [Blank]

lemma blank_append {l r : List A} : Blank ws (l ++ r) ↔ Blank ws l ∧ Blank ws r := by
  simp [Blank, or_imp, forall_and]

lemma strip_append_blank (l : List A) {u : List A} (hu : Blank ws u) :
    strip ws (l ++ u) = strip ws l := by
  induction u using List.reverseRecOn with
  | nil => rw [List.append_nil]
  | append_singleton u a ih =>
      obtain ⟨hu, ha⟩ := blank_append.mp hu
      have ha : ws a = true := ha a List.mem_cons_self
      rw [← ih hu, ← List.append_assoc, strip, strip, List.dropWhile_append]
      split_ifs with hnil
      · rw [List.isEmpty_iff.mp hnil]
        simp [ha]
      · rw [List.rdropWhile_concat_pos _ _ _ ha]

lemma strip_blank_append {u : List A} (hu : Blank ws u) (l : List A) :
    strip ws (u ++ l) = strip ws l := by
  rw [strip, List.dropWhile_append_of_pos hu, strip]

variable (ws) in
/-- What `strip` takes away is white space. -/
lemma exists_strip (l : List A) :
    ∃ a b, Blank ws a ∧ Blank ws b ∧ l = a ++ (strip ws l ++ b) := by
  refine ⟨l.takeWhile ws, (l.dropWhile ws).rtakeWhile ws,
    fun a ha => List.mem_takeWhile_imp ha, fun a ha => List.mem_rtakeWhile_imp ha, ?_⟩
  rw [strip, List.rdropWhile_append_rtakeWhile, List.takeWhile_append_dropWhile]

variable (ws) in
/-- How much of a text is no white space. -/
def ink (l : List A) : ℕ := l.countP fun a => !ws a

lemma ink_append (l r : List A) : ink ws (l ++ r) = ink ws l + ink ws r := List.countP_append

lemma ink_eq_zero {l : List A} : ink ws l = 0 ↔ Blank ws l := by simp [ink, Blank]

@[simp] lemma ink_strip (l : List A) : ink ws (strip ws l) = ink ws l := by
  obtain ⟨a, b, ha, hb, hl⟩ := exists_strip ws l
  conv_rhs => rw [hl]
  rw [ink_append, ink_append, ink_eq_zero.mpr ha, ink_eq_zero.mpr hb]
  omega

/-- A reader of what is left of a line without the white space around it. -/
lemma insensitive_strip {read : List A → Option B} (hnil : read [] = none) :
    Insensitive ws fun l => read (strip ws l) where
  left u l hu := by rw [strip_blank_append hu]
  right l u hu := by rw [strip_append_blank l hu]
  nil := hnil

lemma Insensitive.blank {read : List A → Option B} (hread : Insensitive ws read) {l : List A}
    (hl : Blank ws l) : read l = none := by
  rw [← List.append_nil l, hread.left l [] hl, hread.nil]

lemma insensitive_marks : Insensitive ws (marks ws) where
  left u l hu := by
    have hall : u.all ws = true := List.all_eq_true.mpr hu
    simp [marks, hall]
  right l u hu := by
    have hall : u.all ws = true := List.all_eq_true.mpr hu
    simp [marks, hall]
  nil := rfl

lemma marks_of_not_blank {l : List A} (hl : ¬ Blank ws l) : marks ws l = some () := by
  rw [marks, if_neg (by rwa [List.all_eq_true])]

variable (sep) in
/-- The lines of a text that continues: those that are over, one with the
unfinished part in it, and the rest. -/
lemma readLines_append {read : List A → Option B} (hnil : read [] = none) (l : List A)
    {r : List A} (hr : r ≠ []) :
    ∃ xs ys, readLines sep read l = xs ++ (read (unfinished sep l)).toList
      ∧ readLines sep read r = (read (opening sep r)).toList ++ ys
      ∧ readLines sep read (l ++ r)
        = xs ++ ((read (unfinished sep l ++ opening sep r)).toList ++ ys) := by
  obtain ⟨ps, hps⟩ := cut_append sep l
  have hcons : ∀ p ps, List.filterMap read (p :: ps)
      = (read p).toList ++ List.filterMap read ps := by
    intro p ps
    cases hp : read p <;> simp [hp]
  refine ⟨ps.filterMap read, (cut sep r).tail.filterMap read, ?_, ?_, ?_⟩
  · have hl := hps []
    rw [List.append_nil, List.append_nil] at hl
    rw [readLines, hl, List.filterMap_append]
    congr 1
    by_cases hu : unfinished sep l = []
    · simp [hu, hnil]
    · rw [cut_of_not unfinished_not_sep hu, hcons, List.filterMap_nil, List.append_nil]
  · rw [readLines, cut_of_ne_nil hr, hcons, List.tail_cons]
  · rw [readLines, hps, List.filterMap_append, cut_append_of_not unfinished_not_sep hr, hcons]

/-- A text has the lines of its parts if the line it is cut in, if any, has none
to read. -/
lemma readLines_of_barren {read : List A → Option B} (hread : Insensitive ws read)
    {l r : List A}
    (h : Tears sep ws l r → Barren read (unfinished sep l ++ opening sep r)) :
    readLines sep read l ++ readLines sep read r = readLines sep read (l ++ r) := by
  by_cases hr : r = []
  · simp [hr, readLines]
  · obtain ⟨xs, ys, hl, hr, hlr⟩ := readLines_append sep hread.nil l hr
    rw [hl, hr, hlr]
    by_cases htears : Tears sep ws l r
    · have hline := h htears
      have hu := hline _ (List.prefix_append (unfinished sep l) (opening sep r)).isInfix
      have ho := hline _ (List.suffix_append (unfinished sep l) (opening sep r)).isInfix
      simp [hu, ho, hline _ List.infix_rfl]
    · rw [Tears, not_and_or, not_not, not_not] at htears
      rcases htears with hu | ho
      · simp [hread.left _ _ hu, hread.blank hu]
      · simp [hread.right _ _ ho, hread.blank ho]

/-- A text that is not cut inside a line has the lines of its parts. -/
lemma readLines_of_not_tears {read : List A → Option B} (hread : Insensitive ws read)
    {l r : List A} (h : ¬ Tears sep ws l r) :
    readLines sep read l ++ readLines sep read r = readLines sep read (l ++ r) :=
  readLines_of_barren hread fun htears => absurd htears h

/-- A text cut inside a line has one line more in its parts. -/
lemma length_marks_of_tears {l r : List A} (h : Tears sep ws l r) :
    (readLines sep (marks ws) l).length + (readLines sep (marks ws) r).length
      = (readLines sep (marks ws) (l ++ r)).length + 1 := by
  obtain ⟨hu, ho⟩ := h
  have hr : r ≠ [] := by
    rintro rfl
    exact ho Blank.nil
  have hmarks : Insensitive ws (marks ws) := insensitive_marks
  obtain ⟨xs, ys, hl, hr, hlr⟩ := readLines_append sep hmarks.nil l hr
  have hboth : ¬ Blank ws (unfinished sep l ++ opening sep r) := fun h => hu (blank_append.mp h).1
  rw [hl, hr, hlr, marks_of_not_blank hu, marks_of_not_blank ho, marks_of_not_blank hboth]
  simp only [Option.toList_some, List.length_append, List.length_singleton]
  omega

lemma not_tears_nil (r : List A) : ¬ Tears sep ws [] r := fun h => h.1 Blank.nil

/-- What comes before does not mend a line that is cut. -/
lemma Tears.append_left {p r : List A} (h : Tears sep ws p r) (l : List A) :
    Tears sep ws (l ++ p) r := by
  refine ⟨fun hblank => h.1 ?_, h.2⟩
  rcases exists_sep_or sep p with hp | hp
  · rwa [unfinished_append_sep l p hp] at hblank
  · rw [unfinished_append_of_not l hp] at hblank
    rw [unfinished_of_not hp]
    exact (blank_append.mp hblank).2

/-- A line that is cut behind `p` is cut there already without what comes before,
or it reaches over `p`. -/
lemma Tears.split {l p r : List A} (h : Tears sep ws (l ++ p) r) :
    Tears sep ws p r ∨ Tears sep ws l (p ++ r) := by
  obtain ⟨hu, ho⟩ := h
  rcases exists_sep_or sep p with hp | hp
  · rw [unfinished_append_sep l p hp] at hu
    exact .inl ⟨hu, ho⟩
  · by_cases hl : Blank ws (unfinished sep l)
    · rw [unfinished_append_of_not l hp, blank_append, not_and] at hu
      exact .inl ⟨by rw [unfinished_of_not hp]; exact hu hl, ho⟩
    · refine .inr ⟨hl, fun hblank => ho ?_⟩
      rw [opening_append_of_not hp] at hblank
      exact (blank_append.mp hblank).2

/-- What a reader gets of a text that comes in parts. -/
def readParts (sep : A → Bool) (read : List A → Option B) (parts : List (List A)) : List B :=
  parts.flatMap (readLines sep read)

variable (sep) in
/-- What comes before the first part only makes the unfinished line longer. -/
lemma unfinished_suffix (l r : List A) : unfinished sep r <:+ unfinished sep (l ++ r) := by
  rcases exists_sep_or sep r with hr | hr
  · rw [unfinished_append_sep l r hr]
  · rw [unfinished_append_of_not l hr, unfinished_of_not hr]
    exact List.suffix_append _ _

/-- Reading in parts is right if the lines that are cut have nothing to read. -/
lemma readParts_of_barren {read : List A → Option B} (hread : Insensitive ws read)
    {parts : List (List A)}
    (h : ∀ pre post, parts = pre ++ post → Tears sep ws pre.flatten post.flatten →
      Barren read (unfinished sep pre.flatten ++ opening sep post.flatten)) :
    readParts sep read parts = readLines sep read parts.flatten := by
  induction parts with
  | nil => rfl
  | cons l parts ih =>
      have hrest : readParts sep read parts = readLines sep read parts.flatten := by
        refine ih fun pre post heq htears v hv => ?_
        refine h (l :: pre) post (by rw [heq]; rfl) (htears.append_left l) v (hv.trans ?_)
        obtain ⟨t, ht⟩ := unfinished_suffix sep l pre.flatten
        rw [List.flatten_cons, ← ht, List.append_assoc]
        exact (List.suffix_append _ _).isInfix
      have hfirst : readLines sep read l ++ readLines sep read parts.flatten
          = readLines sep read (l ++ parts.flatten) :=
        readLines_of_barren hread (by simpa using h [l] parts rfl)
      rw [List.flatten_cons, ← hfirst, ← hrest]
      rfl

variable (sep ws) in
/-- The parts have no fewer lines than the text, and more if one is cut. -/
lemma length_marks_parts (parts : List (List A)) :
    (readLines sep (marks ws) parts.flatten).length ≤ (readParts sep (marks ws) parts).length
      ∧ ∀ pre post, parts = pre ++ post → Tears sep ws pre.flatten post.flatten →
        (readLines sep (marks ws) parts.flatten).length
          < (readParts sep (marks ws) parts).length := by
  induction parts with
  | nil =>
      refine ⟨le_rfl, fun pre post heq htears => absurd htears ?_⟩
      obtain ⟨rfl, -⟩ := List.append_eq_nil_iff.mp heq.symm
      exact not_tears_nil _
  | cons l parts ih =>
      obtain ⟨hle, hlt⟩ := ih
      have hsum : (readParts sep (marks ws) (l :: parts)).length
          = (readLines sep (marks ws) l).length + (readParts sep (marks ws) parts).length := by
        simp [readParts]
      have hwhole : Tears sep ws l parts.flatten
          ∧ (readLines sep (marks ws) l).length + (readLines sep (marks ws) parts.flatten).length
            = (readLines sep (marks ws) (l ++ parts.flatten)).length + 1
          ∨ ¬ Tears sep ws l parts.flatten
          ∧ (readLines sep (marks ws) l).length + (readLines sep (marks ws) parts.flatten).length
            = (readLines sep (marks ws) (l ++ parts.flatten)).length := by
        by_cases h : Tears sep ws l parts.flatten
        · exact .inl ⟨h, length_marks_of_tears h⟩
        · exact .inr ⟨h, by rw [← readLines_of_not_tears insensitive_marks h, List.length_append]⟩
      rw [hsum, List.flatten_cons]
      refine ⟨by omega, fun pre post heq htears => ?_⟩
      cases pre with
      | nil => exact absurd htears (not_tears_nil _)
      | cons l' pre =>
          obtain ⟨rfl, hparts⟩ := List.cons_eq_cons.mp heq
          rw [List.flatten_cons] at htears
          rcases htears.split with hpre | hl
          · have := hlt pre post hparts hpre
            omega
          · rw [← List.flatten_append, ← List.append_eq, ← hparts] at hl
            rcases hwhole with ⟨-, hmore⟩ | ⟨hnot, -⟩
            · omega
            · exact absurd hl hnot

/-- Reading a text in parts reads its lines, for every reader that ignores white
space around a line, exactly when no line is cut. -/
theorem read_in_parts_iff (parts : List (List A)) :
    (∀ (B : Type) (read : List A → Option B), Insensitive ws read →
        readParts sep read parts = readLines sep read parts.flatten)
      ↔ ∀ pre post, parts = pre ++ post → ¬ Tears sep ws pre.flatten post.flatten := by
  constructor
  · intro h pre post heq htears
    have hall := congrArg List.length (h Unit (marks ws) insensitive_marks)
    have hlt := (length_marks_parts sep ws parts).2 pre post heq htears
    omega
  · intro h B read hread
    exact readParts_of_barren hread fun pre post heq htears => absurd htears (h pre post heq)

end Lines
