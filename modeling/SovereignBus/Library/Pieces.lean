import SovereignBus.Library.Lines

/-!
The lines of a text that is read in parts, put together from the pieces in which
the parts have them.

* `pieces`: the lines of all parts, and `cut_flatten`, how the lines of the text
  are put together from them.
* `Whole`: lines whose pieces do not read as the line does.
  `Insensitive.pieces` and `eq_of_flatMap_eq` turn this into a comparison line
  by line.
* `readParts_eq_iff`: when a reader finds the lines of a text in its parts.
-/

namespace Lines

variable {A B : Type*} {sep ws : A → Bool}

variable (sep) in
/-- The pieces of lines in which the parts of a text come. -/
def pieces (parts : List (List A)) : List (List A) := parts.flatMap (cut sep)

/-- A piece that ends its line. -/
def ends (sep : A → Bool) (p : List A) : Bool := p.any sep

/-- A piece is not empty and has a separator at most at its end. -/
def Piece (sep : A → Bool) (p : List A) : Prop := p ≠ [] ∧ ∀ a ∈ p.dropLast, sep a = false

lemma flatten_pieces (parts : List (List A)) : (pieces sep parts).flatten = parts.flatten := by
  induction parts with
  | nil => rfl
  | cons l parts ih =>
      rw [pieces, List.flatMap_cons, List.flatten_append, flatten_cut, List.flatten_cons]
      exact congrArg (l ++ ·) ih

lemma piece_of_mem_cut {l p : List A} (hp : p ∈ cut sep l) : Piece sep p := by
  induction l generalizing p with
  | nil => simp at hp
  | cons a l ih =>
      cases ha : sep a
      · rw [cut_cons_of_not ha, List.mem_cons] at hp
        rcases hp with rfl | hp
        · refine ⟨List.cons_ne_nil _ _, ?_⟩
          by_cases hl : l = []
          · simp [hl]
          · have hopen : Piece sep (opening sep l) :=
              ih (by rw [cut_of_ne_nil hl]; exact List.mem_cons_self)
            rw [List.dropLast_cons_of_ne_nil hopen.1]
            simpa [ha] using hopen.2
        · exact ih (List.mem_of_mem_tail hp)
      · rw [cut_cons_sep ha, List.mem_cons] at hp
        rcases hp with rfl | hp
        · exact ⟨List.cons_ne_nil _ _, by simp⟩
        · exact ih hp

lemma piece_of_mem_pieces {parts : List (List A)} {p : List A} (hp : p ∈ pieces sep parts) :
    Piece sep p := by
  obtain ⟨l, -, hp⟩ := List.mem_flatMap.mp hp
  exact piece_of_mem_cut hp

/-- A piece that ends its line has its separator at the end. -/
lemma Piece.eq_of_ends {p : List A} (hp : Piece sep p) (hends : ends sep p = true) :
    ∃ u s, p = u ++ [s] ∧ sep s = true ∧ ∀ a ∈ u, sep a = false := by
  obtain ⟨u, s, rfl⟩ := p.eq_nil_or_concat'.resolve_left hp.1
  have hu : ∀ a ∈ u, sep a = false := by simpa using hp.2
  obtain ⟨a, ha, hs⟩ := List.any_eq_true.mp hends
  rcases List.mem_append.mp ha with ha | ha
  · simp [hu a ha] at hs
  · obtain rfl : a = s := by simpa using ha
    exact ⟨u, a, rfl, hs, hu⟩

lemma not_sep_of_not_ends {p : List A} (hends : ends sep p = false) : ∀ a ∈ p, sep a = false :=
  fun a ha => by simpa using List.any_eq_false.mp hends a ha

lemma flatten_opening (ps : List (List A)) :
    (opening (ends sep) ps).flatten
      = ((cut (ends sep) ps).map List.flatten).head?.getD [] := by
  rw [opening]
  cases cut (ends sep) ps <;> rfl

/-- The lines of a text are its pieces, put together up to one that ends a line. -/
lemma cut_flatten {ps : List (List A)} (h : ∀ p ∈ ps, Piece sep p) :
    cut sep ps.flatten = (cut (ends sep) ps).map List.flatten := by
  induction ps with
  | nil => rfl
  | cons p ps ih =>
      have ih := ih fun q hq => h q (List.mem_cons_of_mem p hq)
      have hp := h p List.mem_cons_self
      cases hends : ends sep p
      · have hnot := not_sep_of_not_ends hends
        rw [cut_cons_of_not hends, List.flatten_cons, List.map_cons, List.map_tail, ← ih,
          List.flatten_cons, flatten_opening, ← ih]
        by_cases hps : ps = []
        · simp [hps, cut_of_not hnot hp.1]
        · have hne : ps.flatten ≠ [] := by
            obtain ⟨q, qs, rfl⟩ := List.exists_cons_of_ne_nil hps
            have hq : q ≠ [] := (h q (by simp)).1
            simp [hq]
          rw [cut_append_of_not hnot hne]
          rfl
      · obtain ⟨u, s, rfl, hs, hu⟩ := hp.eq_of_ends hends
        rw [cut_cons_sep hends, List.flatten_cons, List.append_assoc, List.singleton_append,
          cut_line hu hs, ih, List.map_cons]
        simp

lemma opening_flatten {ps : List (List A)} (h : ∀ p ∈ ps, Piece sep p) :
    opening sep ps.flatten = (opening (ends sep) ps).flatten := by
  rw [flatten_opening, ← cut_flatten h, opening]

lemma unfinished_flatten {ps : List (List A)} (h : ∀ p ∈ ps, Piece sep p) :
    unfinished sep ps.flatten = (unfinished (ends sep) ps).flatten := by
  induction ps using List.reverseRecOn with
  | nil => rfl
  | append_singleton ps p ih =>
      have ih := ih fun q hq => h q (List.mem_append_left _ hq)
      have hp := h p (by simp)
      rw [List.flatten_append, List.flatten_singleton]
      cases hends : ends sep p
      · rw [unfinished_concat_of_not ps hends, unfinished_append_of_not _
          (not_sep_of_not_ends hends), ih, List.flatten_append, List.flatten_singleton]
      · obtain ⟨u, s, rfl, hs, -⟩ := hp.eq_of_ends hends
        rw [unfinished_concat_sep ps hends, ← List.append_assoc, unfinished_concat_sep _ hs]
        rfl

/-- A line that is cut comes in pieces that are not blank on both sides of the
cut. -/
lemma Tears.exists_pieces {pre post : List (List A)}
    (h : Tears sep ws pre.flatten post.flatten) :
    ∃ a b, a ++ b ∈ cut (ends sep) (pieces sep (pre ++ post))
      ∧ ¬ Blank ws a.flatten ∧ ¬ Blank ws b.flatten
      ∧ (a ++ b).flatten = unfinished sep pre.flatten ++ opening sep post.flatten := by
  have hpre : unfinished sep pre.flatten
      = (unfinished (ends sep) (pieces sep pre)).flatten := by
    rw [← unfinished_flatten fun p hp => piece_of_mem_pieces hp, flatten_pieces]
  have hpost : opening sep post.flatten = (opening (ends sep) (pieces sep post)).flatten := by
    rw [← opening_flatten fun p hp => piece_of_mem_pieces hp, flatten_pieces]
  obtain ⟨hu, ho⟩ := h
  rw [hpre] at hu
  rw [hpost] at ho
  refine ⟨_, _, ?_, hu, ho, by rw [List.flatten_append, hpre, hpost]⟩
  have hne : pieces sep post ≠ [] := by
    intro hnil
    rw [hnil, opening_nil] at ho
    exact ho Blank.nil
  obtain ⟨ps, hps⟩ := cut_append (ends sep) (pieces sep pre)
  have hsplit : pieces sep (pre ++ post) = pieces sep pre ++ pieces sep post :=
    List.flatMap_append
  rw [hsplit, hps, cut_append_of_not unfinished_not_sep hne]
  simp

lemma readParts_eq_pieces (read : List A → Option B) (parts : List (List A)) :
    readParts sep read parts
      = (cut (ends sep) (pieces sep parts)).flatMap fun g => g.filterMap read := by
  calc readParts sep read parts = (pieces sep parts).filterMap read := by
        rw [pieces, List.filterMap_flatMap]
        rfl
    _ = (cut (ends sep) (pieces sep parts)).flatten.filterMap read := by rw [flatten_cut]
    _ = (cut (ends sep) (pieces sep parts)).flatMap fun g => g.filterMap read := by
        rw [List.filterMap_flatten, List.flatMap]

lemma readLines_eq_pieces (read : List A → Option B) (parts : List (List A)) :
    readLines sep read parts.flatten
      = (cut (ends sep) (pieces sep parts)).filterMap fun g => read g.flatten := by
  rw [readLines, ← flatten_pieces, cut_flatten fun p hp => piece_of_mem_pieces hp,
    List.filterMap_map]
  rfl

variable (ws) in
/-- The line reads as something that no other part of it reads as. -/
def Whole (read : List A → Option B) (l : List A) : Prop :=
  ∃ b, read l = some b ∧ ∀ u v w, u ++ v ++ w = l → read v = some b → Blank ws u ∧ Blank ws w

/-- A line is whole if it is the only text, up to white space, that reads as it
does. -/
lemma whole_strip (read : List A → Option B) (b : B) {l : List A}
    (hl : read (strip ws l) = some b) (honly : ∀ v, read v = some b → v = strip ws l) :
    Whole ws (fun l => read (strip ws l)) l := by
  refine ⟨b, hl, ?_⟩
  rintro u v w rfl hv
  have hink := congrArg (ink ws) (honly _ hv)
  rw [ink_strip, ink_strip, ink_append, ink_append] at hink
  exact ⟨ink_eq_zero.mp (by omega), ink_eq_zero.mp (by omega)⟩

/-- The pieces of a line read as the line does, or what the line reads as is not
among what they read as. -/
lemma Insensitive.pieces {read : List A → Option B} (hread : Insensitive ws read)
    {g : List (List A)} (hg : Whole ws read g.flatten ∨ Barren read g.flatten) :
    g.filterMap read = (read g.flatten).toList
      ∨ ∃ b, read g.flatten = some b ∧ b ∉ g.filterMap read := by
  rcases hg with ⟨b, hb, hparts⟩ | hbarren
  · by_cases hmem : b ∈ g.filterMap read
    · left
      obtain ⟨v, hv, hread_v⟩ := List.mem_filterMap.mp hmem
      obtain ⟨g₁, g₂, rfl⟩ := List.append_of_mem hv
      obtain ⟨h₁, h₂⟩ := hparts g₁.flatten v g₂.flatten (by simp) hread_v
      have hblank : ∀ g : List (List A), Blank ws g.flatten → g.filterMap read = [] := by
        intro g hg
        refine List.filterMap_eq_nil_iff.mpr fun u hu => hread.blank fun a ha => hg a ?_
        exact List.mem_flatten_of_mem hu ha
      rw [hb, List.filterMap_append, List.filterMap_cons, hread_v, hblank g₁ h₁, hblank g₂ h₂]
      rfl
    · exact .inr ⟨b, hb, hmem⟩
  · left
    rw [hbarren _ List.infix_rfl]
    refine List.filterMap_eq_nil_iff.mpr fun v hv => hbarren v ?_
    obtain ⟨g₁, g₂, rfl⟩ := List.append_of_mem hv
    exact ⟨g₁.flatten, g₂.flatten, by simp⟩

section Groups

variable {ι : Type*} {f : ι → List B} {val : ι → Option B}

/-- Groups of values that either are a group's own value or lack it never catch
up with the own values once these are ahead. -/
lemma flatMap_ne_append {gs : List ι}
    (h : ∀ g ∈ gs, f g = (val g).toList ∨ ∃ b, val g = some b ∧ b ∉ f g) (xs : List B)
    (hxs : xs ≠ []) : gs.flatMap f ≠ xs ++ gs.filterMap val := by
  induction gs generalizing xs with
  | nil => simpa using hxs
  | cons g gs ih =>
      have ih := ih fun g' hg' => h g' (List.mem_cons_of_mem g hg')
      intro heq
      rw [List.flatMap_cons] at heq
      rcases h g List.mem_cons_self with hg | ⟨b, hb, hmem⟩
      · cases hv : val g with
        | none =>
            rw [hg, hv, List.filterMap_cons_none hv] at heq
            exact ih xs hxs heq
        | some b =>
            rw [hg, hv, List.filterMap_cons_some hv] at heq
            obtain ⟨x, xs, rfl⟩ := List.exists_cons_of_ne_nil hxs
            have htail := (List.cons_eq_cons.mp heq).2
            exact ih (xs ++ [b]) (by simp) (by simpa using htail)
      · rw [List.filterMap_cons_some hb] at heq
        rcases List.append_eq_append_iff.mp heq with ⟨c, hc, hrest⟩ | ⟨c, hc, hrest⟩
        · exact ih (c ++ [b]) (by simp) (by simpa using hrest)
        · cases c with
          | nil => exact ih [b] (by simp) (by simpa using hrest.symm)
          | cons b' c =>
              obtain ⟨rfl, -⟩ := List.cons_eq_cons.mp hrest
              exact hmem (by rw [hc]; simp)

/-- So where all values agree, every group has its own. -/
lemma eq_of_flatMap_eq {gs : List ι}
    (h : ∀ g ∈ gs, f g = (val g).toList ∨ ∃ b, val g = some b ∧ b ∉ f g)
    (heq : gs.flatMap f = gs.filterMap val) : ∀ g ∈ gs, f g = (val g).toList := by
  induction gs with
  | nil => simp
  | cons g gs ih =>
      have htail := fun g' hg' => h g' (List.mem_cons_of_mem g hg')
      rw [List.flatMap_cons] at heq
      rcases h g List.mem_cons_self with hg | ⟨b, hb, hmem⟩
      · have hgs : gs.flatMap f = gs.filterMap val := by
          cases hv : val g with
          | none => simpa [hg, hv] using heq
          | some b => simpa [hg, hv] using heq
        exact List.forall_mem_cons.mpr ⟨hg, ih htail hgs⟩
      · rw [List.filterMap_cons_some hb] at heq
        cases hf : f g with
        | nil =>
            rw [hf, List.nil_append] at heq
            exact absurd heq (flatMap_ne_append htail [b] (by simp))
        | cons b' c =>
            rw [hf] at heq hmem
            obtain ⟨rfl, -⟩ := List.cons_eq_cons.mp heq
            exact absurd List.mem_cons_self hmem

end Groups

/-- Reading a text of whole and barren lines in parts reads its lines exactly
when no line with something to read is cut. -/
theorem readParts_eq_iff {read : List A → Option B} (hread : Insensitive ws read)
    {parts : List (List A)}
    (hlines : ∀ l ∈ cut sep parts.flatten, Whole ws read l ∨ Barren read l) :
    readParts sep read parts = readLines sep read parts.flatten
      ↔ ∀ pre post, parts = pre ++ post → Tears sep ws pre.flatten post.flatten →
        read (unfinished sep pre.flatten ++ opening sep post.flatten) = none := by
  have hcut : cut sep parts.flatten
      = (cut (ends sep) (pieces sep parts)).map List.flatten := by
    rw [← cut_flatten fun p hp => piece_of_mem_pieces hp, flatten_pieces]
  have hgroups : ∀ g ∈ cut (ends sep) (pieces sep parts),
      Whole ws read g.flatten ∨ Barren read g.flatten := fun g hg =>
    hlines _ (by rw [hcut]; exact List.mem_map_of_mem hg)
  constructor
  · rintro heq pre post rfl htears
    obtain ⟨a, b, hmem, ha, hb, hline⟩ := htears.exists_pieces
    rw [readParts_eq_pieces, readLines_eq_pieces] at heq
    have hown := eq_of_flatMap_eq (fun g hg => hread.pieces (hgroups g hg)) heq _ hmem
    rw [← hline]
    by_contra hsome
    obtain ⟨e, he⟩ := Option.ne_none_iff_exists'.mp hsome
    rcases hgroups _ hmem with ⟨e', he', hparts⟩ | hbarren
    · obtain rfl : e = e' := Option.some.inj (he.symm.trans he')
      rw [he] at hown
      have hv : e ∈ (a ++ b).filterMap read := by simp [hown]
      obtain ⟨v, hv, hread_v⟩ := List.mem_filterMap.mp hv
      rcases List.mem_append.mp hv with hv | hv
      · obtain ⟨a₁, a₂, rfl⟩ := List.append_of_mem hv
        have hblank := (hparts a₁.flatten v (a₂.flatten ++ b.flatten) (by simp) hread_v).2
        exact hb (blank_append.mp hblank).2
      · obtain ⟨b₁, b₂, rfl⟩ := List.append_of_mem hv
        have hblank := (hparts (a.flatten ++ b₁.flatten) v b₂.flatten (by simp) hread_v).1
        exact ha (blank_append.mp hblank).1
    · rw [hbarren _ List.infix_rfl] at he
      simp at he
  · intro h
    refine readParts_of_barren hread fun pre post heq htears => ?_
    have hnone := h pre post heq htears
    subst heq
    obtain ⟨a, b, hmem, -, -, hline⟩ := htears.exists_pieces
    rcases hgroups _ hmem with ⟨e, he, -⟩ | hbarren
    · rw [hline, hnone] at he
      simp at he
    · rwa [hline] at hbarren

end Lines
