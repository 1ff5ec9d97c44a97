import SovereignBus.Library.Lines

/-!
Strings, as the review gate of `seb/human_touch` reads and writes them.

* `trim`, `lines`, `trimStartMatches`: the functions of `str` that it uses.
* `ink`: the characters of a text that are no white space, which `trim` keeps.
-/

namespace SovereignBus

namespace HumanTouch

open Lines

/-- `String`. -/
abbrev Text := List Char

/-- What `to_rfc3339_opts` renders: a text on one line. -/
structure Timestamp where
  text : Text
  oneLine : '\n' ∉ text
deriving DecidableEq

/-- `char::is_whitespace`. -/
def isWhitespace (c : Char) : Bool :=
  0x09 ≤ c.val && c.val ≤ 0x0d || c.val == 0x20 || c.val == 0x85 || c.val == 0xa0
    || c.val == 0x1680 || 0x2000 ≤ c.val && c.val ≤ 0x200a || c.val == 0x2028 || c.val == 0x2029
    || c.val == 0x202f || c.val == 0x205f || c.val == 0x3000

/-- `str::trim`. -/
def trim (s : Text) : Text := (s.dropWhile isWhitespace).rdropWhile isWhitespace

/-- A line without its line ending. -/
def chomp (s : Text) : Text :=
  match s.reverse with
  | '\n' :: '\r' :: r => r.reverse
  | '\n' :: r => r.reverse
  | _ => s

/-- `str::lines`. -/
def lines (s : Text) : List Text := (cut (· == '\n') s).map chomp

/-- A text without the prefix `pat`, if it has it. -/
def stripPrefix (pat s : Text) : Text := if pat <+: s then s.drop pat.length else s

/-- `str::trim_start_matches`: the prefix goes as often as it is there. -/
def trimStartMatches (pat s : Text) : Text := (stripPrefix pat)^[s.length] s

/-- How many characters of a text are no white space. -/
def ink (s : Text) : ℕ := s.countP fun c => !isWhitespace c

/-! ### White space -/

lemma ink_append (s t : Text) : ink (s ++ t) = ink s + ink t := Lines.ink_append s t

lemma ink_eq_zero {s : Text} : ink s = 0 ↔ Blank isWhitespace s := Lines.ink_eq_zero

lemma ink_le_of_isInfix {s t : Text} (h : s <:+: t) : ink s ≤ ink t := h.sublist.countP_le

/-- What `trim` takes away is white space. -/
lemma exists_trim (s : Text) :
    ∃ a b, Blank isWhitespace a ∧ Blank isWhitespace b ∧ s = a ++ (trim s ++ b) :=
  exists_strip isWhitespace s

@[simp] lemma ink_trim (s : Text) : ink (trim s) = ink s := ink_strip s

lemma trim_append_blank (s : Text) {u : Text} (hu : Blank isWhitespace u) :
    trim (s ++ u) = trim s :=
  strip_append_blank s hu

lemma trim_blank_append {u : Text} (hu : Blank isWhitespace u) (s : Text) :
    trim (u ++ s) = trim s :=
  strip_blank_append hu s

/-- Text that does not go with the white space stays. -/
lemma blank_of_trim_append {s u : Text} (h : trim (s ++ u) = trim s) : Blank isWhitespace u := by
  have hink := congrArg ink h
  rw [ink_trim, ink_trim, ink_append] at hink
  exact ink_eq_zero.mp (by omega)

@[simp] lemma trim_trim (s : Text) : trim (trim s) = trim s := by
  obtain ⟨a, b, ha, hb, hs⟩ := exists_trim s
  conv_rhs => rw [hs]
  rw [trim_blank_append ha, trim_append_blank _ hb]

/-! ### Lines -/

lemma chomp_append_cons (q : Text) {c : Char} (hn : c ≠ '\n') (hr : c ≠ '\r') (t : Text) :
    chomp (q ++ c :: t) = q ++ c :: chomp t := by
  rcases t.eq_nil_or_concat with rfl | ⟨t, d, rfl⟩
  · simp [chomp, hn]
  · rcases t.eq_nil_or_concat with rfl | ⟨t, e, rfl⟩
    · by_cases hd : d = '\n' <;> simp [chomp, hd, hr]
    · by_cases hd : d = '\n' <;> by_cases he : e = '\r' <;> simp [chomp, hd, he]

/-- The line ending is white space. -/
lemma exists_chomp (s : Text) : ∃ u, Blank isWhitespace u ∧ s = chomp s ++ u := by
  rcases s.eq_nil_or_concat with rfl | ⟨t, d, rfl⟩
  · exact ⟨[], Blank.nil, rfl⟩
  · by_cases hd : d = '\n'
    · rcases t.eq_nil_or_concat with rfl | ⟨t, e, rfl⟩
      · exact ⟨['\n'], by simp [Blank, isWhitespace], by simp [chomp, hd]⟩
      · by_cases he : e = '\r'
        · exact ⟨['\r', '\n'], by simp [Blank, isWhitespace], by simp [chomp, hd, he]⟩
        · exact ⟨['\n'], by simp [Blank, isWhitespace], by simp [chomp, hd, he]⟩
    · exact ⟨[], Blank.nil, by simp [chomp, hd]⟩

lemma trim_chomp (s : Text) : trim (chomp s) = trim s := by
  obtain ⟨u, hu, hs⟩ := exists_chomp s
  conv_rhs => rw [hs]
  rw [trim_append_blank _ hu]

lemma lines_append_newline (s t : Text) :
    lines (s ++ '\n' :: t) = lines (s ++ ['\n']) ++ lines t := by
  rw [lines, cut_append_sep (by simp), List.map_append, lines, lines]

lemma lines_line {l : Text} (hl : '\n' ∉ l) (s : Text) :
    lines (l ++ '\n' :: s) = chomp (l ++ ['\n']) :: lines s := by
  have hnot : ∀ c ∈ l, (c == '\n') = false := by
    rintro c hc
    simp only [beq_eq_false_iff_ne, ne_eq]
    rintro rfl
    exact hl hc
  rw [lines, cut_line hnot (by simp), List.map_cons, lines]

lemma infix_of_mem_lines {l s : Text} (hl : l ∈ lines s) : l <:+: s := by
  obtain ⟨p, hp, rfl⟩ := List.mem_map.mp hl
  obtain ⟨u, -, hu⟩ := exists_chomp p
  have hpre : chomp p <:+: p := List.IsPrefix.isInfix ⟨u, hu.symm⟩
  have hflat : p <:+: s := by
    conv_rhs => rw [← flatten_cut (· == '\n') s]
    exact List.infix_of_mem_flatten hp
  exact hpre.trans hflat

/-- The first line of a string, and what is behind it. -/
def firstLine (s : Text) : Text := s.takeWhile (· ≠ '\n')

def behindFirst (s : Text) : Text := s.dropWhile (· ≠ '\n')

lemma firstLine_append_behind (s : Text) : firstLine s ++ behindFirst s = s :=
  List.takeWhile_append_dropWhile

lemma newline_not_mem_firstLine (s : Text) : '\n' ∉ firstLine s := fun h => by
  simpa using List.mem_takeWhile_imp h

/-- The lines of a string written behind `q`, and of what follows. -/
lemma lines_field {q : Text} (hq : '\n' ∉ q) (x : Text) :
    ∃ ls, (∀ s, lines (q ++ (x ++ '\n' :: s))
          = chomp (q ++ (firstLine x ++ ['\n'])) :: (ls ++ lines s))
      ∧ ∀ l ∈ ls, ink l ≤ ink (behindFirst x) := by
  have hx := firstLine_append_behind x
  have hmem : '\n' ∉ q ++ firstLine x := by simp [hq, newline_not_mem_firstLine]
  cases hb : behindFirst x with
  | nil =>
      rw [hb, List.append_nil] at hx
      refine ⟨[], fun s => ?_, by simp⟩
      rw [hx] at hmem
      rw [hx, ← List.append_assoc, lines_line hmem, List.append_assoc, List.nil_append]
  | cons c y =>
      have hc : c = '\n' := by
        have hhead := List.head?_dropWhile_not (fun d => decide (d ≠ '\n')) x
        rw [← behindFirst, hb] at hhead
        simpa using hhead
      subst hc
      rw [hb] at hx
      refine ⟨lines (y ++ ['\n']), fun s => ?_, fun l hl => ?_⟩
      · have hassoc : q ++ (x ++ '\n' :: s) = (q ++ firstLine x) ++ '\n' :: (y ++ '\n' :: s) := by
          conv_lhs => rw [← hx]
          simp
        rw [hassoc, lines_line hmem, lines_append_newline, List.append_assoc]
      · refine (ink_le_of_isInfix (infix_of_mem_lines hl)).trans ?_
        rw [ink_append]
        simp [ink, isWhitespace]

/-! ### Prefixes -/

/-- A text whose prefix is followed by something else loses it once. -/
lemma trimStartMatches_append {p : Char} {pat : Text} {c : Char} (hc : c ≠ p) (s : Text) :
    trimStartMatches (p :: pat) (p :: pat ++ c :: s) = c :: s := by
  have hstrip : stripPrefix (p :: pat) (p :: pat ++ c :: s) = c :: s := by
    rw [stripPrefix, if_pos (List.prefix_append _ _), List.drop_left]
  have hfix : stripPrefix (p :: pat) (c :: s) = c :: s := by
    rw [stripPrefix, if_neg]
    intro h
    exact hc (List.cons_prefix_cons.mp h).1.symm
  rw [trimStartMatches, List.cons_append, List.length_cons, Function.iterate_succ_apply,
    ← List.cons_append, hstrip, Function.iterate_fixed hfix]

lemma stripPrefix_suffix (pat s : Text) : stripPrefix pat s <:+ s := by
  rw [stripPrefix]
  split_ifs
  · exact List.drop_suffix _ _
  · exact List.suffix_refl s

/-- A text behind copies of the prefix, which has none of its own. -/
def Behind (pat s name : Text) : Prop :=
  (∃ n, s = (List.replicate n pat).flatten ++ name) ∧ ¬ pat <+: name

lemma stripPrefix_append (pat s : Text) : stripPrefix pat (pat ++ s) = s := by
  rw [stripPrefix, if_pos (List.prefix_append _ _), List.drop_left]

lemma stripPrefix_of_not {pat s : Text} (h : ¬ pat <+: s) : stripPrefix pat s = s := if_neg h

/-- Enough passes leave what stands behind the copies. -/
lemma Behind.iterate_eq {pat s name : Text} (hpat : pat ≠ []) (h : Behind pat s name) {k : ℕ}
    (hk : s.length ≤ k) : (stripPrefix pat)^[k] s = name := by
  obtain ⟨⟨n, rfl⟩, hname⟩ := h
  induction n generalizing k with
  | zero => exact Function.iterate_fixed (stripPrefix_of_not hname) k
  | succ n ih =>
      have hpos := List.length_pos_iff.mpr hpat
      rw [List.replicate_succ, List.flatten_cons, List.append_assoc] at hk ⊢
      rw [List.length_append] at hk
      obtain ⟨k, rfl⟩ := Nat.exists_eq_succ_of_ne_zero (by omega : k ≠ 0)
      rw [Function.iterate_succ_apply, stripPrefix_append]
      exact ih (by omega)

lemma exists_behind {pat : Text} (hpat : pat ≠ []) (s : Text) : ∃ name, Behind pat s name := by
  induction hn : s.length using Nat.strong_induction_on generalizing s with
  | _ n ih =>
      by_cases h : pat <+: s
      · obtain ⟨t, rfl⟩ := h
        have hpos := List.length_pos_iff.mpr hpat
        rw [List.length_append] at hn
        obtain ⟨name, ⟨m, hm⟩, hname⟩ := ih t.length (by omega) t rfl
        refine ⟨name, ⟨m + 1, ?_⟩, hname⟩
        rw [List.replicate_succ, List.flatten_cons, List.append_assoc, ← hm]
      · exact ⟨s, ⟨0, rfl⟩, h⟩

/-- What `trim_start_matches` leaves. -/
lemma behind_iff {pat s name : Text} (hpat : pat ≠ []) :
    Behind pat s name ↔ name = trimStartMatches pat s := by
  have heq : ∀ {name}, Behind pat s name → name = trimStartMatches pat s :=
    fun h => (h.iterate_eq hpat le_rfl).symm
  refine ⟨heq, ?_⟩
  rintro rfl
  obtain ⟨name, h⟩ := exists_behind hpat s
  rwa [← heq h]

/-- A text with the prefix loses at least the prefix. -/
lemma ink_trimStartMatches {pat s : Text} (h : pat <+: s) (hne : s ≠ []) :
    ink (trimStartMatches pat s) + ink pat ≤ ink s := by
  obtain ⟨t, rfl⟩ := h
  have hstrip : stripPrefix pat (pat ++ t) = t := by
    rw [stripPrefix, if_pos (List.prefix_append _ _), List.drop_left]
  have hiter : ∀ n, (stripPrefix pat)^[n] t <:+ t := by
    intro n
    induction n with
    | zero => exact List.suffix_refl t
    | succ n ih =>
        rw [Function.iterate_succ_apply']
        exact (stripPrefix_suffix _ _).trans ih
  obtain ⟨n, hn⟩ := Nat.exists_eq_succ_of_ne_zero (List.length_pos_iff.mpr hne).ne'
  rw [trimStartMatches, hn, Function.iterate_succ_apply, hstrip, ink_append]
  have hle := ink_le_of_isInfix (hiter n).isInfix
  omega

end HumanTouch

end SovereignBus
