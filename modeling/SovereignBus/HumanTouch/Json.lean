import SovereignBus.HumanTouch.Text

/-!
JSON texts of flat records, as `serde_json` writes them.

* `escape`, `jsonString`, `jsonObject`: strings and records.
* `Quoted`, `EndsIn`: a word between two quotes of a text, and the strings that
  bring it about. `quoted_jsonObject_iff` finds it in the text of a record.
* `lines_jsonObject`: the text of a record is one line.
-/

namespace SovereignBus

namespace HumanTouch

open Lines

def hexDigit (n : ℕ) : Char := "0123456789abcdef".toList.getD n '0'

/-- A character inside a string. -/
def escapeChar (c : Char) : Text :=
  if c = '"' then ['\\', '"']
  else if c = '\\' then ['\\', '\\']
  else if c = Char.ofNat 0x08 then ['\\', 'b']
  else if c = '\t' then ['\\', 't']
  else if c = '\n' then ['\\', 'n']
  else if c = Char.ofNat 0x0c then ['\\', 'f']
  else if c = '\r' then ['\\', 'r']
  else if c.toNat < 0x20 then
    ['\\', 'u', '0', '0', hexDigit (c.toNat / 16), hexDigit (c.toNat % 16)]
  else [c]

def escape (s : Text) : Text := s.flatMap escapeChar

def jsonString (s : Text) : Text := '"' :: (escape s ++ ['"'])

/-- The values of the records of the audit log. -/
inductive Json where
  | null
  | emptyArray
  | str (s : Text)
deriving DecidableEq

def Json.text : Json → Text
  | .null => "null".toList
  | .emptyArray => "[]".toList
  | .str s => jsonString s

def Json.strings : Json → List Text
  | .str s => [s]
  | _ => []

/-- A field, in the order and with the punctuation of the compact format. -/
def jsonField (f : Text × Json) : Text := jsonString f.1 ++ ':' :: f.2.text

def jsonFields : List (Text × Json) → Text
  | [] => ['}']
  | [f] => jsonField f ++ ['}']
  | f :: fs => jsonField f ++ ',' :: jsonFields fs

/-- A record. -/
def jsonObject (fs : List (Text × Json)) : Text := '{' :: jsonFields fs

/-- The strings of a record, keys and values. -/
def jsonStrings (fs : List (Text × Json)) : List Text := fs.flatMap fun f => f.1 :: f.2.strings

/-- The word stands between two quotes. -/
def Quoted (w l : Text) : Prop := '"' :: (w ++ ['"']) <:+: l

/-- The string is the word, or ends in it behind a quote. -/
def EndsIn (w s : Text) : Prop := '"' :: w <:+ '"' :: s

instance decidableQuoted (w l : Text) : Decidable (Quoted w l) :=
  inferInstanceAs (Decidable ('"' :: (w ++ ['"']) <:+: l))

instance decidableEndsIn (w s : Text) : Decidable (EndsIn w s) :=
  inferInstanceAs (Decidable ('"' :: w <:+ '"' :: s))

/-- A word that needs no escapes and does not look like punctuation. -/
structure Word (w : Text) : Prop where
  ne_nil : w ≠ []
  plain : w.all fun c => escapeChar c = [c]
  first : w.head? ∉ [some ':', some ',', some '}']

lemma mem_jsonStrings {fs : List (Text × Json)} {s : Text} :
    s ∈ jsonStrings fs ↔ s ∈ fs.map Prod.fst ∨ s ∈ fs.flatMap fun f => f.2.strings := by
  simp only [jsonStrings, List.mem_flatMap, List.mem_cons, List.mem_map, and_or_left, exists_or,
    eq_comm]

/-! ### Escapes -/

lemma escape_append (s t : Text) : escape (s ++ t) = escape s ++ escape t := List.flatMap_append

lemma hexDigit_plain : ∀ n < 16, hexDigit n ≠ '\n' ∧ hexDigit n ≠ '"' := by decide

/-- A quote is escaped, another character is escaped without one, or it stands as
it is. -/
lemma escapeChar_cases (c : Char) :
    c = '"' ∨ (∃ t, escapeChar c = '\\' :: t ∧ '\n' ∉ t ∧ '"' ∉ t)
      ∨ escapeChar c = [c] ∧ c ≠ '"' ∧ c ≠ '\\' ∧ c ≠ '\n' := by
  by_cases hquote : c = '"'
  · exact .inl hquote
  · refine .inr ?_
    rw [escapeChar, if_neg hquote]
    split_ifs with hback hb ht hn hf hr hcontrol
    · exact .inl ⟨['\\'], rfl, by decide, by decide⟩
    · exact .inl ⟨['b'], rfl, by decide, by decide⟩
    · exact .inl ⟨['t'], rfl, by decide, by decide⟩
    · exact .inl ⟨['n'], rfl, by decide, by decide⟩
    · exact .inl ⟨['f'], rfl, by decide, by decide⟩
    · exact .inl ⟨['r'], rfl, by decide, by decide⟩
    · obtain ⟨hn₁, hq₁⟩ := hexDigit_plain (c.toNat / 16) (by omega)
      obtain ⟨hn₂, hq₂⟩ := hexDigit_plain (c.toNat % 16) (by omega)
      exact .inl ⟨_, rfl, by simp [hn₁.symm, hn₂.symm], by simp [hq₁.symm, hq₂.symm]⟩
    · exact .inr ⟨rfl, hquote, hback, hn⟩

lemma newline_not_mem_escape (s : Text) : '\n' ∉ escape s := by
  rw [escape, List.mem_flatMap]
  rintro ⟨c, -, hc⟩
  rcases escapeChar_cases c with rfl | ⟨t, ht, hnot, -⟩ | ⟨hself, -, -, hne⟩
  · revert hc
    decide
  · rw [ht] at hc
    simp [hnot] at hc
  · rw [hself, List.mem_singleton] at hc
    exact hne hc.symm

lemma quote_not_mem_escape {s : Text} (hs : '"' ∉ s) : '"' ∉ escape s := by
  rw [escape, List.mem_flatMap]
  rintro ⟨c, hmem, hc⟩
  rcases escapeChar_cases c with rfl | ⟨t, ht, -, hnot⟩ | ⟨hself, hne, -⟩
  · exact hs hmem
  · rw [ht] at hc
    simp [hnot] at hc
  · rw [hself, List.mem_singleton] at hc
    exact hne hc.symm

/-- A text without backslashes was not escaped. -/
lemma escape_eq_self {s : Text} (hs : '\\' ∉ escape s) : escape s = s := by
  induction s with
  | nil => rfl
  | cons c s ih =>
      rw [escape, List.flatMap_cons, List.mem_append, not_or] at hs
      obtain ⟨hc, hs⟩ := hs
      rw [escape, List.flatMap_cons, ← escape, ih hs]
      rcases escapeChar_cases c with rfl | ⟨t, ht, -⟩ | ⟨hself, -⟩
      · exact absurd (by decide) hc
      · exact absurd (by rw [ht]; exact List.mem_cons_self) hc
      · rw [hself, List.singleton_append]

/-! ### Words between quotes -/

lemma quoted_cons_of_ne {c : Char} (hc : c ≠ '"') (w l : Text) :
    Quoted w (c :: l) ↔ Quoted w l := by
  rw [Quoted, List.infix_cons_iff, List.cons_prefix_cons]
  exact or_iff_right fun h => hc h.1.symm

lemma quoted_append_of_not_mem {p : Text} (hp : '"' ∉ p) (w l : Text) :
    Quoted w (p ++ l) ↔ Quoted w l := by
  induction p with
  | nil => rfl
  | cons c p ih =>
      obtain ⟨hc, hp⟩ := List.ne_and_not_mem_of_not_mem_cons hp
      rw [List.cons_append, quoted_cons_of_ne (Ne.symm hc), ih hp]

lemma quoted_quote (w l : Text) : Quoted w ('"' :: l) ↔ w ++ ['"'] <+: l ∨ Quoted w l := by
  rw [Quoted, List.infix_cons_iff, List.cons_prefix_cons]
  simp only [true_and, Quoted]

lemma prefix_between {w p : Text} (hw : '"' ∉ w) (hp : '"' ∉ p) (l : Text) :
    w ++ ['"'] <+: p ++ '"' :: l ↔ w = p := by
  induction w generalizing p with
  | nil =>
      cases p with
      | nil => simp
      | cons c p =>
          obtain ⟨hc, -⟩ := List.ne_and_not_mem_of_not_mem_cons hp
          simp [hc]
  | cons d w ih =>
      obtain ⟨hd, hw⟩ := List.ne_and_not_mem_of_not_mem_cons hw
      cases p with
      | nil => simp [Ne.symm hd]
      | cons c p =>
          obtain ⟨-, hp⟩ := List.ne_and_not_mem_of_not_mem_cons hp
          rw [List.cons_append, List.cons_append, List.cons_prefix_cons, ih hw hp,
            List.cons_eq_cons]

/-- The text up to the next quote, and what comes behind it. -/
lemma quoted_between {w p : Text} (hw : '"' ∉ w) (hp : '"' ∉ p) (l : Text) :
    Quoted w ('"' :: (p ++ '"' :: l)) ↔ w = p ∨ Quoted w ('"' :: l) := by
  rw [quoted_quote, prefix_between hw hp, quoted_append_of_not_mem hp]

lemma Word.escapeChar_eq {w : Text} (hw : Word w) : ∀ c ∈ w, escapeChar c = [c] := by
  simpa using hw.plain

lemma Word.quote_not_mem {w : Text} (hw : Word w) : '"' ∉ w := fun h =>
  absurd (hw.escapeChar_eq _ h) (by decide)

lemma Word.backslash_not_mem {w : Text} (hw : Word w) : '\\' ∉ w := fun h =>
  absurd (hw.escapeChar_eq _ h) (by decide)

lemma endsIn_of_not_mem {w s : Text} (hs : '"' ∉ s) : EndsIn w s ↔ w = s := by
  rw [EndsIn, List.suffix_cons_iff, List.cons_eq_cons]
  constructor
  · rintro (⟨-, rfl⟩ | h)
    · rfl
    · exact absurd (h.subset List.mem_cons_self) hs
  · rintro rfl
    exact .inl ⟨rfl, rfl⟩

lemma endsIn_append_quote {w : Text} (hw : '"' ∉ w) (a b : Text) :
    EndsIn w (a ++ '"' :: b) ↔ EndsIn w b := by
  constructor
  · intro h
    have hb : '"' :: b <:+ '"' :: (a ++ '"' :: b) := ⟨'"' :: a, by simp⟩
    rcases List.suffix_or_suffix_of_suffix h hb with h | h
    · exact h
    · rcases List.suffix_cons_iff.mp h with h | h
      · rw [EndsIn, h]
      · exact absurd (h.subset List.mem_cons_self) hw
  · rintro ⟨t, ht⟩
    exact ⟨'"' :: (a ++ t), by simp [ht]⟩

/-- The word in a string that is followed by `l`. -/
lemma quoted_escape {w : Text} (hw : Word w) (s l : Text) :
    Quoted w ('"' :: (escape s ++ '"' :: l)) ↔ EndsIn w s ∨ Quoted w ('"' :: l) := by
  have hquote := hw.quote_not_mem
  -- by the number of quotes in the string, each of which is escaped
  induction hn : s.length using Nat.strong_induction_on generalizing s with
  | _ n ih =>
      by_cases hs : '"' ∈ s
      · obtain ⟨a, b, rfl, ha⟩ := List.eq_append_cons_of_mem hs
        have hassoc : escape (a ++ '"' :: b) ++ '"' :: l
            = (escape a ++ ['\\']) ++ '"' :: (escape b ++ '"' :: l) := by
          rw [escape_append]
          simp [escape, escapeChar]
        have hnot : '"' ∉ escape a ++ ['\\'] := by simp [quote_not_mem_escape ha]
        have hne : w ≠ escape a ++ ['\\'] := fun h => hw.backslash_not_mem (by simp [h])
        rw [hassoc, quoted_between hquote hnot, or_iff_right hne, endsIn_append_quote hquote]
        refine ih b.length ?_ b rfl
        rw [← hn, List.length_append, List.length_cons]
        omega
      · rw [quoted_between hquote (quote_not_mem_escape hs), endsIn_of_not_mem hs]
        have hiff : w = escape s ↔ w = s := by
          constructor
          · intro h
            rw [h, escape_eq_self (h ▸ hw.backslash_not_mem)]
          · rintro rfl
            rw [escape, List.flatMap_congr hw.escapeChar_eq]
            simp
        rw [hiff]

/-! ### Records -/

/-- A string that is followed by punctuation. -/
lemma quoted_jsonString {w : Text} (hw : Word w) {c : Char} (hc : c ∈ [':', ',', '}'])
    (s l : Text) : Quoted w (jsonString s ++ c :: l) ↔ EndsIn w s ∨ Quoted w l := by
  have hassoc : jsonString s ++ c :: l = '"' :: (escape s ++ '"' :: c :: l) := by
    simp [jsonString]
  have hne : c ≠ '"' := by
    rintro rfl
    revert hc
    decide
  have hnot : ¬ w ++ ['"'] <+: c :: l := by
    intro h
    obtain ⟨d, w', rfl⟩ := List.exists_cons_of_ne_nil hw.ne_nil
    rw [List.cons_append, List.cons_prefix_cons] at h
    rw [h.1] at hw
    exact hw.first (List.mem_map_of_mem (f := some) hc)
  rw [hassoc, quoted_escape hw, quoted_quote, or_iff_right hnot, quoted_cons_of_ne hne]

lemma quoted_value {w : Text} (hw : Word w) {c : Char} (hc : c ∈ [':', ',', '}']) (v : Json)
    (l : Text) : Quoted w (v.text ++ c :: l) ↔ (∃ s ∈ v.strings, EndsIn w s) ∨ Quoted w l := by
  have hne : c ≠ '"' := by
    rintro rfl
    revert hc
    decide
  cases v with
  | null =>
      rw [Json.text, quoted_append_of_not_mem (by decide), quoted_cons_of_ne hne]
      simp [Json.strings]
  | emptyArray =>
      rw [Json.text, quoted_append_of_not_mem (by decide), quoted_cons_of_ne hne]
      simp [Json.strings]
  | str s =>
      rw [Json.text, quoted_jsonString hw hc]
      simp [Json.strings]

lemma quoted_jsonField {w : Text} (hw : Word w) {c : Char} (hc : c ∈ [':', ',', '}'])
    (f : Text × Json) (l : Text) :
    Quoted w (jsonField f ++ c :: l)
      ↔ (∃ s ∈ f.1 :: f.2.strings, EndsIn w s) ∨ Quoted w l := by
  rw [jsonField, List.append_assoc, List.cons_append, quoted_jsonString hw (by decide),
    quoted_value hw hc, ← or_assoc]
  simp only [List.mem_cons, exists_eq_or_imp]

/-- The word is between quotes of a record exactly when a string of it is the word
or ends in it. -/
theorem quoted_jsonObject_iff {w : Text} (hw : Word w) (fs : List (Text × Json)) :
    Quoted w (jsonObject fs) ↔ ∃ s ∈ jsonStrings fs, EndsIn w s := by
  have hend : ¬ Quoted w ([] : Text) := by simp [Quoted]
  rw [jsonObject, quoted_cons_of_ne (by decide)]
  induction fs using jsonFields.induct with
  | case1 =>
      rw [jsonFields, quoted_cons_of_ne (by decide)]
      simp [jsonStrings, hend]
  | case2 f =>
      rw [jsonFields, quoted_jsonField hw (by decide), or_iff_left hend]
      simp [jsonStrings]
  | case3 f fs hne ih =>
      rw [jsonFields, quoted_jsonField hw (by decide)]
      · refine (or_congr_right ih).trans ?_
        simp only [jsonStrings, List.flatMap_cons, List.mem_append, or_and_right, exists_or]
      · exact hne

/-! ### Lines -/

lemma newline_not_mem_jsonString (s : Text) : '\n' ∉ jsonString s := by
  simp [jsonString, newline_not_mem_escape]

lemma newline_not_mem_jsonField (f : Text × Json) : '\n' ∉ jsonField f := by
  have hvalue : '\n' ∉ f.2.text := by
    cases f.2 with
    | null => decide
    | emptyArray => decide
    | str s => exact newline_not_mem_jsonString s
  simp [jsonField, newline_not_mem_jsonString, hvalue]

/-- The fields of a record stand on one line and end in a brace. -/
lemma jsonFields_line (fs : List (Text × Json)) :
    ∃ t, jsonFields fs = t ++ ['}'] ∧ '\n' ∉ t := by
  induction fs using jsonFields.induct with
  | case1 => exact ⟨[], rfl, by simp⟩
  | case2 f => exact ⟨jsonField f, rfl, newline_not_mem_jsonField f⟩
  | case3 f fs hne ih =>
      obtain ⟨t, ht, hnot⟩ := ih
      refine ⟨jsonField f ++ ',' :: t, ?_, by simp [newline_not_mem_jsonField, hnot]⟩
      rw [jsonFields, ht]
      · simp
      · exact hne

/-- The text of a record is one line. -/
lemma lines_jsonObject (fs : List (Text × Json)) (s : Text) :
    lines (jsonObject fs ++ '\n' :: s) = jsonObject fs :: lines s := by
  obtain ⟨t, ht, hnot⟩ := jsonFields_line fs
  have hline : jsonObject fs = ('{' :: t) ++ ['}'] := by rw [jsonObject, ht, List.cons_append]
  rw [lines_line (by simp [hline, hnot]), hline, List.append_assoc, List.singleton_append,
    chomp_append_cons _ (by decide) (by decide)]
  rfl

/-- The text of a record is not blank. -/
lemma trim_jsonObject_ne_nil (fs : List (Text × Json)) : trim (jsonObject fs) ≠ [] := by
  intro h
  have hink := congrArg ink h
  rw [ink_trim] at hink
  simp [jsonObject, ink, isWhitespace] at hink

end HumanTouch

end SovereignBus
