import SovereignBus.Library.JsonText
import SovereignBus.Library.Utf8
import SovereignBus.Obligations.Json

/-!
The JSON of `sov_obset_to_json` read again.

* `ObligationSet.value`: what the text of a set stands for.
* `Obligation.Clean`: a description without control characters. `string_of_clean` and
  `string_of_not_clean` read an escaped description back exactly if it is clean.
* `parse_jsonText` reads the whole text, and `valid_jsonText` says that it is UTF-8.
* `toJson_parses_iff`: what the function writes is a JSON text of the set exactly if every
  description is clean.
-/

namespace SovereignBus

namespace Obligations

open Machine Cursor Printed JsonText

variable (kindValue : ObligationKind → Int32)

/-! ### What a text stands for -/

def Obligation.value (obl : Obligation) : Value :=
  .obj [(text "id", .num obl.id.toNat 0), (text "kind", .num (kindValue obl.kind).toInt 0),
    (text "start_pc", .num obl.startPc.toNat 0), (text "end_pc", .num obl.endPc.toNat 0),
    (text "description", .str obl.bytes)]

def ObligationSet.value (obset : ObligationSet) : Value :=
  .obj [(text "version", .num 1 0),
    (text "obligations", .arr (obset.items.map (Obligation.value kindValue)))]

/-- No control character stands in the description. -/
def Obligation.Clean (obl : Obligation) : Prop := ∀ b ∈ obl.bytes, 32 ≤ b

instance (obl : Obligation) : Decidable obl.Clean := List.decidableBAll _ _

/-! ### Descriptions -/

lemma needsEscape_iff {b : UInt8} : needsEscape b = true ↔ b = 34 ∨ b = 92 := by
  simp [needsEscape]

lemma pieces_escapedByte {b : UInt8} (hb : 32 ≤ b) (s : List UInt8) :
    pieces (escapedByte b ++ s) = (pieces s).map fun r => (.byte b :: r.1, r.2) := by
  rw [escapedByte]
  cases hescape : needsEscape b with
  | true => exact pieces_escaped (needsEscape_iff.mp hescape) s
  | false =>
      refine pieces_plain ?_ s
      have hne : ¬ (b = 34 ∨ b = 92) := fun h => by simp [needsEscape_iff.mpr h] at hescape
      simp [isPlain, hb, not_or.mp hne]

lemma escapedByte_of_control {b : UInt8} (hb : b < 32) : escapedByte b = [b] := by
  have hne : needsEscape b = false := by
    rw [← Bool.not_eq_true, needsEscape_iff]
    rintro (rfl | rfl) <;> exact absurd hb (by decide)
  rw [escapedByte, hne]
  rfl

lemma escaped_cons (b : UInt8) (s : List UInt8) :
    escaped (b :: s) = escapedByte b ++ escaped s := by
  rw [escaped, List.flatMap_cons, ← escaped]

/-- A description is read back if it is clean. -/
lemma string_of_clean {s : List UInt8} (hs : ∀ b ∈ s, 32 ≤ b) :
    ReadsAs Anything string (escaped s ++ [34]) (some s) := by
  intro rest _
  have hpieces : pieces (escaped s ++ [34] ++ rest) = some (s.map .byte, rest) := by
    induction s with
    | nil => simp [escaped, pieces_quote]
    | cons b s ih =>
        obtain ⟨hb, hs⟩ := List.forall_mem_cons.mp hs
        rw [escaped_cons, List.append_assoc, List.append_assoc, pieces_escapedByte hb,
          ← List.append_assoc, ih hs]
        rfl
  rw [string, hpieces, Option.map_some, assemble_bytes]
  rfl

/-- It is refused otherwise. -/
lemma string_of_not_clean {s : List UInt8} (hs : ¬ ∀ b ∈ s, 32 ≤ b) :
    ReadsAs Anything string (escaped s ++ [34]) none := by
  intro rest _
  have hpieces : pieces (escaped s ++ [34] ++ rest) = none := by
    induction s with
    | nil => exact absurd (by simp) hs
    | cons b s ih =>
        rw [escaped_cons, List.append_assoc, List.append_assoc]
        by_cases hb : 32 ≤ b
        · have hs' : ¬ ∀ b ∈ s, 32 ≤ b := fun h => hs (List.forall_mem_cons.mpr ⟨hb, h⟩)
          rw [pieces_escapedByte hb, ← List.append_assoc, ih hs']
          rfl
        · rw [escapedByte_of_control (UInt8.not_le.mp hb), List.singleton_append,
            pieces_control (UInt8.not_le.mp hb)]
  rw [string, hpieces]
  rfl

/-! ### Texts -/

lemma plain_of_all (name : List UInt8) (h : name.all isPlain = true) :
    ∀ b ∈ name, isPlain b = true :=
  List.all_eq_true.mp h

/-- A field with a number. -/
lemma reads_field (n : ℕ) (z : ℤ) {name : List UInt8} (hname : ∀ b ∈ name, isPlain b = true) :
    ReadsAs Closes (member (JsonText.value (n + 1))) (34 :: (name ++ 34 :: 58 :: signed z))
      (some (name, .num z 0)) :=
  (reads_signed n z).member hname

/-- The fields of an obligation, and what they are read as. -/
def fields (obl : Obligation) : List (List UInt8 × Option (List UInt8 × Value)) :=
  [(34 :: (text "id" ++ 34 :: 58 :: signed obl.id.toNat), some (text "id", .num obl.id.toNat 0)),
    (34 :: (text "kind" ++ 34 :: 58 :: signed (kindValue obl.kind).toInt),
      some (text "kind", .num (kindValue obl.kind).toInt 0)),
    (34 :: (text "start_pc" ++ 34 :: 58 :: signed obl.startPc.toNat),
      some (text "start_pc", .num obl.startPc.toNat 0)),
    (34 :: (text "end_pc" ++ 34 :: 58 :: signed obl.endPc.toNat),
      some (text "end_pc", .num obl.endPc.toNat 0)),
    (34 :: (text "description" ++ 34 :: 58 :: 34 :: (escaped obl.bytes ++ [34])),
      if obl.Clean then some (text "description", .str obl.bytes) else none)]

lemma obligationText_eq (obl : Obligation) :
    obligationText kindValue obl
      = 123 :: (joined [44] ((fields kindValue obl).map Prod.fst) ++ [125]) := by
  have hsigned : ∀ n : ℕ, signed n = decimal n := fun _ => rfl
  simp [obligationText, headText, fields, joined, text, hsigned]

lemma reads_fields (n : ℕ) (obl : Obligation) : ∀ e ∈ fields kindValue obl,
    Opens e.1 ∧ ReadsAs Closes (member (JsonText.value (n + 1))) e.1 e.2 := by
  have hanything : ∀ rest, Closes rest → Anything rest := fun _ _ => trivial
  have hdescription : ReadsAs Closes (member (JsonText.value (n + 1)))
      (34 :: (text "description" ++ 34 :: 58 :: 34 :: (escaped obl.bytes ++ [34])))
      (if obl.Clean then some (text "description", .str obl.bytes) else none) := by
    have hplain := plain_of_all (text "description") rfl
    by_cases hclean : obl.Clean
    · rw [if_pos hclean]
      exact (((string_of_clean hclean).str n).mono hanything).member hplain
    · rw [if_neg hclean]
      exact (((string_of_not_clean hclean).str n).mono hanything).member hplain
  simp only [fields, List.forall_mem_cons]
  refine ⟨⟨opens_cons (.inl rfl) _, reads_field n _ (plain_of_all _ rfl)⟩,
    ⟨opens_cons (.inl rfl) _, reads_field n _ (plain_of_all _ rfl)⟩,
    ⟨opens_cons (.inl rfl) _, reads_field n _ (plain_of_all _ rfl)⟩,
    ⟨opens_cons (.inl rfl) _, reads_field n _ (plain_of_all _ rfl)⟩,
    ⟨opens_cons (.inl rfl) _, hdescription⟩, by simp⟩

/-- An obligation is read back exactly if its description is clean. -/
lemma reads_obligation {n : ℕ} (hn : 5 ≤ n) (obl : Obligation) :
    ReadsAs Anything (JsonText.value (n + 1)) (obligationText kindValue obl)
      (if obl.Clean then some (obl.value kindValue) else none) := by
  obtain ⟨n, rfl⟩ := Nat.exists_eq_add_of_le' (show 1 ≤ n by omega)
  have hobj := ReadsAs.obj (fields kindValue obl) (reads_fields kindValue n obl) hn
  have hvalue : ((fields kindValue obl).mapM Prod.snd).map .obj
      = if obl.Clean then some (obl.value kindValue) else none := by
    by_cases hclean : obl.Clean
    · simp [fields, hclean, Obligation.value]
    · simp [fields, hclean]
  rw [obligationText_eq, ← hvalue]
  exact hobj

/-- Some items are refused, or all are read. -/
lemma mapM_ite {A B C : Type*} (l : List A) (enc : A → C) (val : A → B) (good : A → Prop)
    [DecidablePred good] :
    (l.map fun a => (enc a, if good a then some (val a) else none)).mapM Prod.snd
      = if ∀ a ∈ l, good a then some (l.map val) else none := by
  induction l with
  | nil => rfl
  | cons a l ih =>
      rw [List.map_cons, List.mapM_cons, ih]
      by_cases ha : good a
      · by_cases hl : ∀ b ∈ l, good b
        · rw [if_pos hl, if_pos (List.forall_mem_cons.mpr ⟨ha, hl⟩), if_pos ha]
          rfl
        · rw [if_neg hl, if_neg fun h => hl (List.forall_mem_cons.mp h).2, if_pos ha]
          rfl
      · rw [if_neg ha, if_neg fun h => ha (List.forall_mem_cons.mp h).1]
        rfl

/-- The items of a set, and what they are read as. -/
def itemTexts (obset : ObligationSet) : List (List UInt8 × Option Value) :=
  obset.items.map fun obl =>
    (obligationText kindValue obl, if obl.Clean then some (obl.value kindValue) else none)

/-- The two fields of a set. -/
def setFields (obset : ObligationSet) : List (List UInt8 × Option (List UInt8 × Value)) :=
  [(34 :: (text "version" ++ 34 :: 58 :: signed 1), some (text "version", .num 1 0)),
    (34 :: (text "obligations" ++ 34 :: 58
        :: 91 :: (joined [44] ((itemTexts kindValue obset).map Prod.fst) ++ [93])),
      (((itemTexts kindValue obset).mapM Prod.snd).map .arr).map fun v => (text "obligations", v))]

lemma jsonText_eq (obset : ObligationSet) :
    jsonText kindValue obset
      = 123 :: (joined [44] ((setFields kindValue obset).map Prod.fst) ++ [125]) := by
  have hone : signed 1 = [49] := rfl
  have hitems : (itemTexts kindValue obset).map Prod.fst
      = obset.items.map (obligationText kindValue) := by
    rw [itemTexts, List.map_map]
    rfl
  have hcomma : text "," = [44] := rfl
  simp only [setFields, hitems, jsonText, hcomma]
  simp [joined, text, hone]

lemma opens_obligation (obl : Obligation) : Opens (obligationText kindValue obl) := by
  rw [obligationText_eq]
  exact opens_cons (.inr rfl) _

lemma reads_setFields (n : ℕ) (obset : ObligationSet) (hn : obset.count + 6 ≤ n) :
    ∀ e ∈ setFields kindValue obset,
      Opens e.1 ∧ ReadsAs Closes (member (JsonText.value (n + 1))) e.1 e.2 := by
  obtain ⟨n, rfl⟩ := Nat.exists_eq_add_of_le' (show 1 ≤ n by omega)
  have hanything : ∀ rest, Closes rest → Anything rest := fun _ _ => trivial
  have hitems : ∀ e ∈ itemTexts kindValue obset,
      Opens e.1 ∧ ReadsAs Closes (JsonText.value (n + 1)) e.1 e.2 := by
    intro e he
    obtain ⟨obl, -, rfl⟩ := List.mem_map.mp he
    dsimp only
    exact ⟨opens_obligation kindValue obl,
      (reads_obligation kindValue (by omega) obl).mono hanything⟩
  have hlength : (itemTexts kindValue obset).length = obset.count := by
    rw [itemTexts, List.length_map, ObligationSet.count]
  have harr := ReadsAs.arr (itemTexts kindValue obset) hitems (hlength.trans_le (by omega))
  simp only [setFields, List.forall_mem_cons]
  exact ⟨⟨opens_cons (.inl rfl) _, reads_field _ _ (plain_of_all _ rfl)⟩,
    ⟨opens_cons (.inl rfl) _, (harr.mono hanything).member (plain_of_all _ rfl)⟩, by simp⟩

/-- The text of a set is a JSON text exactly if every description is clean. -/
theorem parse_jsonText (obset : ObligationSet) :
    parse (jsonText kindValue obset)
      = if ∀ obl ∈ obset.items, obl.Clean then some (obset.value kindValue) else none := by
  have hlength : obset.count + 7 ≤ (jsonText kindValue obset).length := by
    have hsum := List.length_le_sum_of_one_le (obset.items.map (obligationLength kindValue))
      fun k hk => by
        obtain ⟨obl, -, rfl⟩ := List.mem_map.mp hk
        rw [obligationLength]
        omega
    rw [List.length_map, ← ObligationSet.count] at hsum
    rw [length_jsonText, jsonLength]
    omega
  obtain ⟨n, hn⟩ := Nat.exists_eq_add_of_le' (show 1 ≤ (jsonText kindValue obset).length by omega)
  have hobj := ReadsAs.obj (setFields kindValue obset)
    (reads_setFields kindValue n obset (by omega)) (show 2 ≤ n + 1 by omega)
  rw [← jsonText_eq, ← hn] at hobj
  rw [parse_of_reads hobj, setFields, List.mapM_cons, List.mapM_cons, itemTexts, mapM_ite]
  split_ifs
  · rfl
  · rfl

/-! ### UTF-8 -/

lemma ascii_of_all (s : List UInt8) (h : (s.all fun b => b < 128) = true) : Utf8.Valid s :=
  Utf8.valid_ascii fun b hb => of_decide_eq_true (List.all_eq_true.mp h b hb)

lemma valid_of_isNumeral {s : List UInt8} (h : ∀ b ∈ s, isNumeral b = true) : Utf8.Valid s := by
  refine Utf8.valid_ascii fun b hb => ?_
  have hnumeral := h b hb
  simp only [isNumeral, Bool.or_eq_true, beq_iff_eq, Bool.and_eq_true, decide_eq_true_eq]
    at hnumeral
  rcases hnumeral with rfl | ⟨-, hle⟩
  · decide
  · exact UInt8.lt_of_le_of_lt hle (by decide)

lemma valid_decimal (n : ℕ) : Utf8.Valid (decimal n) :=
  valid_of_isNumeral fun _ => isNumeral_of_mem_decimal

lemma valid_signed (z : ℤ) : Utf8.Valid (signed z) :=
  valid_of_isNumeral fun _ => isNumeral_of_mem_signed

lemma valid_escaped {s : List UInt8} (h : Utf8.Valid s) : Utf8.Valid (escaped s) := by
  refine h.flatMap (fun b hb => ?_) fun b hb => ?_
  · rw [escapedByte]
    split_ifs
    · exact Utf8.Valid.append (s := [92]) (Utf8.valid_singleton (by decide))
        (Utf8.valid_singleton hb)
    · exact Utf8.valid_singleton hb
  · have hne : needsEscape b = false := by
      rw [← Bool.not_eq_true, needsEscape_iff]
      rintro (rfl | rfl) <;> exact absurd hb (by decide)
    rw [escapedByte, hne]
    rfl

lemma valid_obligationText {obl : Obligation} (h : Utf8.Valid obl.bytes) :
    Utf8.Valid (obligationText kindValue obl) := by
  have hhead : Utf8.Valid (headText kindValue obl) :=
    ((((((((ascii_of_all _ rfl).append (valid_decimal _)).append (ascii_of_all _ rfl)).append
      (valid_signed _)).append (ascii_of_all _ rfl)).append (valid_decimal _)).append
      (ascii_of_all _ rfl)).append (valid_decimal _)).append (ascii_of_all _ rfl)
  exact hhead.append ((valid_escaped h).append (ascii_of_all _ rfl))

lemma valid_joined {ss : List (List UInt8)} (h : ∀ s ∈ ss, Utf8.Valid s) :
    Utf8.Valid (joined (text ",") ss) := by
  cases ss with
  | nil => exact Utf8.valid_nil
  | cons s ss =>
      obtain ⟨hs, hss⟩ := List.forall_mem_cons.mp h
      refine hs.append ?_
      induction ss with
      | nil => exact Utf8.valid_nil
      | cons s' ss ih =>
          obtain ⟨hs', hss'⟩ := List.forall_mem_cons.mp hss
          rw [List.flatMap_cons]
          exact ((ascii_of_all (text ",") rfl).append hs').append
            (ih (List.forall_mem_cons.mpr ⟨hs, hss'⟩) hss')

lemma valid_jsonText {obset : ObligationSet} (h : ∀ obl ∈ obset.items, Utf8.Valid obl.bytes) :
    Utf8.Valid (jsonText kindValue obset) := by
  refine (ascii_of_all _ rfl).append ((valid_joined fun s hs => ?_).append (ascii_of_all _ rfl))
  obtain ⟨obl, hobl, rfl⟩ := List.mem_map.mp hs
  exact valid_obligationText kindValue (h obl hobl)

/-! ### What the function writes -/

/-- A text with room for the zero behind it is written whole. -/
lemma toJson_content {obset : ObligationSet} (hfits : jsonLength kindValue obset < obset.bufSize)
    (buf : ℕ → UInt8) :
    ∃ c, sovObsetToJson kindValue obset buf = .ok c ∧ c.content = jsonText kindValue obset := by
  rw [← length_jsonText] at hfits
  have hwrites := @writes_toJson kindValue obset.bufSize obset
  obtain ⟨c, hok, -⟩ := hwrites.fits ⟨0, buf⟩ (by simpa using hfits.le)
  refine ⟨c, hok, ?_⟩
  rw [hwrites.content _ _ hok (by simpa using hfits)]
  rfl

/-- The function writes a JSON text that is read as the set. -/
def Faithful (obset : ObligationSet) (buf : ℕ → UInt8) : Prop :=
  ∃ c, sovObsetToJson kindValue obset buf = .ok c ∧ Utf8.Valid c.content
    ∧ parse c.content = some (obset.value kindValue)

/-- A set whose descriptions are UTF-8 and whose text fits the buffer is written as a JSON text
of its identifiers, kinds, program counters and descriptions exactly if no description has a
control character. -/
theorem toJson_parses_iff {obset : ObligationSet}
    (hvalid : ∀ obl ∈ obset.items, Utf8.Valid obl.bytes)
    (hfits : jsonLength kindValue obset < obset.bufSize) (buf : ℕ → UInt8) :
    Faithful kindValue obset buf ↔ ∀ obl ∈ obset.items, obl.Clean := by
  obtain ⟨c, hok, hcontent⟩ := toJson_content kindValue hfits buf
  have hparse := parse_jsonText kindValue obset
  rw [← hcontent] at hparse
  constructor
  · rintro ⟨c', hok', -, hvalue⟩
    obtain rfl := Except.ok.inj (hok.symm.trans hok')
    by_contra hclean
    rw [hparse, if_neg hclean] at hvalue
    exact absurd hvalue (by simp)
  · intro hclean
    refine ⟨c, hok, ?_, by rw [hparse, if_pos hclean]⟩
    rw [hcontent]
    exact valid_jsonText kindValue hvalid

/-- A description with an escaped quote. -/
theorem toJson_parses_quote :
    Faithful (fun _ => 0) ⟨[⟨0, .type, 3, 5, some [97, 34], []⟩], 10, 1⟩ fun _ => 0 := by
  have hclean : Obligation.Clean ⟨0, .type, 3, 5, some [97, 34], []⟩ := by
    intro b hb
    simp only [Obligation.bytes, Option.getD_some, List.mem_cons, List.not_mem_nil, or_false] at hb
    rcases hb with rfl | rfl <;> decide
  exact (@toJson_parses_iff (fun _ => 0) ⟨[⟨0, .type, 3, 5, some [97, 34], []⟩], 10, 1⟩
    (List.forall_mem_singleton.mpr (ascii_of_all [97, 34] rfl)) (by decide) _).mpr
    (List.forall_mem_singleton.mpr hclean)

/-- A description with a line feed is written as it is. -/
theorem line_feed_not_json :
    (∀ obl ∈ (after [.addType (some [97, 10]) 3 5]).items, Utf8.Valid obl.bytes)
      ∧ jsonLength (fun _ => 0) (after [.addType (some [97, 10]) 3 5])
        < (after [.addType (some [97, 10]) 3 5]).bufSize
      ∧ ¬ Faithful (fun _ => 0) (after [.addType (some [97, 10]) 3 5]) fun _ => 0 := by
  have hafter : after [.addType (some [97, 10]) 3 5]
      = ⟨[⟨0, .type, 3, 5, some [97, 10], []⟩], 10, 1⟩ := rfl
  have hfits : jsonLength (fun _ => 0) ⟨[⟨0, .type, 3, 5, some [97, 10], []⟩], 10, 1⟩
      < ObligationSet.bufSize ⟨[⟨0, .type, 3, 5, some [97, 10], []⟩], 10, 1⟩ := by decide
  rw [hafter]
  refine ⟨List.forall_mem_singleton.mpr (ascii_of_all [97, 10] rfl), hfits, ?_⟩
  rintro ⟨c, hok, -, hvalue⟩
  obtain ⟨c', hok', hcontent⟩ := toJson_content (fun _ => 0) hfits fun _ => 0
  obtain rfl := Except.ok.inj (hok.symm.trans hok')
  have hunclean : ¬ Obligation.Clean ⟨0, .type, 3, 5, some [97, 10], []⟩ := fun h =>
    absurd (h 10 (List.mem_cons_of_mem _ List.mem_cons_self)) (by decide)
  rw [hcontent, parse_jsonText, if_neg fun h => hunclean (h _ List.mem_cons_self)] at hvalue
  exact absurd hvalue (by simp)

end Obligations

end SovereignBus
