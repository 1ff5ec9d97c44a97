import SovereignBus.Library.JsonText
import SovereignBus.Library.Utf8

/-!
JSON texts that are put together from characters, with a blank behind every colon and without
any escapes.

* `Escapes`: what a string is made of. `plain_of_string`: a string that is read as the bytes in
  front of its next quote has no escapes.
* `quote`, `entry`, `object`, `array`: the texts of values. `Written`: the text is read as a
  value.
* `Hole`: a text behind which a string is read, and where it is found in what is read.
-/

namespace JsonText

open Printed Utf8

/-! ### Strings without escapes -/

/-- The bytes of a string between its quotes, and what they stand for. -/
structure Escapes (raw s : List UInt8) : Prop where
  length : s.length ≤ raw.length
  plain : raw.length ≤ s.length → s = raw ∧ ∀ b ∈ raw, isPlain b = true
  quotes : raw.count 34 ≤ s.count 34

lemma Escapes.nil : Escapes [] [] := ⟨le_rfl, fun _ => by simp, le_rfl⟩

variable {raw s : List UInt8}

lemma Escapes.byte (h : Escapes raw s) {b : UInt8} (hb : isPlain b = true) :
    Escapes (b :: raw) (b :: s) := by
  refine ⟨Nat.succ_le_succ h.length, fun hlength => ?_, ?_⟩
  · obtain ⟨rfl, hplain⟩ := h.plain (Nat.le_of_succ_le_succ hlength)
    exact ⟨rfl, List.forall_mem_cons.mpr ⟨hb, hplain⟩⟩
  · rw [List.count_cons, List.count_cons]
    exact Nat.add_le_add_right h.quotes _

/-- An escape is longer than what it stands for, and only that of a quote has a quote. -/
lemma Escapes.escape (h : Escapes raw s) {e x : UInt8} (hx : e = 34 → x = 34) :
    Escapes (92 :: e :: raw) (x :: s) := by
  have hlength := h.length
  refine ⟨?_, fun hle => ?_, ?_⟩
  · simp only [List.length_cons]
    omega
  · simp only [List.length_cons] at hle
    omega
  · have hquotes := h.quotes
    by_cases he : e = 34
    · simp [he, hx he, hquotes]
    · rw [List.count_cons_of_ne (by decide), List.count_cons_of_ne he]
      exact hquotes.trans List.count_le_count_cons

/-- So is the escape of a code unit, also if the unit is one half of a pair. -/
lemma Escapes.unit {tail pre pre' : List UInt8} (h : Escapes raw (pre' ++ tail)) {code : List UInt8}
    (hcode : code.length = 4 ∧ 34 ∉ code) (hpre : pre.length ≤ 4) (hpre' : 34 ∉ pre') :
    Escapes (92 :: 117 :: (code ++ raw)) (pre ++ tail) := by
  have hlength := h.length
  have hquotes := h.quotes
  rw [List.length_append] at hlength
  rw [List.count_append, List.count_eq_zero.mpr hpre', Nat.zero_add] at hquotes
  refine ⟨?_, fun hle => ?_, ?_⟩
  · simp only [List.length_cons, List.length_append, hcode.1]
    omega
  · simp only [List.length_cons, List.length_append, hcode.1] at hle
    omega
  · rw [List.count_cons_of_ne (by decide), List.count_cons_of_ne (by decide), List.count_append,
      List.count_append, List.count_eq_zero.mpr hcode.2, Nat.zero_add]
    exact hquotes.trans (Nat.le_add_left _ _)

/-- The second half of a pair stands for a character of its own if the first half is missing. -/
lemma assemble_low {v : ℕ} (hv : 0xDC00 ≤ v ∧ v < 0xE000) (ps : List Piece) :
    assemble (.unit v :: ps) = String.utf8EncodeChar (Char.ofNat 0xFFFD) ++ assemble ps := by
  have hchar : unitChar v = Char.ofNat 0xFFFD := by
    rw [unitChar, if_pos]
    simp only [isSurrogate, Bool.and_eq_true, decide_eq_true_eq]
    omega
  rcases ps with - | ⟨b | u, ps⟩
  · simp [assemble, hchar]
  · simp [assemble, hchar]
  · rw [assemble, if_neg (by omega), hchar]

lemma assemble_unit (u : ℕ) (ps : List Piece) : ∃ pre pre' tail,
    assemble (.unit u :: ps) = pre ++ tail ∧ assemble ps = pre' ++ tail
      ∧ pre.length ≤ 4 ∧ 34 ∉ pre' := by
  have hchar (c : Char) : (String.utf8EncodeChar c).length ≤ 4 := by
    rw [String.length_utf8EncodeChar]
    exact c.utf8Size_le_four
  rcases ps with - | ⟨b | v, ps⟩
  · exact ⟨_, [], [], by simp [assemble], rfl, hchar (unitChar u), List.not_mem_nil⟩
  · exact ⟨_, [], _, by simp [assemble], rfl, hchar (unitChar u), List.not_mem_nil⟩
  · by_cases hpair : 0xD800 ≤ u ∧ u < 0xDC00 ∧ 0xDC00 ≤ v ∧ v < 0xE000
    · exact ⟨_, _, assemble ps, by rw [assemble, if_pos hpair], assemble_low hpair.2.2 ps,
        hchar _, by decide⟩
    · exact ⟨_, [], _, by rw [assemble, if_neg hpair], rfl, hchar (unitChar u),
        List.not_mem_nil⟩

lemma not_mem_of_codeUnit {a b c d : UInt8} {u : ℕ} (h : codeUnit a b c d = some u) :
    34 ∉ [a, b, c, d] := by
  have hquote : hexValue 34 = none := rfl
  intro hmem
  simp only [List.mem_cons, List.not_mem_nil, or_false] at hmem
  rcases hmem with rfl | rfl | rfl | rfl <;> simp [codeUnit, hquote] at h

/-- A string ends with the first quote that is not escaped. -/
lemma escapes_of_pieces {t rest : List UInt8} {ps : List Piece}
    (h : pieces t = some (ps, rest)) :
    ∃ raw, t = raw ++ 34 :: rest ∧ Escapes raw (assemble ps) := by
  fun_induction pieces t generalizing ps rest with
  | case1 => simp at h
  | case2 t =>
      obtain ⟨rfl, rfl⟩ := Prod.mk.inj (Option.some.inj h)
      exact ⟨[], rfl, .nil⟩
  | case3 => simp at h
  | case4 a b c d t _ ih =>
      rw [Option.bind_eq_some_iff] at h
      obtain ⟨u, hcode, h⟩ := h
      rw [Option.map_eq_some_iff] at h
      obtain ⟨⟨ps', rest'⟩, hpieces, h⟩ := h
      obtain ⟨rfl, rfl⟩ := Prod.mk.inj h
      obtain ⟨raw, rfl, hraw⟩ := ih hpieces
      obtain ⟨pre, pre', tail, hunit, htail, hpre, hpre'⟩ := assemble_unit u ps'
      rw [htail] at hraw
      exact ⟨_, rfl, hunit ▸ hraw.unit ⟨rfl, not_mem_of_codeUnit hcode⟩ hpre hpre'⟩
  | case5 => simp at h
  | case6 e t he _ ih =>
      rw [Option.bind_eq_some_iff] at h
      obtain ⟨x, hx, h⟩ := h
      rw [Option.map_eq_some_iff] at h
      obtain ⟨⟨ps', rest'⟩, hpieces, h⟩ := h
      obtain ⟨rfl, rfl⟩ := Prod.mk.inj h
      obtain ⟨raw, rfl, hraw⟩ := ih hpieces
      refine ⟨_, rfl, hraw.escape ?_⟩
      rintro rfl
      exact (Option.some.inj hx).symm
  | case7 => simp at h
  | case8 b t hquote hslash hcontrol ih =>
      rw [Option.map_eq_some_iff] at h
      obtain ⟨⟨ps', rest'⟩, hpieces, h⟩ := h
      obtain ⟨rfl, rfl⟩ := Prod.mk.inj h
      obtain ⟨raw, rfl, hraw⟩ := ih hpieces
      exact ⟨_, rfl, hraw.byte (by simpa [isPlain, hquote, hslash] using hcontrol)⟩

/-- A string that is read as what stands before its next quote has no escapes. -/
theorem plain_of_string {rest t : List UInt8} (h : string (s ++ 34 :: t) = some (s, rest)) :
    ∀ b ∈ s, isPlain b = true := by
  rw [string, Option.map_eq_some_iff] at h
  obtain ⟨⟨ps, rest'⟩, hpieces, hs⟩ := h
  obtain ⟨raw, htext, hraw⟩ := escapes_of_pieces hpieces
  obtain rfl : assemble ps = s := (Prod.mk.inj hs).1
  rcases List.append_eq_append_iff.mp htext with ⟨u, rfl, hu⟩ | ⟨u, hu, -⟩
  · cases u with
    | nil =>
        obtain ⟨-, hplain⟩ := hraw.plain (by simp)
        simpa using hplain
    | cons b u =>
        -- the quote behind `s` is a quote of `raw`, and one too many
        obtain rfl := (List.cons.inj hu).1
        have hquotes := hraw.quotes
        rw [List.count_append, List.count_cons_self] at hquotes
        omega
  · obtain ⟨hs, hplain⟩ := hraw.plain (by rw [hu]; simp)
    rw [hs]
    exact hplain

/-! ### Texts of values -/

/-- A text and the value that is written so. -/
structure Doc where
  text : List Char
  value : Value

/-- A string, whatever its characters are. -/
def quote (s : List Char) : List Char := "\"".toList ++ (s ++ "\"".toList)

/-- A name with its colon and the blank behind it. -/
def label (name : String) : List Char := "\"".toList ++ (name.toList ++ "\": ".toList)

def object (entries : List (List Char)) : List Char :=
  "\x7b".toList ++ (",".toList.intercalate entries ++ "\x7d".toList)

def array (entries : List (List Char)) : List Char :=
  "[".toList ++ (",".toList.intercalate entries ++ "]".toList)

def Doc.str (s : List Char) : Doc := ⟨quote s, .str (encode s)⟩

def Doc.num (z : ℤ) : Doc := ⟨(toString z).toList, .num z 0⟩

def Doc.arr (items : List Doc) : Doc := ⟨array (items.map Doc.text), .arr (items.map Doc.value)⟩

def Doc.obj (members : List (String × Doc)) : Doc :=
  ⟨object (members.map fun m => label m.1 ++ m.2.text),
    .obj (members.map fun m => (encode m.1.toList, m.2.value))⟩

/-- The characters stand for themselves. -/
def Plain (s : List Char) : Prop := ∀ b ∈ encode s, isPlain b = true

lemma isPlain_iff {b : UInt8} :
    isPlain b = true ↔ b.toNat ≠ 34 ∧ b.toNat ≠ 92 ∧ 32 ≤ b.toNat := by
  simp only [isPlain, Bool.and_eq_true, bne_iff_ne, decide_eq_true_eq, ne_eq, ← UInt8.toNat_inj,
    UInt8.le_iff_toNat_le]
  exact and_assoc

lemma plain_iff {s : List Char} : Plain s ↔ ∀ c ∈ s, c ≠ '"' ∧ c ≠ '\\' ∧ 32 ≤ c.toNat := by
  have hchar (c : Char) : (∀ b ∈ String.utf8EncodeChar c, isPlain b = true)
      ↔ c.toNat ≠ 34 ∧ c.toNat ≠ 92 ∧ 32 ≤ c.toNat := by
    rcases Nat.lt_or_ge c.toNat 128 with hc | hc
    · rw [encodeChar_of_lt hc, List.forall_mem_singleton, isPlain_iff,
        UInt8.toNat_ofNat_of_lt' (hc.trans (by decide))]
    · refine iff_of_true (fun b hb => isPlain_iff.mpr ?_) (by omega)
      have hhigh : 128 ≤ b.toNat := UInt8.le_iff_toNat_le.mp (encodeChar_of_le hc b hb)
      omega
  rw [Plain, encode, List.forall_mem_flatMap]
  refine forall₂_congr fun c _ => (hchar c).trans ?_
  rw [ne_eq, ne_eq, ne_eq, ne_eq, ← Char.toNat_inj, ← Char.toNat_inj]
  rfl

instance (s : List Char) : Decidable (Plain s) :=
  decidable_of_iff ((encode s).all isPlain = true) List.all_eq_true

/-- The text is read as the value, inside of `n` brackets at most. -/
structure Written (n : ℕ) (d : Doc) : Prop where
  opens : Opens (encode d.text)
  reads : ReadsAs Closes (value n) (encode d.text) (some d.value)

/-- Literals next to each other. -/
lemma toList_append_append (a b : String) (s : List Char) :
    a.toList ++ (b.toList ++ s) = (a ++ b).toList ++ s := by
  rw [String.toList_append, List.append_assoc]

lemma encode_intercalate (l : List (List Char)) :
    encode (",".toList.intercalate l) = Cursor.joined [44] (l.map encode) := by
  have hcomma : encode ",".toList = [44] := rfl
  rcases l with - | ⟨s, l⟩
  · rfl
  · induction l generalizing s with
    | nil => simp [Cursor.joined]
    | cons s' l ih =>
        rw [List.intercalate_cons_cons, encode_append, encode_append, hcomma, ih, List.map_cons,
          List.map_cons, List.map_cons, joined_cons_cons, List.append_assoc]

lemma encode_label (name : String) (text : List Char) :
    encode (label name ++ text) = 34 :: (encode name.toList ++ 34 :: 58 :: 32 :: encode text) := by
  rw [label, encode_append, encode_append, encode_append, List.append_assoc, List.append_assoc]
  rfl

lemma encode_quote (s : List Char) : encode (quote s) = 34 :: (encode s ++ [34]) := by
  rw [quote, encode_append, encode_append]
  rfl

/-- A blank in front of a value. -/
lemma value_blank (n : ℕ) (s : List UInt8) : value n (32 :: s) = value n s := by
  cases n with
  | zero => rfl
  | succ n =>
      have hskip : skip (32 :: s) = skip s := rfl
      rw [value, value, hskip]

lemma written_str (n : ℕ) {s : List Char} (hs : Plain s) : Written (n + 1) (.str s) := by
  have htext : encode (Doc.str s).text = 34 :: (encode s ++ [34]) := encode_quote s
  refine ⟨?_, ?_⟩
  · rw [htext]
    exact opens_cons (.inl rfl) _
  · have hstring : ReadsAs Anything string (encode s ++ [34]) (some (encode s)) := fun rest _ => by
      rw [List.append_assoc]
      exact string_plain hs rest
    rw [htext]
    exact (hstring.str n).mono fun _ _ => trivial

/-- The characters of a number are its bytes. -/
lemma encode_toString (z : ℤ) : encode (toString z).toList = signed z := by
  have hnat (n : ℕ) : encode n.repr.toList = decimal n := by
    rw [Nat.toList_repr, decimal, encode, List.map_eq_flatMap]
    refine List.flatMap_congr fun c hc => encodeChar_of_lt ?_
    have hdigit := toNat_of_isDigit (Nat.isDigit_of_mem_toDigits (by decide) (by decide) hc)
    omega
  rw [Int.toString_eq_repr]
  cases z with
  | ofNat n => exact hnat n
  | negSucc n =>
      have hrepr : (Int.negSucc n).repr = "-" ++ (n + 1).repr := rfl
      rw [hrepr, String.toList_append, encode_append, hnat]
      rfl

lemma written_num (n : ℕ) (z : ℤ) : Written (n + 1) (.num z) := by
  have htext : encode (Doc.num z).text = signed z := encode_toString z
  refine ⟨?_, ?_⟩
  · rw [htext]
    obtain ⟨b, s, hbs⟩ := List.exists_cons_of_ne_nil (signed_ne_nil z)
    rw [hbs]
    exact opens_numeral (isNumeral_of_mem_signed (by rw [hbs]; exact List.mem_cons_self)) s
  · rw [htext]
    exact reads_signed n z

lemma encode_object (l : List (List Char)) :
    encode (object l) = 123 :: (Cursor.joined [44] (l.map encode) ++ [125]) := by
  rw [object, encode_append, encode_append, encode_intercalate]
  rfl

lemma encode_array (l : List (List Char)) :
    encode (array l) = 91 :: (Cursor.joined [44] (l.map encode) ++ [93]) := by
  rw [array, encode_append, encode_append, encode_intercalate]
  rfl

/-- A named document is a member. -/
lemma Written.member {n : ℕ} {name : String} {d : Doc} (h : Written n d)
    (hname : Plain name.toList) :
    Opens (encode (label name ++ d.text))
      ∧ ReadsAs Closes (JsonText.member (value n)) (encode (label name ++ d.text))
        (some (encode name.toList, d.value)) := by
  have hblank : ReadsAs Closes (value n) (32 :: encode d.text) (some d.value) :=
    fun rest hrest => by
      rw [List.cons_append, value_blank]
      exact h.reads rest hrest
  rw [encode_label]
  exact ⟨opens_cons (.inl rfl) _, hblank.member hname⟩

/-- Texts and what they are read as. -/
lemma mapM_some {B C : Type*} (l : List B) (text : B → List UInt8) (f : B → C) :
    (l.map fun e => (text e, some (f e))).mapM Prod.snd = some (l.map f) := by
  rw [List.mapM_map]
  exact List.mapM_pure

lemma reads_obj {n : ℕ} (members : List (String × Doc))
    (h : ∀ m ∈ members, Plain m.1.toList ∧ Written n m.2) (hn : members.length ≤ n) :
    ReadsAs Anything (value (n + 1)) (encode (Doc.obj members).text)
      (some (Doc.obj members).value) := by
  have hread := ReadsAs.obj (n := n)
    (members.map fun m => (encode (label m.1 ++ m.2.text), some (encode m.1.toList, m.2.value)))
    (fun e he => by
      obtain ⟨m, hmem, rfl⟩ := List.mem_map.mp he
      exact (h m hmem).2.member (h m hmem).1) (by rwa [List.length_map])
  rw [mapM_some, List.map_map] at hread
  rw [Doc.obj, encode_object, List.map_map]
  exact hread

lemma written_obj {n : ℕ} (members : List (String × Doc))
    (h : ∀ m ∈ members, Plain m.1.toList ∧ Written n m.2) (hn : members.length ≤ n) :
    Written (n + 1) (.obj members) := by
  refine ⟨?_, (reads_obj members h hn).mono fun _ _ => trivial⟩
  rw [Doc.obj, encode_object]
  exact opens_cons (.inr rfl) _

lemma written_arr {n : ℕ} (items : List Doc) (h : ∀ d ∈ items, Written n d)
    (hn : items.length ≤ n) : Written (n + 1) (.arr items) := by
  have hread := ReadsAs.arr (n := n) (items.map fun d => (encode d.text, some d.value))
    (fun e he => by
      obtain ⟨d, hmem, rfl⟩ := List.mem_map.mp he
      exact ⟨(h d hmem).opens, (h d hmem).reads⟩) (by rwa [List.length_map])
  rw [mapM_some, List.map_map] at hread
  refine ⟨?_, ?_⟩
  · rw [Doc.arr, encode_array]
    exact ⟨91, _, rfl, by decide, by decide, by decide⟩
  · rw [Doc.arr, encode_array, List.map_map]
    exact hread.mono fun _ _ => trivial

/-- An object whose members are written is read, whatever the text has inside. -/
theorem parse_obj {members : List (String × Doc)}
    (h : ∀ m ∈ members, Plain m.1.toList ∧ Written (encode (Doc.obj members).text).length m.2)
    (hn : members.length ≤ (encode (Doc.obj members).text).length) :
    parse (encode (Doc.obj members).text) = some (Doc.obj members).value :=
  parse_of_reads (reads_obj members h hn)

/-! ### Holes -/

variable {A : Type*}

/-- Behind the text a string is read, which is found in what is read. -/
def Hole (reader : Reader A) (text : List UInt8) (found : A → List UInt8 → Prop) : Prop :=
  ∀ ⦃t rest⦄ ⦃a : A⦄, reader (text ++ t) = some (a, rest) →
    ∃ r, string t = some r ∧ found a r.1

section Hole

variable {reader : Reader A} {text : List UInt8} {found : A → List UInt8 → Prop}

/-- The opening quote. -/
lemma hole_quote (n : ℕ) : Hole (value n) [34] fun v s => v = .str s := by
  intro t rest v h
  cases n with
  | zero => simp [value] at h
  | succ n =>
      rw [List.singleton_append, value_string, Option.map_eq_some_iff] at h
      obtain ⟨r, hr, heq⟩ := h
      exact ⟨r, hr, (Prod.mk.inj heq).1.symm⟩

lemma Hole.blank {n : ℕ} {found : Value → List UInt8 → Prop} (h : Hole (value n) text found) :
    Hole (value n) (32 :: text) found := by
  intro t rest v hv
  rw [List.cons_append, value_blank] at hv
  exact h hv

/-- A name in front of the value. -/
lemma Hole.member (h : Hole reader text found) {name : List UInt8}
    (hname : ∀ b ∈ name, isPlain b = true) :
    Hole (JsonText.member reader) (34 :: (name ++ 34 :: 58 :: text))
      fun m s => found m.2 s := by
  intro t rest m hm
  have hstring : string (name ++ 34 :: 58 :: (text ++ t)) = some (name, 58 :: (text ++ t)) :=
    string_plain hname _
  rw [List.cons_append, List.append_assoc, List.cons_append, List.cons_append,
    JsonText.member, skip_of_not (by decide)] at hm
  simp only [hstring, Option.bind_some, skip_of_not (show isSpace 58 = false by decide)] at hm
  rw [Option.map_eq_some_iff] at hm
  obtain ⟨r, hr, heq⟩ := hm
  obtain ⟨rfl, rfl⟩ := Prod.mk.inj heq
  exact h hr

/-- The first of some items is read first. -/
lemma exists_of_items {close : UInt8} {n : ℕ} {s rest : List UInt8} {as : List A}
    (h : items close reader n s = some (as, rest)) :
    ∃ a rest' as', reader s = some (a, rest') ∧ as = a :: as' := by
  cases n with
  | zero => simp [items] at h
  | succ n =>
      rw [items, Option.bind_eq_some_iff] at h
      obtain ⟨⟨a, rest'⟩, ha, h⟩ := h
      refine ⟨a, rest', ?_⟩
      split at h
      · simp at h
      · split_ifs at h
        · rw [Option.map_eq_some_iff] at h
          obtain ⟨r, -, h⟩ := h
          exact ⟨r.1, ha, (Prod.mk.inj h).1.symm⟩
        · exact ⟨[], ha, (Prod.mk.inj (Option.some.inj h)).1.symm⟩

/-- An item and a comma. -/
lemma items_comma {close : UInt8} {e : List UInt8} {a : A} (h : ReadsAs Closes reader e (some a))
    (n : ℕ) (s : List UInt8) : items close reader (n + 1) (e ++ 44 :: s)
      = (items close reader n s).map fun r => (a :: r.1, r.2) := by
  rw [items, h (44 :: s) ⟨44, s, rfl, .inl rfl⟩]
  simp only [Option.map_some, Option.bind_some, skip_of_not (show isSpace 44 = false by decide),
    ite_true]

/-- Items in front of the one with the hole. -/
lemma Hole.items (h : Hole reader text found) (close : UInt8) (l : List (List UInt8 × A))
    (hl : ∀ e ∈ l, ReadsAs Closes reader e.1 (some e.2)) (n : ℕ) :
    Hole (items close reader n) (l.flatMap (fun e => e.1 ++ [44]) ++ text)
      fun as s => ∃ a ∈ as[l.length]?, found a s := by
  intro t rest as has
  induction l generalizing n as with
  | nil =>
      obtain ⟨a, rest', as', ha, rfl⟩ := exists_of_items has
      obtain ⟨r, hr, hfound⟩ := h ha
      exact ⟨r, hr, a, rfl, hfound⟩
  | cons e l ih =>
      obtain ⟨he, hl⟩ := List.forall_mem_cons.mp hl
      cases n with
      | zero => simp [JsonText.items] at has
      | succ n =>
          rw [List.flatMap_cons, List.append_assoc, List.append_assoc, List.append_assoc,
            List.singleton_append, items_comma he, ← List.append_assoc,
            Option.map_eq_some_iff] at has
          obtain ⟨⟨as', rest'⟩, has', heq⟩ := has
          obtain ⟨rfl, rfl⟩ := Prod.mk.inj heq
          exact ih hl n has'

lemma Opens.append {s : List UInt8} (h : Opens s) (t : List UInt8) : Opens (s ++ t) := by
  obtain ⟨b, s, rfl, hb⟩ := h
  exact ⟨b, s ++ t, rfl, hb⟩

/-- Texts with commas behind them, and one more text. -/
lemma opens_flatMap (hopens : Opens text) (l : List (List UInt8 × A)) (hl : ∀ e ∈ l, Opens e.1) :
    Opens (l.flatMap (fun e => e.1 ++ [44]) ++ text) := by
  cases l with
  | nil => exact hopens
  | cons e l =>
      rw [List.flatMap_cons, List.append_assoc, List.append_assoc]
      exact (hl e List.mem_cons_self).append _

/-- So it is behind an opening bracket. -/
lemma Hole.bracketed (h : Hole reader text found) (hopens : Opens text) {close : UInt8}
    (hclose : close = 93 ∨ close = 125) (l : List (List UInt8 × A))
    (hl : ∀ e ∈ l, Opens e.1 ∧ ReadsAs Closes reader e.1 (some e.2)) (n : ℕ) :
    Hole (JsonText.bracketed close reader n) (l.flatMap (fun e => e.1 ++ [44]) ++ text)
      fun as s => ∃ a ∈ as[l.length]?, found a s := by
  have hitems := h.items close l (fun e he => (hl e he).2) n
  obtain ⟨b, s, hbs, hspace, hbracket⟩ := opens_flatMap hopens l fun e he => (hl e he).1
  have hne : b ≠ close := by
    rcases hclose with rfl | rfl
    · exact hbracket.1
    · exact hbracket.2
  intro t rest as has
  refine @hitems t rest as ?_
  rw [hbs, List.cons_append] at has ⊢
  simpa only [JsonText.bracketed, skip_of_not hspace, if_neg hne] using has

end Hole

/-- What stands at the places, which are counted from 0 in every array and object. -/
def Value.at : List ℕ → Value → Option Value
  | [], v => some v
  | k :: path, .arr items => items[k]?.bind (Value.at path)
  | k :: path, .obj members => members[k]?.bind fun m => Value.at path m.2
  | _ :: _, _ => none

lemma Value.at_arr (k : ℕ) (path : List ℕ) (items : List Value) :
    Value.at (k :: path) (.arr items) = items[k]?.bind (Value.at path) := by
  rw [Value.at.eq_def]

lemma Value.at_obj (k : ℕ) (path : List ℕ) (members : List (List UInt8 × Value)) :
    Value.at (k :: path) (.obj members) = members[k]?.bind fun m => Value.at path m.2 := by
  rw [Value.at.eq_def]

/-- Behind the text stands the string of a place. -/
structure Leads (n : ℕ) (text : List Char) (path : List ℕ) : Prop where
  opens : Opens (encode text)
  hole : Hole (value n) (encode text) fun v s => v.at path = some (.str s)

section Leads

variable {n : ℕ} {text : List Char} {path : List ℕ}

lemma leads_quote (n : ℕ) : Leads n "\"".toList [] := by
  refine ⟨⟨34, [], rfl, by decide, by decide, by decide⟩, fun t rest v h => ?_⟩
  obtain ⟨r, hr, rfl⟩ := hole_quote n h
  exact ⟨r, hr, rfl⟩

/-- Texts with commas behind them, and one more text. -/
lemma encode_entries {B : Type*} (l : List B) (f : B → List Char × A) (text : List Char) :
    encode ((l.flatMap fun e => (f e).1 ++ ",".toList) ++ text)
      = (l.map fun e => (encode (f e).1, (f e).2)).flatMap (fun e => e.1 ++ [44])
        ++ encode text := by
  rw [encode_append, encode, List.flatMap_assoc, List.flatMap_map]
  refine congrArg (· ++ encode text) (List.flatMap_congr fun e _ => ?_)
  rw [List.flatMap_append]
  rfl

/-- The text leads to a member of an object, behind others. -/
theorem Leads.obj (h : Leads n text path) (members : List (String × Doc))
    (hmembers : ∀ m ∈ members, Plain m.1.toList ∧ Written n m.2) {name : String}
    (hname : Plain name.toList) :
    Leads (n + 1)
      ("\x7b".toList ++ (members.flatMap (fun m => label m.1 ++ m.2.text ++ ",".toList)
        ++ (label name ++ text))) (members.length :: path) := by
  have hhole := (h.hole.blank.member hname).bracketed (opens_cons (.inl rfl) _) (.inr rfl)
    (members.map fun m => (encode (label m.1 ++ m.2.text), (encode m.1.toList, m.2.value)))
    (fun e he => by
      obtain ⟨m, hmem, rfl⟩ := List.mem_map.mp he
      exact (hmembers m hmem).2.member (hmembers m hmem).1) n
  have htext := encode_entries members
    (fun m => (label m.1 ++ m.2.text, (encode m.1.toList, m.2.value))) (label name ++ text)
  rw [← encode_label, ← htext, List.length_map] at hhole
  refine ⟨?_, fun t rest v hv => ?_⟩
  · rw [encode_append]
    exact opens_cons (.inr rfl) _
  · rw [encode_append] at hv
    have hv' := (value_object n _).symm.trans hv
    rw [Option.map_eq_some_iff] at hv'
    obtain ⟨⟨ms, rest'⟩, hms, heq⟩ := hv'
    obtain ⟨rfl, rfl⟩ := Prod.mk.inj heq
    obtain ⟨r, hr, m, hm, hfound⟩ := hhole hms
    exact ⟨r, hr, (Value.at_obj _ path ms).trans (Option.bind_eq_some_iff.mpr ⟨m, hm, hfound⟩)⟩

/-- The text leads to an item of an array, behind others. -/
theorem Leads.arr (h : Leads n text path) (items : List Doc) (hitems : ∀ d ∈ items, Written n d) :
    Leads (n + 1) ("[".toList ++ (items.flatMap (fun d => d.text ++ ",".toList) ++ text))
      (items.length :: path) := by
  have hhole := h.hole.bracketed h.opens (.inl rfl) (items.map fun d => (encode d.text, d.value))
    (fun e he => by
      obtain ⟨d, hmem, rfl⟩ := List.mem_map.mp he
      exact ⟨(hitems d hmem).opens, (hitems d hmem).reads⟩) n
  rw [← encode_entries items (fun d => (d.text, d.value)) text, List.length_map] at hhole
  refine ⟨?_, fun t rest v hv => ?_⟩
  · rw [encode_append]
    exact ⟨91, _, rfl, by decide, by decide, by decide⟩
  · rw [encode_append] at hv
    have hv' := (value_array n _).symm.trans hv
    rw [Option.map_eq_some_iff] at hv'
    obtain ⟨⟨as, rest'⟩, has, heq⟩ := hv'
    obtain ⟨rfl, rfl⟩ := Prod.mk.inj heq
    obtain ⟨r, hr, a, ha, hfound⟩ := hhole has
    exact ⟨r, hr, (Value.at_arr _ path as).trans (Option.bind_eq_some_iff.mpr ⟨a, ha, hfound⟩)⟩

/-- Where a string is read as what stands there, it has no escapes. -/
theorem plain_of_leads {s whole : List Char} {v : Value}
    (h : Leads ((encode whole).length + 1) text path)
    (hwhole : text ++ (s ++ "\"".toList) <+: whole) (hparse : parse (encode whole) = some v)
    (hat : v.at path = some (.str (encode s))) :
    Plain s := by
  obtain ⟨rest, rfl⟩ := hwhole
  have htext : encode (text ++ (s ++ "\"".toList) ++ rest)
      = encode text ++ (encode s ++ 34 :: encode rest) := by
    rw [List.append_assoc, List.append_assoc, encode_append, encode_append, encode_append]
    rfl
  rw [parse, Option.bind_eq_some_iff] at hparse
  obtain ⟨⟨v', rest'⟩, hvalue, hparse⟩ := hparse
  split_ifs at hparse
  obtain rfl := Option.some.inj hparse
  rw [htext] at h hvalue
  obtain ⟨⟨s', rest''⟩, hstring, hfound⟩ := h.hole hvalue
  obtain rfl := Value.str.inj (Option.some.inj (hfound.symm.trans hat))
  exact plain_of_string hstring

end Leads

end JsonText
