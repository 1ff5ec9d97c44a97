import SovereignBus.Library.Printed

/-!
JSON texts as bytes, read as RFC 8259 has them.

* `Value`, `parse`: values, and the reader of a text. It knows white space, all escapes of
  strings, fractions and exponents, and refuses a control character inside a string.
* `ReadsAs`: what a reader makes of a text, whatever follows it: a value, or nothing.
* `ReadsAs.str`, `reads_signed`, `ReadsAs.member`, `ReadsAs.arr`, `ReadsAs.obj`: the texts of
  strings and numbers, and those put together from others. `parse_of_reads` reads a whole text.
-/

namespace JsonText

open Printed Cursor

/-- A number is `mantissa * 10 ^ exponent`; strings and names are UTF-8. -/
inductive Value where
  | null
  | bool (b : Bool)
  | num (mantissa exponent : ℤ)
  | str (s : List UInt8)
  | arr (items : List Value)
  | obj (members : List (List UInt8 × Value))

/-- A reader leaves what stands behind what it has read. -/
abbrev Reader (A : Type*) := List UInt8 → Option (A × List UInt8)

def isSpace (b : UInt8) : Bool := b == 32 || b == 9 || b == 10 || b == 13

def skip (s : List UInt8) : List UInt8 := s.dropWhile isSpace

/-! ### Strings -/

/-- A byte of a string, or an escaped UTF-16 code unit. -/
inductive Piece where
  | byte (b : UInt8)
  | unit (u : ℕ)

/-- What the two-character escapes stand for. -/
def unescape (e : UInt8) : Option UInt8 :=
  [(34, 34), (92, 92), (47, 47), (98, 8), (102, 12), (110, 10), (114, 13), (116, 9)].lookup e

def hexValue (b : UInt8) : Option ℕ :=
  if 48 ≤ b ∧ b ≤ 57 then some (b.toNat - 48)
  else if 65 ≤ b ∧ b ≤ 70 then some (b.toNat - 55)
  else if 97 ≤ b ∧ b ≤ 102 then some (b.toNat - 87)
  else none

def codeUnit (a b c d : UInt8) : Option ℕ := do
  return 16 ^ 3 * (← hexValue a) + 16 ^ 2 * (← hexValue b) + 16 * (← hexValue c) + (← hexValue d)

/-- A string behind its opening quote. -/
def pieces : Reader (List Piece)
  | [] => none
  | b :: s =>
      if b = 34 then some ([], s)
      else if b = 92 then
        match s with
        | [] => none
        | e :: s' =>
            if e = 117 then
              match s' with
              | h₁ :: h₂ :: h₃ :: h₄ :: s'' =>
                  (codeUnit h₁ h₂ h₃ h₄).bind fun u =>
                    (pieces s'').map fun r => (.unit u :: r.1, r.2)
              | _ => none
            else (unescape e).bind fun x => (pieces s').map fun r => (.byte x :: r.1, r.2)
      else if b < 32 then none
      else (pieces s).map fun r => (.byte b :: r.1, r.2)

def isSurrogate (u : ℕ) : Bool := 0xD800 ≤ u && u < 0xE000

/-- The character of a code unit; one half of a pair is none. -/
def unitChar (u : ℕ) : Char := Char.ofNat (if isSurrogate u then 0xFFFD else u)

/-- The bytes of a string, where two halves of a pair stand for one character. -/
def assemble : List Piece → List UInt8
  | [] => []
  | .byte b :: ps => b :: assemble ps
  | .unit u :: .unit v :: ps =>
      if 0xD800 ≤ u ∧ u < 0xDC00 ∧ 0xDC00 ≤ v ∧ v < 0xE000 then
        String.utf8EncodeChar (Char.ofNat (0x10000 + 0x400 * (u - 0xD800) + (v - 0xDC00)))
          ++ assemble ps
      else String.utf8EncodeChar (unitChar u) ++ assemble (.unit v :: ps)
  | .unit u :: ps => String.utf8EncodeChar (unitChar u) ++ assemble ps

def string : Reader (List UInt8) := fun s => (pieces s).map fun r => (assemble r.1, r.2)

/-! ### Numbers -/

def isDigit (b : UInt8) : Bool := 48 ≤ b && b ≤ 57

def digits (s : List UInt8) : List UInt8 × List UInt8 := s.span isDigit

def natOf (ds : List UInt8) : ℕ := ds.foldl (fun n b => 10 * n + (b.toNat - 48)) 0

/-- At least one digit. -/
def someDigits : Reader (List UInt8) := fun s =>
  if (digits s).1 = [] then none else some (digits s)

def fraction : Reader (List UInt8)
  | 46 :: s => someDigits s
  | s => some ([], s)

def exponent : Reader ℤ
  | b :: s =>
      if b = 101 ∨ b = 69 then
        match s with
        | 45 :: s => (someDigits s).map fun r => (-natOf r.1, r.2)
        | 43 :: s => (someDigits s).map fun r => ((natOf r.1 : ℤ), r.2)
        | s => (someDigits s).map fun r => ((natOf r.1 : ℤ), r.2)
      else some (0, b :: s)
  | [] => some (0, [])

/-- A number without its sign. No digit follows a leading 0. -/
def unsigned : Reader (ℕ × ℤ) := fun s =>
  (someDigits s).bind fun int =>
    if int.1.head? = some 48 ∧ int.1.length ≠ 1 then none
    else
      (fraction int.2).bind fun frac => (exponent frac.2).map fun exp =>
        ((natOf (int.1 ++ frac.1), exp.1 - frac.1.length), exp.2)

def number : Reader Value
  | 45 :: s => (unsigned s).map fun r => (.num (-r.1.1) r.1.2, r.2)
  | s => (unsigned s).map fun r => (.num r.1.1 r.1.2, r.2)

/-! ### Values -/

variable {A B : Type*}

/-- Items with commas between them, up to the closing bracket. -/
def items (close : UInt8) (item : Reader A) : ℕ → Reader (List A)
  | 0, _ => none
  | n + 1, s =>
      (item s).bind fun r =>
        match skip r.2 with
        | [] => none
        | b :: s' =>
            if b = 44 then (items close item n s').map fun t => (r.1 :: t.1, t.2)
            else if b = close then some ([r.1], s')
            else none

/-- What stands behind an opening bracket. -/
def bracketed (close : UInt8) (item : Reader A) (n : ℕ) : Reader (List A) := fun s =>
  match skip s with
  | [] => none
  | b :: s' => if b = close then some ([], s') else items close item n s

/-- A name and a value. -/
def member (value : Reader A) : Reader (List UInt8 × A) := fun s =>
  match skip s with
  | 34 :: s =>
      (string s).bind fun name =>
        match skip name.2 with
        | 58 :: s => (value s).map fun v => ((name.1, v.1), v.2)
        | _ => none
  | _ => none

def literal (word : List UInt8) (a : A) : Reader A := fun s =>
  if word <+: s then some (a, s.drop word.length) else none

/-- A value with less than `n` brackets inside each other and less than `n` items in each. -/
def value : ℕ → Reader Value
  | 0, _ => none
  | n + 1, s =>
      match skip s with
      | [] => none
      | b :: s =>
          if b = 34 then (string s).map fun r => (.str r.1, r.2)
          else if b = 91 then (bracketed 93 (value n) n s).map fun r => (.arr r.1, r.2)
          else if b = 123 then (bracketed 125 (member (value n)) n s).map fun r => (.obj r.1, r.2)
          else if b = 116 then literal [116, 114, 117, 101] (.bool true) (b :: s)
          else if b = 102 then literal [102, 97, 108, 115, 101] (.bool false) (b :: s)
          else if b = 110 then literal [110, 117, 108, 108] .null (b :: s)
          else number (b :: s)

/-- A text. Its length bounds what stands inside brackets. -/
def parse (s : List UInt8) : Option Value :=
  (value (s.length + 1) s).bind fun r => if skip r.2 = [] then some r.1 else none

/-! ### What is read -/

/-- In front of what satisfies `stop` the text is read as `v`, or not at all. -/
def ReadsAs (stop : List UInt8 → Prop) (reader : Reader A) (text : List UInt8) (v : Option A) :
    Prop :=
  ∀ rest, stop rest → reader (text ++ rest) = v.map (·, rest)

/-- Whatever follows. -/
def Anything (_ : List UInt8) : Prop := True

/-- A comma or a closing bracket follows. -/
def Closes (rest : List UInt8) : Prop := ∃ b s, rest = b :: s ∧ (b = 44 ∨ b = 93 ∨ b = 125)

lemma ReadsAs.mono {stop stop' : List UInt8 → Prop} {reader : Reader A} {text : List UInt8}
    {v : Option A} (h : ReadsAs stop reader text v) (hstop : ∀ rest, stop' rest → stop rest) :
    ReadsAs stop' reader text v :=
  fun rest hrest => h rest (hstop rest hrest)

lemma skip_of_not {b : UInt8} (hb : isSpace b = false) (s : List UInt8) :
    skip (b :: s) = b :: s := by
  simp [skip, hb]

lemma parse_of_reads {text : List UInt8} {v : Option Value}
    (h : ReadsAs Anything (value (text.length + 1)) text v) : parse text = v := by
  have hread := h [] trivial
  rw [List.append_nil] at hread
  rw [parse, hread]
  cases v <;> simp [skip]

/-! ### Strings -/

/-- A byte that stands for itself. -/
def isPlain (b : UInt8) : Bool := b != 34 && b != 92 && 32 ≤ b

lemma pieces_plain {b : UInt8} (hb : isPlain b = true) (s : List UInt8) :
    pieces (b :: s) = (pieces s).map fun r => (.byte b :: r.1, r.2) := by
  simp only [isPlain, Bool.and_eq_true, bne_iff_ne, ne_eq, decide_eq_true_eq] at hb
  rw [pieces.eq_def]
  simp only [if_neg hb.1.1, if_neg hb.1.2, if_neg (UInt8.not_lt.mpr hb.2)]

/-- A control character. -/
lemma pieces_control {b : UInt8} (hb : b < 32) (s : List UInt8) : pieces (b :: s) = none := by
  have hne : ∀ q : UInt8, 32 ≤ q → b ≠ q := fun q hq heq =>
    UInt8.not_lt.mpr (heq ▸ hq) hb
  rw [pieces.eq_def]
  simp only [if_neg (hne 34 (by decide)), if_neg (hne 92 (by decide)), if_pos hb]

/-- An escaped quote or backslash. -/
lemma pieces_escaped {b : UInt8} (hb : b = 34 ∨ b = 92) (s : List UInt8) :
    pieces (92 :: b :: s) = (pieces s).map fun r => (.byte b :: r.1, r.2) := by
  have hunescape : unescape b = some b := by rcases hb with rfl | rfl <;> rfl
  have hne : b ≠ 117 := by rcases hb with rfl | rfl <;> decide
  rw [pieces.eq_def]
  simp only [if_neg (show (92 : UInt8) ≠ 34 by decide), ite_true, if_neg hne, hunescape,
    Option.bind_some]

lemma pieces_quote (s : List UInt8) : pieces (34 :: s) = some ([], s) := by
  rw [pieces.eq_def]
  rfl

lemma assemble_bytes (s : List UInt8) : assemble (s.map .byte) = s := by
  induction s with
  | nil => rfl
  | cons b s ih => rw [List.map_cons, assemble, ih]

/-- A text of plain bytes, as the names are. -/
lemma string_plain {s : List UInt8} (hs : ∀ b ∈ s, isPlain b = true) (rest : List UInt8) :
    string (s ++ 34 :: rest) = some (s, rest) := by
  have hpieces : pieces (s ++ 34 :: rest) = some (s.map .byte, rest) := by
    induction s with
    | nil => exact pieces_quote rest
    | cons b s ih =>
        obtain ⟨hb, hs⟩ := List.forall_mem_cons.mp hs
        rw [List.cons_append, pieces_plain hb, ih hs]
        rfl
  rw [string, hpieces, Option.map_some, assemble_bytes]

lemma value_string (n : ℕ) (s : List UInt8) :
    value (n + 1) (34 :: s) = (string s).map fun r => (.str r.1, r.2) := by
  rw [value, skip_of_not (by decide)]
  rfl

lemma value_array (n : ℕ) (s : List UInt8) :
    value (n + 1) (91 :: s) = (bracketed 93 (value n) n s).map fun r => (.arr r.1, r.2) := by
  rw [value, skip_of_not (by decide)]
  rfl

lemma value_object (n : ℕ) (s : List UInt8) : value (n + 1) (123 :: s)
    = (bracketed 125 (member (value n)) n s).map fun r => (.obj r.1, r.2) := by
  rw [value, skip_of_not (by decide)]
  rfl

/-! ### Numbers -/

lemma digits_append {ds rest : List UInt8} (hds : ∀ b ∈ ds, isDigit b = true) (h : Closes rest) :
    digits (ds ++ rest) = (ds, rest) := by
  obtain ⟨b, s, rfl, hb⟩ := h
  have hnot : isDigit b = false := by rcases hb with rfl | rfl | rfl <;> rfl
  rw [digits, List.span_eq_takeWhile_dropWhile, List.takeWhile_append_of_pos hds,
    List.dropWhile_append_of_pos hds]
  simp [hnot]

lemma isDigit_of_mem_decimal {n : ℕ} {b : UInt8} (h : b ∈ decimal n) : isDigit b = true := by
  simp [isDigit, digit_of_mem_decimal h]

lemma natOf_decimal (n : ℕ) : natOf (decimal n) = n := by
  have hfold : ∀ (cs : List Char) (m : ℕ), (∀ c ∈ cs, c.isDigit = true) →
      (cs.map fun c => UInt8.ofNat c.toNat).foldl (fun n b => 10 * n + (b.toNat - 48)) m
        = Nat.ofDigitChars 10 cs m := by
    intro cs
    induction cs with
    | nil => intro m _; rfl
    | cons c cs ih =>
        intro m hcs
        obtain ⟨hc, hcs⟩ := List.forall_mem_cons.mp hcs
        rw [List.map_cons, List.foldl_cons, ih _ hcs, Nat.ofDigitChars_cons,
          (toNat_of_isDigit hc).2.2]
        rfl
  rw [natOf, decimal, hfold _ _ fun c hc =>
    Nat.isDigit_of_mem_toDigits (by decide) (by decide) hc, Nat.ofDigitChars_ten_toDigits]

/-- Only the text of 0 starts with the digit. -/
lemma length_of_head_decimal {n : ℕ} (h : (decimal n).head? = some 48) :
    (decimal n).length = 1 := by
  induction n using Nat.strong_induction_on with
  | _ n ih =>
      by_cases hn : n < 10
      · rw [decimal, Nat.toDigits_of_lt_base hn]
        rfl
      · have hdecimal : decimal n = decimal (n / 10) ++ [UInt8.ofNat (n % 10).digitChar.toNat] := by
          rw [decimal, Nat.toDigits_of_base_le (by decide) (by omega), List.map_append]
          rfl
        rw [hdecimal, List.head?_append_of_ne_nil _ (decimal_ne_nil _)] at h
        have hone := ih (n / 10) (by omega) h
        -- the text of `n / 10` is the digit 0 alone
        obtain ⟨b, hb⟩ := List.length_eq_one_iff.mp hone
        rw [hb, List.head?_cons, Option.some.injEq] at h
        have hzero := natOf_decimal (n / 10)
        rw [hb, h] at hzero
        have : natOf [48] = 0 := rfl
        omega

lemma unsigned_decimal (n : ℕ) {rest : List UInt8} (h : Closes rest) :
    unsigned (decimal n ++ rest) = some ((n, 0), rest) := by
  have hdigits : someDigits (decimal n ++ rest) = some (decimal n, rest) := by
    rw [someDigits, digits_append (fun b => isDigit_of_mem_decimal) h, if_neg (decimal_ne_nil n)]
  have hzero : ¬ ((decimal n).head? = some 48 ∧ (decimal n).length ≠ 1) := fun hhead =>
    hhead.2 (length_of_head_decimal hhead.1)
  have hfraction : fraction rest = some ([], rest) := by
    obtain ⟨b, s, rfl, rfl | rfl | rfl⟩ := h <;> rfl
  have hexponent : exponent rest = some (0, rest) := by
    obtain ⟨b, s, rfl, rfl | rfl | rfl⟩ := h <;> rfl
  simp only [unsigned, hdigits, Option.bind_some, if_neg hzero, hfraction, hexponent,
    Option.map_some, List.append_nil, natOf_decimal, List.length_nil]
  rfl

lemma number_signed (z : ℤ) {rest : List UInt8} (h : Closes rest) :
    number (signed z ++ rest) = some (.num z 0, rest) := by
  cases z with
  | ofNat n =>
      have hnumber : ∀ s : List UInt8, s.head? ≠ some 45 →
          number s = (unsigned s).map fun r => (.num r.1.1 r.1.2, r.2) := by
        intro s hs
        rw [number.eq_def]
        split
        · simp at hs
        · rfl
      rw [signed, hnumber, unsigned_decimal n h]
      · rfl
      · rw [List.head?_append_of_ne_nil _ (decimal_ne_nil n)]
        intro hhead
        have hdigit := isDigit_of_mem_decimal (List.mem_of_head? hhead)
        exact absurd hdigit (by decide)
  | negSucc n =>
      rw [signed, List.cons_append, number, unsigned_decimal (n + 1) h]
      rfl

/-! ### Texts put together -/

/-- A text that starts with a byte that is no space and no closing bracket. -/
def Opens (text : List UInt8) : Prop :=
  ∃ b s, text = b :: s ∧ isSpace b = false ∧ b ≠ 93 ∧ b ≠ 125

lemma opens_cons {b : UInt8} (hb : b = 34 ∨ b = 123) (s : List UInt8) : Opens (b :: s) := by
  rcases hb with rfl | rfl <;> exact ⟨_, s, rfl, by decide, by decide, by decide⟩

lemma ne_of_isNumeral {b q : UInt8} (hb : isNumeral b = true) (hq : isNumeral q = false) :
    b ≠ q := fun heq => by
  rw [heq, hq] at hb
  exact absurd hb (by decide)

/-- A sign or a digit. -/
lemma opens_numeral {b : UInt8} (hb : isNumeral b = true) (s : List UInt8) : Opens (b :: s) := by
  have hne : ∀ q : UInt8, isNumeral q = false → b ≠ q := fun q => ne_of_isNumeral hb
  refine ⟨b, s, rfl, ?_, hne 93 (by decide), hne 125 (by decide)⟩
  simp [isSpace, hne 32 (by decide), hne 9 (by decide), hne 10 (by decide), hne 13 (by decide)]

/-- A number starts with a sign or a digit, which no other value does. -/
lemma value_numeral {b : UInt8} (hb : isNumeral b = true) (n : ℕ) (s : List UInt8) :
    value (n + 1) (b :: s) = number (b :: s) := by
  have hne : ∀ q : UInt8, isNumeral q = false → b ≠ q := fun q => ne_of_isNumeral hb
  obtain ⟨_, _, hcons, hspace, -⟩ := opens_numeral hb s
  obtain ⟨rfl, rfl⟩ := List.cons.inj hcons
  rw [value, skip_of_not hspace]
  simp only [if_neg (hne 34 (by decide)), if_neg (hne 91 (by decide)), if_neg (hne 123 (by decide)),
    if_neg (hne 116 (by decide)), if_neg (hne 102 (by decide)), if_neg (hne 110 (by decide))]

theorem reads_signed (n : ℕ) (z : ℤ) :
    ReadsAs Closes (value (n + 1)) (signed z) (some (.num z 0)) := by
  intro rest hrest
  obtain ⟨b, s, hbs⟩ := List.exists_cons_of_ne_nil (signed_ne_nil z)
  have hb : isNumeral b = true := isNumeral_of_mem_signed (by rw [hbs]; exact List.mem_cons_self)
  have hnumber := number_signed z hrest
  rw [hbs, List.cons_append] at hnumber ⊢
  rw [value_numeral hb, hnumber]
  rfl

theorem ReadsAs.str {text : List UInt8} {v : Option (List UInt8)}
    (h : ReadsAs Anything string text v) (n : ℕ) :
    ReadsAs Anything (value (n + 1)) (34 :: text) (v.map .str) := by
  intro rest _
  rw [List.cons_append, value_string, h rest trivial]
  cases v <;> rfl

/-- A name in quotes and a value behind a colon. -/
theorem ReadsAs.member {stop : List UInt8 → Prop} {reader : Reader A} {text name : List UInt8}
    {v : Option A} (h : ReadsAs stop reader text v) (hname : ∀ b ∈ name, isPlain b = true) :
    ReadsAs stop (JsonText.member reader) (34 :: (name ++ 34 :: 58 :: text))
      (v.map fun v => (name, v)) := by
  intro rest hrest
  have hname' : string (name ++ 34 :: 58 :: (text ++ rest)) = some (name, 58 :: (text ++ rest)) :=
    string_plain hname _
  rw [List.cons_append, List.append_assoc, List.cons_append, List.cons_append,
    JsonText.member, skip_of_not (by decide)]
  simp only [hname', Option.bind_some, skip_of_not (show isSpace 58 = false by decide),
    h rest hrest]
  cases v <;> rfl

lemma joined_cons_cons (sep s s' : List UInt8) (ss : List (List UInt8)) :
    joined sep (s :: s' :: ss) = s ++ (sep ++ joined sep (s' :: ss)) := by
  simp [joined]

lemma reads_items {close : UInt8} (hclose : close = 93 ∨ close = 125) {item : Reader A} {n : ℕ}
    (e : List UInt8 × Option A) (l : List (List UInt8 × Option A))
    (h : ∀ e' ∈ e :: l, ReadsAs Closes item e'.1 e'.2) (hn : l.length < n) :
    ReadsAs Anything (items close item n)
      (joined [44] ((e :: l).map Prod.fst) ++ [close]) ((e :: l).mapM Prod.snd) := by
  have hcomma : close ≠ 44 ∧ isSpace close = false := by rcases hclose with rfl | rfl <;> decide
  induction l generalizing e n with
  | nil =>
      intro rest _
      obtain ⟨n, rfl⟩ := Nat.exists_eq_add_of_lt hn
      have he := h e List.mem_cons_self (close :: rest) ⟨close, rest, rfl, .inr hclose⟩
      simp only [List.map_cons, List.map_nil, joined, List.flatMap_nil, List.append_nil,
        List.append_assoc, List.singleton_append, items, he]
      cases hv : e.2 with
      | none => simp [hv]
      | some v => simp [hv, skip_of_not hcomma.2, hcomma.1]
  | cons e' l ih =>
      intro rest _
      obtain ⟨n, rfl⟩ := Nat.exists_eq_add_of_lt hn
      obtain ⟨he, hl⟩ := List.forall_mem_cons.mp h
      have hrest := ih (n := (e' :: l).length + n) e' hl (by rw [List.length_cons]; omega) rest
        trivial
      have hitem := he (44 :: (joined [44] ((e' :: l).map Prod.fst) ++ ([close] ++ rest)))
        ⟨44, _, rfl, .inl rfl⟩
      rw [List.map_cons, List.map_cons, joined_cons_cons, ← List.map_cons, List.append_assoc,
        List.append_assoc, List.append_assoc, items, List.singleton_append, hitem]
      cases hv : e.2 with
      | none => simp [hv]
      | some v =>
          rw [List.append_assoc] at hrest
          simp only [Option.map_some, Option.bind_some,
            skip_of_not (show isSpace 44 = false by decide), ite_true, hrest]
          have hcons : (e :: e' :: l).mapM Prod.snd = ((e' :: l).mapM Prod.snd).map (v :: ·) := by
            rw [List.mapM_cons, hv]
            cases (e' :: l).mapM Prod.snd <;> rfl
          rw [hcons]
          cases (e' :: l).mapM Prod.snd <;> rfl

/-- Texts with commas between them, in brackets. -/
lemma reads_bracketed {close : UInt8} (hclose : close = 93 ∨ close = 125) {item : Reader A} {n : ℕ}
    (l : List (List UInt8 × Option A))
    (h : ∀ e ∈ l, Opens e.1 ∧ ReadsAs Closes item e.1 e.2) (hn : l.length ≤ n) :
    ReadsAs Anything (bracketed close item n) (joined [44] (l.map Prod.fst) ++ [close])
      (l.mapM Prod.snd) := by
  cases l with
  | nil =>
      intro rest _
      rcases hclose with rfl | rfl <;> rfl
  | cons e l =>
      intro rest _
      have hitems := reads_items hclose e l (fun e' he' => (h e' he').2) hn rest trivial
      obtain ⟨b, s, hbs, hspace, hbracket⟩ := (h e List.mem_cons_self).1
      have hne : b ≠ close := by
        rcases hclose with rfl | rfl
        · exact hbracket.1
        · exact hbracket.2
      rw [← hitems, List.map_cons, joined, hbs]
      simp only [List.cons_append, bracketed, skip_of_not hspace, if_neg hne]

theorem ReadsAs.arr {n : ℕ} (l : List (List UInt8 × Option Value))
    (h : ∀ e ∈ l, Opens e.1 ∧ ReadsAs Closes (value n) e.1 e.2) (hn : l.length ≤ n) :
    ReadsAs Anything (value (n + 1)) (91 :: (joined [44] (l.map Prod.fst) ++ [93]))
      ((l.mapM Prod.snd).map .arr) := by
  intro rest _
  have hbracketed := reads_bracketed (.inl rfl) l h hn rest trivial
  rw [List.cons_append, value_array, hbracketed]
  cases l.mapM Prod.snd <;> rfl

theorem ReadsAs.obj {n : ℕ} (l : List (List UInt8 × Option (List UInt8 × Value)))
    (h : ∀ e ∈ l, Opens e.1 ∧ ReadsAs Closes (JsonText.member (value n)) e.1 e.2)
    (hn : l.length ≤ n) :
    ReadsAs Anything (value (n + 1)) (123 :: (joined [44] (l.map Prod.fst) ++ [125]))
      ((l.mapM Prod.snd).map .obj) := by
  intro rest _
  have hbracketed := reads_bracketed (.inr rfl) l h hn rest trivial
  rw [List.cons_append, value_object, hbracketed]
  cases l.mapM Prod.snd <;> rfl

end JsonText
