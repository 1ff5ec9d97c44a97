import SovereignBus.Library.Cursor

/-!
Texts of numbers and of lists, and when they can be read back.

* `decimal`, `signed`: the texts of `%u` and `%d`.
* `Delimits`: an encoding whose texts can be told apart, and from what follows them, as
  long as that starts with a byte of a given kind. `delimits_decimal` and
  `delimits_signed` are the two formats.
* `Delimits.closed`, `Delimits.opened`, `Delimits.prod`, `Delimits.list`: encodings put
  together from others.
* `take_decimal_iff`: what the beginning of a text says of the number it starts with.
-/

namespace Printed

open Cursor (joined)

/-- The text of `%u`. -/
def decimal (n : ℕ) : List UInt8 := (Nat.toDigits 10 n).map fun c => UInt8.ofNat c.toNat

/-- The text of `%d`. -/
def signed : ℤ → List UInt8
  | .ofNat n => decimal n
  | .negSucc n => 45 :: decimal (n + 1)

/-- A digit or a sign. -/
def isNumeral (b : UInt8) : Bool := b == 45 || (48 ≤ b && b ≤ 57)

/-- A text that is over or goes on with a byte that is no part of a number. -/
def Ends (s : List UInt8) : Prop := ∀ b ∈ s.head?, isNumeral b = false

/-- An encoding that can be told apart from what follows it, if that satisfies `stop`. -/
def Delimits {A : Type*} (stop : List UInt8 → Prop) (enc : A → List UInt8) : Prop :=
  ∀ ⦃a b : A⦄ ⦃s t : List UInt8⦄, stop s → stop t → enc a ++ s = enc b ++ t → a = b ∧ s = t

/-- Whatever follows. -/
abbrev PrefixFree {A : Type*} (enc : A → List UInt8) : Prop := Delimits (fun _ => True) enc

lemma ends_of_head {b : UInt8} {s : List UInt8} (h : s.head? = some b) (hb : isNumeral b = false) :
    Ends s := fun b' hb' => by
  obtain rfl := Option.some.inj (h.symm.trans hb')
  exact hb

/-! ### Numbers -/

lemma toNat_of_isDigit {c : Char} (h : c.isDigit = true) :
    48 ≤ (UInt8.ofNat c.toNat).toNat ∧ (UInt8.ofNat c.toNat).toNat ≤ 57
      ∧ (UInt8.ofNat c.toNat).toNat = c.toNat := by
  obtain ⟨hlow, hhigh⟩ := Char.isDigit_iff_toNat.mp h
  have hlow' : 48 ≤ c.toNat := hlow
  have hhigh' : c.toNat ≤ 57 := hhigh
  rw [UInt8.toNat_ofNat_of_lt' (by rw [UInt8.size]; omega)]
  exact ⟨hlow', hhigh', rfl⟩

/-- The digits of a number are those of its text. -/
lemma map_decimal (n : ℕ) :
    (decimal n).map (fun b => Char.ofNat b.toNat) = Nat.toDigits 10 n := by
  rw [decimal, List.map_map]
  refine (List.map_congr_left fun c hc => ?_).trans (List.map_id _)
  have hdigit := Nat.isDigit_of_mem_toDigits (by decide) (by decide) hc
  simp [(toNat_of_isDigit hdigit).2.2]

lemma decimal_injective : Function.Injective decimal := fun m n h => by
  have hdigits : Nat.toDigits 10 m = Nat.toDigits 10 n := by rw [← map_decimal, h, map_decimal]
  calc m = Nat.ofDigitChars 10 (Nat.toDigits 10 m) 0 := Nat.ofDigitChars_ten_toDigits.symm
    _ = n := by rw [hdigits, Nat.ofDigitChars_ten_toDigits]

lemma decimal_ne_nil (n : ℕ) : decimal n ≠ [] := by
  simp [decimal, Nat.toDigits_ne_nil]

lemma digit_of_mem_decimal {n : ℕ} {b : UInt8} (h : b ∈ decimal n) : 48 ≤ b ∧ b ≤ 57 := by
  obtain ⟨c, hc, rfl⟩ := List.mem_map.mp h
  have hdigit := toNat_of_isDigit (Nat.isDigit_of_mem_toDigits (by decide) (by decide) hc)
  exact ⟨UInt8.le_iff_toNat_le.mpr hdigit.1, UInt8.le_iff_toNat_le.mpr hdigit.2.1⟩

lemma isNumeral_of_mem_decimal {n : ℕ} {b : UInt8} (h : b ∈ decimal n) : isNumeral b = true := by
  simp [isNumeral, digit_of_mem_decimal h]

/-- A sign is no digit. -/
lemma decimal_ne_sign (n : ℕ) (s : List UInt8) : decimal n ≠ 45 :: s := fun h => by
  have hmem : (45 : UInt8) ∈ decimal n := by simp [h]
  exact absurd (digit_of_mem_decimal hmem).1 (by decide)

lemma signed_injective : Function.Injective signed
  | .ofNat m, .ofNat n, h => by rw [decimal_injective h]
  | .ofNat m, .negSucc n, h => absurd h (decimal_ne_sign m _)
  | .negSucc m, .ofNat n, h => absurd h.symm (decimal_ne_sign n _)
  | .negSucc m, .negSucc n, h => by
      have hsucc := decimal_injective (List.cons.inj h).2
      rw [Nat.succ.inj hsucc]

lemma signed_ne_nil : ∀ z : ℤ, signed z ≠ []
  | .ofNat n => decimal_ne_nil n
  | .negSucc _ => List.cons_ne_nil _ _

lemma isNumeral_of_mem_signed : ∀ {z : ℤ} {b : UInt8}, b ∈ signed z → isNumeral b = true
  | .ofNat n, b, h => isNumeral_of_mem_decimal h
  | .negSucc _, b, h => by
      rcases List.mem_cons.mp h with rfl | h
      · rfl
      · exact isNumeral_of_mem_decimal h

lemma takeWhile_of_ends {l s : List UInt8} (hl : ∀ b ∈ l, isNumeral b = true) (hs : Ends s) :
    (l ++ s).takeWhile isNumeral = l := by
  rw [List.takeWhile_append_of_pos hl]
  cases s with
  | nil => simp
  | cons b s => simp [hs b rfl]

/-- Numbers can be told apart where something else follows them. -/
lemma delimits_of_isNumeral {A : Type*} {enc : A → List UInt8} (hinj : Function.Injective enc)
    (henc : ∀ a, ∀ b ∈ enc a, isNumeral b = true) : Delimits Ends enc := by
  intro a b s t hs ht h
  have heq : enc a = enc b := by
    rw [← takeWhile_of_ends (henc a) hs, h, takeWhile_of_ends (henc b) ht]
  exact ⟨hinj heq, List.append_cancel_left (heq ▸ h)⟩

lemma delimits_decimal : Delimits Ends decimal :=
  delimits_of_isNumeral decimal_injective fun _ _ => isNumeral_of_mem_decimal

lemma delimits_signed : Delimits Ends signed :=
  delimits_of_isNumeral signed_injective fun _ _ => isNumeral_of_mem_signed

/-- What follows a number does not start with it. -/
lemma signed_append_ne {close : UInt8} (hclose : isNumeral close = false) (z : ℤ)
    (s t : List UInt8) : signed z ++ s ≠ close :: t := fun heq => by
  obtain ⟨b, r, hsigned⟩ := List.exists_cons_of_ne_nil (signed_ne_nil z)
  rw [hsigned] at heq
  obtain rfl := (List.cons.inj heq).1
  have hmem : b ∈ signed z := by simp [hsigned]
  exact absurd (isNumeral_of_mem_signed hmem) (by simp [hclose])

/-- The beginning of a text that starts with a number. -/
lemma take_decimal_append (n : ℕ) {k : ℕ} {lit : List UInt8} (hk : k ≤ lit.length + 1)
    (s : List UInt8) :
    (decimal n ++ (lit ++ s)).take k = (decimal n).take k ++ lit.take (k - (decimal n).length) := by
  have hpos := List.length_pos_of_ne_nil (decimal_ne_nil n)
  rw [List.take_append, List.take_append, Nat.sub_sub,
    show k - ((decimal n).length + lit.length) = 0 by omega, List.take_zero, List.append_nil]

/-- What the beginning of a text says of the number it starts with. -/
theorem take_decimal_iff {m n k : ℕ} {lit : List UInt8} (hk : k ≤ lit.length + 1) (hlit : Ends lit)
    (s t : List UInt8) :
    (decimal m ++ (lit ++ s)).take k = (decimal n ++ (lit ++ t)).take k
      ↔ (decimal m).take k = (decimal n).take k := by
  rw [take_decimal_append m hk, take_decimal_append n hk]
  constructor
  · intro heq
    have hends : ∀ j, Ends (lit.take j) := fun j => by
      cases j with
      | zero => simp [Ends]
      | succ j => cases lit with
        | nil => simp [Ends]
        | cons b lit => exact hlit
    rw [← takeWhile_of_ends (fun b hb => isNumeral_of_mem_decimal (List.mem_of_mem_take hb))
      (hends _), heq, takeWhile_of_ends
        (fun b hb => isNumeral_of_mem_decimal (List.mem_of_mem_take hb)) (hends _)]
  · intro heq
    by_cases hlen : (decimal m).length < k ∨ (decimal n).length < k
    · have hlen' := congrArg List.length heq
      simp only [List.length_take] at hlen'
      rw [List.take_of_length_le (by omega), List.take_of_length_le (by omega)] at heq
      rw [decimal_injective heq]
    · rw [heq, Nat.sub_eq_zero_of_le (by omega), Nat.sub_eq_zero_of_le (by omega)]

/-! ### Encodings put together -/

namespace Delimits

variable {A B : Type*} {stop stop' : List UInt8 → Prop} {enc : A → List UInt8}
  {enc' : B → List UInt8}

lemma injective (h : Delimits stop enc) (hnil : stop []) : Function.Injective enc :=
  fun _ _ heq => (h hnil hnil (by rw [heq])).1

/-- A text that ends with a given one. -/
lemma closed (h : Delimits stop enc) {lit : List UInt8} (hlit : ∀ s, stop (lit ++ s)) :
    PrefixFree fun a => enc a ++ lit := by
  intro a b s t _ _ heq
  rw [List.append_assoc, List.append_assoc] at heq
  obtain ⟨hab, hst⟩ := h (hlit s) (hlit t) heq
  exact ⟨hab, List.append_cancel_left hst⟩

/-- A text that starts with a given one. -/
lemma opened (h : Delimits stop enc) (lit : List UInt8) : Delimits stop fun a => lit ++ enc a := by
  intro a b s t hs ht heq
  rw [List.append_assoc, List.append_assoc] at heq
  exact h hs ht (List.append_cancel_left heq)

lemma prod (h : PrefixFree enc) (h' : Delimits stop enc') :
    Delimits stop fun p : A × B => enc p.1 ++ enc' p.2 := by
  intro p q s t hs ht heq
  rw [List.append_assoc, List.append_assoc] at heq
  obtain ⟨hfst, heq⟩ := h trivial trivial heq
  obtain ⟨hsnd, hst⟩ := h' hs ht heq
  exact ⟨Prod.ext hfst hsnd, hst⟩

/-- What follows an item of a list. -/
lemma stop_flatMap {sep close : UInt8} (hsep : ∀ s, stop (sep :: s))
    (hclose : ∀ s, stop (close :: s)) (l : List A) (s : List UInt8) :
    stop (l.flatMap ([sep] ++ enc ·) ++ close :: s) := by
  cases l with
  | nil => exact hclose s
  | cons a l => exact hsep _

/-- Items behind separators, up to another byte. -/
lemma flatMap (h : Delimits stop enc) {sep close : UInt8} (hne : sep ≠ close)
    (hsep : ∀ s, stop (sep :: s)) (hclose : ∀ s, stop (close :: s)) {l m : List A}
    {s t : List UInt8}
    (heq : l.flatMap ([sep] ++ enc ·) ++ close :: s = m.flatMap ([sep] ++ enc ·) ++ close :: t) :
    l = m ∧ s = t := by
  induction l generalizing m with
  | nil =>
      cases m with
      | nil => exact ⟨rfl, (List.cons.inj heq).2⟩
      | cons b m => exact absurd (List.cons.inj heq).1.symm hne
  | cons a l ih =>
      cases m with
      | nil => exact absurd (List.cons.inj heq).1 hne
      | cons b m =>
          simp only [List.flatMap_cons, List.cons_append, List.append_assoc] at heq
          obtain ⟨rfl, hrest⟩ := h (stop_flatMap hsep hclose l s) (stop_flatMap hsep hclose m t)
            (List.cons.inj heq).2
          obtain ⟨rfl, hst⟩ := ih hrest
          exact ⟨rfl, hst⟩

/-- A list with separators and a byte behind it that no item starts with. -/
lemma list (h : Delimits stop enc) {b close : UInt8} {sep lit rest : List UInt8} (hne : b ≠ close)
    (hb : ∀ s, stop (b :: s)) (hclose : ∀ s, stop (close :: s))
    (hitem : ∀ a s t, enc a ++ s ≠ close :: t) (hsep : sep = [b]) (hlit : lit = close :: rest) :
    PrefixFree fun l : List A => joined sep (l.map enc) ++ lit := by
  subst hsep hlit
  intro l m s t _ _ heq
  rw [List.append_assoc, List.append_assoc] at heq
  cases l with
  | nil =>
      cases m with
      | nil => exact ⟨rfl, List.append_cancel_left (List.cons.inj heq).2⟩
      | cons b m =>
          simp only [List.map_cons, joined, List.append_assoc] at heq
          exact absurd heq.symm (hitem b _ _)
  | cons a l =>
      cases m with
      | nil =>
          simp only [List.map_cons, joined, List.append_assoc] at heq
          exact absurd heq (hitem a _ _)
      | cons b m =>
          simp only [List.map_cons, joined, List.append_assoc, List.flatMap_map] at heq
          obtain ⟨rfl, hrest⟩ := h (stop_flatMap hb hclose l _) (stop_flatMap hb hclose m _)
            heq
          obtain ⟨rfl, hst⟩ := h.flatMap hne hb hclose hrest
          exact ⟨rfl, List.append_cancel_left hst⟩

end Delimits

end Printed
