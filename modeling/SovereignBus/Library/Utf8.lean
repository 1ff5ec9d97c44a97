import Mathlib

/-!
Texts and their UTF-8 bytes.

* `encode`: the bytes of a text; `Valid`: bytes that are those of some text.
* `slice`: the beginning of a text that has so many bytes; `Boundary` says when there is one.
* `encodeChar_cases`: a character is one byte below 128, or all its bytes are from 128 on.
  `Valid.flatMap` changes bytes below 128 into others.
-/

namespace Utf8

/-- The bytes of a text. -/
def encode (cs : List Char) : List UInt8 := cs.flatMap String.utf8EncodeChar

@[simp] lemma encode_nil : encode [] = [] := rfl

@[simp] lemma encode_append (cs cs' : List Char) : encode (cs ++ cs') = encode cs ++ encode cs' :=
  List.flatMap_append

lemma encode_injective : Function.Injective encode := by
  intro cs cs' h
  have hbytes : cs.utf8Encode = cs'.utf8Encode := congrArg List.toByteArray h
  have hdecoded := congrArg ByteArray.utf8Decode? hbytes
  rw [List.utf8Decode?_utf8Encode, List.utf8Decode?_utf8Encode] at hdecoded
  simpa using hdecoded

/-! ### Byte offsets -/

lemma encode_cons (c : Char) (cs : List Char) :
    encode (c :: cs) = String.utf8EncodeChar c ++ encode cs := rfl

lemma length_encode_cons (c : Char) (cs : List Char) :
    (encode (c :: cs)).length = c.utf8Size + (encode cs).length := by
  rw [encode_cons, List.length_append, String.length_utf8EncodeChar]

lemma encode_eq_nil {cs : List Char} : (encode cs).length = 0 ↔ cs = [] := by
  cases cs with
  | nil => simp
  | cons c cs =>
      have hpos := c.utf8Size_pos
      rw [length_encode_cons]
      exact iff_of_false (by omega) (List.cons_ne_nil _ _)

/-- The first `n` bytes of a text, if a character ends there. -/
def slice : ℕ → List Char → Option (List Char)
  | 0, _ => some []
  | _ + 1, [] => none
  | n + 1, c :: cs =>
      if c.utf8Size ≤ n + 1 then (slice (n + 1 - c.utf8Size) cs).map (c :: ·) else none

/-- Some beginning of the text has `n` bytes. -/
def Boundary (n : ℕ) (cs : List Char) : Prop := ∃ p, p <+: cs ∧ (encode p).length = n

lemma slice_eq_some {n : ℕ} {cs p : List Char} :
    slice n cs = some p ↔ p <+: cs ∧ (encode p).length = n := by
  induction cs generalizing n p with
  | nil =>
      rw [List.prefix_nil]
      cases n with
      | zero =>
          rw [encode_eq_nil, slice, Option.some.injEq, eq_comm]
          exact ⟨fun h => ⟨h, h⟩, And.left⟩
      | succ n => exact iff_of_false nofun (by rintro ⟨rfl, h⟩; exact nomatch h)
  | cons c cs ih =>
      cases n with
      | zero =>
          rw [encode_eq_nil, slice, Option.some.injEq, eq_comm]
          exact ⟨fun h => ⟨h ▸ List.nil_prefix, h⟩, fun h => h.2⟩
      | succ n =>
          cases p with
          | nil =>
              rw [slice]
              refine iff_of_false ?_ fun h => nomatch h.2
              split_ifs <;> simp
          | cons d p =>
              rw [slice, List.cons_prefix_cons, length_encode_cons]
              split_ifs with hsize
              · rw [Option.map_eq_some_iff]
                constructor
                · rintro ⟨p', hp', heq⟩
                  obtain ⟨rfl, rfl⟩ := List.cons.inj heq
                  obtain ⟨hpre, hlen⟩ := ih.mp hp'
                  exact ⟨⟨rfl, hpre⟩, by omega⟩
                · rintro ⟨⟨rfl, hpre⟩, hlen⟩
                  exact ⟨p, ih.mpr ⟨hpre, by omega⟩, rfl⟩
              · refine iff_of_false nofun ?_
                rintro ⟨⟨rfl, -⟩, hlen⟩
                omega

lemma slice_isSome_iff {n : ℕ} {cs : List Char} : (slice n cs).isSome ↔ Boundary n cs := by
  rw [Option.isSome_iff_exists]
  exact exists_congr fun _ => slice_eq_some

/-- In a text of ASCII a character ends at every byte. -/
lemma boundary_of_ascii {cs : List Char} (h : ∀ c ∈ cs, c.toNat < 128) {n : ℕ}
    (hn : n ≤ cs.length) : Boundary n cs := by
  have hlength : ∀ p : List Char, (∀ c ∈ p, c.toNat < 128) → (encode p).length = p.length := by
    intro p hp
    induction p with
    | nil => rfl
    | cons c p ih =>
        obtain ⟨hc, hp⟩ := List.forall_mem_cons.mp hp
        have hone : c.utf8Size = 1 := Char.utf8Size_eq_one_iff.mpr
          (UInt32.le_iff_toNat_le.mpr (Nat.le_of_lt_succ hc))
        rw [length_encode_cons, hone, ih hp, List.length_cons, Nat.add_comm]
  refine ⟨cs.take n, List.take_prefix n cs, ?_⟩
  rw [hlength _ fun c hc => h c (List.mem_of_mem_take hc), List.length_take, min_eq_left hn]

/-! ### Well-formed bytes -/

/-- Well-formed UTF-8. -/
def Valid (s : List UInt8) : Prop := ∃ cs, s = encode cs

lemma valid_nil : Valid [] := ⟨[], rfl⟩

lemma Valid.append {s t : List UInt8} : Valid s → Valid t → Valid (s ++ t)
  | ⟨cs, hs⟩, ⟨cs', ht⟩ => ⟨cs ++ cs', by rw [hs, ht, encode_append]⟩

/-- A character of ASCII is its own byte. -/
lemma encodeChar_ofNat {b : UInt8} (hb : b < 128) :
    String.utf8EncodeChar (Char.ofNat b.toNat) = [b] := by
  have hlt : b.toNat < 128 := UInt8.lt_iff_toNat_lt.mp hb
  have hval : (Char.ofNat b.toNat).val.toNat = b.toNat := by
    rw [Char.ofNat, dif_pos (.inl (by omega))]
    rfl
  rw [String.utf8EncodeChar, hval, if_pos (by omega), UInt8.ofNat_toNat]

lemma valid_singleton {b : UInt8} (hb : b < 128) : Valid [b] :=
  ⟨[Char.ofNat b.toNat], by simp [encode, encodeChar_ofNat hb]⟩

lemma valid_ascii {s : List UInt8} (hs : ∀ b ∈ s, b < 128) : Valid s := by
  induction s with
  | nil => exact valid_nil
  | cons b s ih =>
      obtain ⟨hb, hs⟩ := List.forall_mem_cons.mp hs
      exact (valid_singleton hb).append (ih hs)

/-- A byte of a character that is not of ASCII. -/
lemma high_of_ofNat {base x n : ℕ} (hbase : 128 ≤ base) (hn : base + n ≤ 256) (hpos : 0 < n) :
    128 ≤ UInt8.ofNat (x % n + base) := by
  have hlt := Nat.mod_lt x hpos
  rw [UInt8.le_iff_toNat_le, UInt8.toNat_ofNat_of_lt' (by rw [UInt8.size]; omega)]
  have h128 : (128 : UInt8).toNat = 128 := rfl
  omega

/-- A character is a byte below 128, or all its bytes are from 128 on. -/
lemma encodeChar_cases (c : Char) :
    (∃ b : UInt8, b < 128 ∧ String.utf8EncodeChar c = [b])
      ∨ ∀ b ∈ String.utf8EncodeChar c, 128 ≤ b := by
  have h20 : ∀ x, 128 ≤ UInt8.ofNat (x % 0x20 + 0xc0) := fun x =>
    high_of_ofNat (by decide) (by decide) (by decide)
  have h40 : ∀ x, 128 ≤ UInt8.ofNat (x % 0x40 + 0x80) := fun x =>
    high_of_ofNat (by decide) (by decide) (by decide)
  have h10 : ∀ x, 128 ≤ UInt8.ofNat (x % 0x10 + 0xe0) := fun x =>
    high_of_ofNat (by decide) (by decide) (by decide)
  have h08 : ∀ x, 128 ≤ UInt8.ofNat (x % 0x08 + 0xf0) := fun x =>
    high_of_ofNat (by decide) (by decide) (by decide)
  rw [String.utf8EncodeChar]
  split_ifs with h1 h2 h3
  · left
    refine ⟨_, ?_, rfl⟩
    rw [UInt8.lt_iff_toNat_lt, UInt8.toNat_ofNat_of_lt' (by rw [UInt8.size]; omega)]
    exact Nat.lt_succ_of_le h1
  · refine .inr fun b hb => ?_
    simp only [List.mem_cons, List.not_mem_nil, or_false] at hb
    rcases hb with rfl | rfl
    exacts [h20 _, h40 _]
  · refine .inr fun b hb => ?_
    simp only [List.mem_cons, List.not_mem_nil, or_false] at hb
    rcases hb with rfl | rfl | rfl
    exacts [h10 _, h40 _, h40 _]
  · refine .inr fun b hb => ?_
    simp only [List.mem_cons, List.not_mem_nil, or_false] at hb
    rcases hb with rfl | rfl | rfl | rfl
    exacts [h08 _, h40 _, h40 _, h40 _]

/-- The characters of one byte. -/
lemma encodeChar_of_lt {c : Char} (hc : c.toNat < 128) :
    String.utf8EncodeChar c = [UInt8.ofNat c.toNat] := by
  have hbyte : (UInt8.ofNat c.toNat).toNat = c.toNat :=
    UInt8.toNat_ofNat_of_lt' (hc.trans (by decide))
  have hchar := encodeChar_ofNat (UInt8.lt_iff_toNat_lt.mpr (hbyte.symm ▸ hc))
  rwa [hbyte, Char.ofNat_toNat] at hchar

lemma encodeChar_of_le {c : Char} (hc : 128 ≤ c.toNat) :
    ∀ b ∈ String.utf8EncodeChar c, 128 ≤ b := by
  rcases encodeChar_cases c with ⟨b, -, hchar⟩ | hall
  · have hone : c.utf8Size = 1 := by
      rw [← String.length_utf8EncodeChar, hchar, List.length_singleton]
    have hle := UInt32.le_iff_toNat_le.mp (Char.utf8Size_eq_one_iff.mp hone)
    exact absurd (Nat.lt_succ_of_le hle) (not_lt.mpr hc)
  · exact hall

/-- Bytes below 128 may be replaced by other bytes, where those from 128 on stay. -/
lemma Valid.flatMap {f : UInt8 → List UInt8} (hlow : ∀ b, b < 128 → Valid (f b))
    (hhigh : ∀ b, 128 ≤ b → f b = [b]) {s : List UInt8} : Valid s → Valid (s.flatMap f) := by
  rintro ⟨cs, rfl⟩
  induction cs with
  | nil => exact valid_nil
  | cons c cs ih =>
      have hcons : encode (c :: cs) = String.utf8EncodeChar c ++ encode cs := rfl
      rw [hcons, List.flatMap_append]
      refine Valid.append ?_ ih
      rcases encodeChar_cases c with ⟨b, hb, heq⟩ | hall
      · rw [heq, List.flatMap_singleton]
        exact hlow b hb
      · rw [List.flatMap_congr fun b hb => hhigh b (hall b hb), List.flatMap_singleton']
        exact ⟨[c], by simp [encode]⟩

end Utf8
