import Mathlib

/-!
Bytes in hexadecimal.

* `encode`: two digits for each byte.
* `encode_injective`, `length_encode`, `encode_ascii`: the texts that come of it.
-/

namespace Hex

def digit (n : ℕ) : Char := "0123456789abcdef".toList.getD n '0'

/-- Two digits for each byte. -/
def encode (b : List UInt8) : List Char :=
  b.flatMap fun x => [digit (x.toNat / 16), digit (x.toNat % 16)]

lemma encode_cons (x : UInt8) (b : List UInt8) :
    encode (x :: b) = digit (x.toNat / 16) :: digit (x.toNat % 16) :: encode b := rfl

lemma digit_injOn : ∀ m < 16, ∀ n < 16, digit m = digit n → m = n := by decide

lemma digit_ascii : ∀ n < 16, (digit n).toNat < 128 := by decide

lemma encode_injective : Function.Injective encode := by
  intro b
  induction b with
  | nil =>
      rintro (_ | ⟨y, b'⟩) h
      · rfl
      · exact nomatch h
  | cons x b ih =>
      rintro (_ | ⟨y, b'⟩) h
      · exact nomatch h
      · rw [encode_cons, encode_cons, List.cons.injEq, List.cons.injEq] at h
        obtain ⟨hhigh, hlow, hrest⟩ := h
        have hx := x.toNat_lt
        have hy := y.toNat_lt
        have hdiv := digit_injOn _ (by omega) _ (by omega) hhigh
        have hmod := digit_injOn _ (by omega) _ (by omega) hlow
        rw [ih hrest, UInt8.toNat_inj.mp (by omega : x.toNat = y.toNat)]

@[simp] lemma length_encode (b : List UInt8) : (encode b).length = 2 * b.length := by
  induction b with
  | nil => rfl
  | cons x b ih =>
      rw [encode_cons, List.length_cons, List.length_cons, ih, List.length_cons]
      omega

lemma encode_ascii (b : List UInt8) : ∀ c ∈ encode b, c.toNat < 128 := by
  intro c hc
  obtain ⟨x, -, hx⟩ := List.mem_flatMap.mp hc
  have hlt := x.toNat_lt
  simp only [List.mem_cons, List.not_mem_nil, or_false] at hx
  rcases hx with rfl | rfl
  · exact digit_ascii _ (by omega)
  · exact digit_ascii _ (by omega)

end Hex
