import SovereignBus.Library.Xor
import Mathlib

/-!
Bytes as a finite type, and the constant-time comparison of byte strings.

* a decidable property of all bytes is decided on the 256 numerals;
* `ctDiff`: the or of the differences of two strings, zero exactly when they
  agree (`ctDiff_eq_zero_iff`);
* `toNat_foldl_or_shiftLeft`: the loop that reads a word from its bytes, the lowest first,
  computes the number with these digits.
-/

lemma UInt8.forall_iff {P : UInt8 → Prop} : (∀ x, P x) ↔ ∀ n : Fin 256, P (UInt8.ofNat n) := by
  refine ⟨fun h n => h _, ?_⟩
  intro h x
  have hx := h ⟨x.toNat, x.toNat_lt⟩
  rwa [UInt8.ofNat_toNat] at hx

instance UInt8.decidableForall {P : UInt8 → Prop} [DecidablePred P] : Decidable (∀ x, P x) :=
  decidable_of_iff _ UInt8.forall_iff.symm

/-- The loop `diff |= a[i] ^ b[i]` of a constant-time comparison. -/
def ctDiff {n : ℕ} (a b : Fin n → UInt8) : UInt8 :=
  (List.finRange n).foldl (fun diff i => diff ||| (a i ^^^ b i)) 0

lemma foldl_or_eq_zero_iff {ι : Type*} (f : ι → UInt8) (l : List ι) (s : UInt8) :
    l.foldl (fun s i => s ||| f i) s = 0 ↔ s = 0 ∧ ∀ i ∈ l, f i = 0 := by
  induction l generalizing s with
  | nil => simp
  | cons i l ih => simp [ih, UInt8.or_eq_zero_iff, and_assoc]

/-- The comparison loop leaves zero exactly on equal strings. -/
lemma ctDiff_eq_zero_iff {n : ℕ} {a b : Fin n → UInt8} : ctDiff a b = 0 ↔ a = b := by
  simp [ctDiff, foldl_or_eq_zero_iff, funext_iff]

/-- The loop `word |= b[i] << (i * 8)` over the bytes of a word of 32 bits. -/
lemma toNat_foldl_or_shiftLeft (b : ℕ → UInt8) {n : ℕ} (hn : n ≤ 4) :
    ((List.range n).foldl
        (fun word i => word ||| ((b i).toUInt32 <<< UInt32.ofNat (i * 8))) 0).toNat
      = Nat.ofDigits 256 ((List.range n).map fun i => (b i).toNat) := by
  induction n with
  | zero => rfl
  | succ n ih =>
      have hlow : Nat.ofDigits 256 ((List.range n).map fun i => (b i).toNat) < 2 ^ (n * 8) := by
        have hlt := Nat.ofDigits_lt_base_pow_length (b := 256)
          (l := (List.range n).map fun i => (b i).toNat) (by omega) fun d hd => by
            obtain ⟨i, -, rfl⟩ := List.mem_map.mp hd
            exact (b i).toNat_lt
        rwa [List.length_map, List.length_range, show (256 : ℕ) = 2 ^ 8 by rfl, ← pow_mul,
          mul_comm 8 n] at hlt
      have hshift : ((b n).toUInt32 <<< UInt32.ofNat (n * 8)).toNat
          = 2 ^ (n * 8) * (b n).toNat := by
        have hle : 2 ^ (n * 8) ≤ 2 ^ 24 := Nat.pow_le_pow_right (by omega) (by omega)
        have hbyte := (b n).toNat_lt
        rw [UInt32.toNat_shiftLeft, UInt32.toNat_ofNat', UInt8.toNat_toUInt32,
          Nat.mod_eq_of_lt (a := n * 8) (by omega), Nat.mod_eq_of_lt (a := n * 8) (by omega),
          Nat.shiftLeft_eq, Nat.mul_comm, Nat.mod_eq_of_lt]
        calc 2 ^ (n * 8) * (b n).toNat ≤ 2 ^ 24 * (b n).toNat := Nat.mul_le_mul_right _ hle
          _ < 2 ^ 32 := by omega
      rw [List.range_succ, List.foldl_append, List.foldl_cons, List.foldl_nil, List.map_append,
        List.map_cons, List.map_nil, Nat.ofDigits_append, Nat.ofDigits_singleton, List.length_map,
        List.length_range, UInt32.toNat_or, ih (by omega), hshift, Nat.or_comm,
        ← Nat.two_pow_add_eq_or_of_lt hlow, Nat.add_comm, show (256 : ℕ) = 2 ^ 8 by rfl, ← pow_mul,
        mul_comm 8 n]
