import Mathlib

/-!
Byte strings cut into records of one width.

* `field`: `n` consecutive members of a list, read at an offset. It inverts
  `List.ofFn` and looks through appends.
* `frame`: the `i`-th piece of width `w` of a list; `getD_flatten` finds a place
  in rows written one behind the other.
* `FixedCodec`: a coding of records by lists of one width, together with the
  two laws that make the list of records and the list of bytes two views of the
  same file: `records_bytes` and `bytes_records`.
-/

namespace Framing

variable {α : Type*} [Zero α]

/-- The `n` members of `l` from the offset `off` on. -/
def field (l : List α) (n off : ℕ) : Fin n → α := fun i => l.getD (off + i) 0

lemma field_apply (l : List α) (n off : ℕ) (i : Fin n) : field l n off i = l.getD (off + i) 0 := rfl

/-- A field that lies in the first part of an append is a field of that part. -/
lemma field_append_left {l₁ : List α} (l₂ : List α) {n off : ℕ} (h : off + n ≤ l₁.length) :
    field (l₁ ++ l₂) n off = field l₁ n off := by
  funext i
  rw [field_apply, field_apply, List.getD_append _ _ _ _ (by omega)]

/-- A field of a piece at the start is a field of the whole. -/
lemma field_take (l : List α) {m n off : ℕ} (h : off + n ≤ m) :
    field (l.take m) n off = field l n off := by
  funext i
  rw [field_apply, field_apply, List.getD_eq_getElem?_getD, List.getD_eq_getElem?_getD,
    List.getElem?_take_of_lt (by omega)]

/-- A field that starts in the second part of an append is a field of that part. -/
lemma field_append_right {l₁ : List α} (l₂ : List α) {n off : ℕ} (h : l₁.length ≤ off) :
    field (l₁ ++ l₂) n off = field l₂ n (off - l₁.length) := by
  funext i
  rw [field_apply, field_apply, List.getD_append_right _ _ _ _ (by omega)]
  congr 1
  omega

@[simp] lemma field_ofFn {n : ℕ} (v : Fin n → α) : field (List.ofFn v) n 0 = v := by
  funext i
  simp [field_apply, List.getD_eq_getElem?_getD]

/-- Writing a field out gives the piece of the list it was read from. -/
lemma ofFn_field {l : List α} {n off : ℕ} (h : off + n ≤ l.length) :
    List.ofFn (field l n off) = (l.drop off).take n := by
  refine List.ext_getElem (by simp; omega) fun i hi _ => ?_
  simp only [List.length_ofFn] at hi
  have hlt : off + i < l.length := by omega
  simp [field_apply, List.getD_eq_getElem?_getD, hlt]

omit [Zero α] in
/-- A place in rows of one width, written one behind the other. -/
lemma getD_flatten {rows : List (List α)} {w : ℕ} (hw : ∀ r ∈ rows, r.length = w) (d : α) {i j : ℕ}
    (hi : i < rows.length) (hj : j < w) : rows.flatten.getD (i * w + j) d = rows[i].getD j d := by
  induction rows generalizing i with
  | nil => simp at hi
  | cons r rows ih =>
      have hr : r.length = w := hw r (by simp)
      cases i with
      | zero =>
          rw [List.flatten_cons, List.getD_append _ _ _ _ (by omega)]
          simp
      | succ i =>
          have hplace : (i + 1) * w + j - r.length = i * w + j := by rw [hr, Nat.succ_mul]; omega
          rw [List.flatten_cons, List.getD_append_right _ _ _ _ (by rw [hr, Nat.succ_mul]; omega),
            hplace, ih (fun r' hr' => hw r' (by simp [hr'])) (by simpa using hi)]
          rfl

omit [Zero α] in
/-- The `i`-th piece of width `w` of a list. -/
def frame (w : ℕ) (l : List α) (i : ℕ) : List α := (l.drop (w * i)).take w

omit [Zero α] in
lemma frame_zero (w : ℕ) (l : List α) : frame w l 0 = l.take w := by
  simp [frame]

omit [Zero α] in
lemma frame_succ (w : ℕ) (l : List α) (i : ℕ) : frame w l (i + 1) = frame w (l.drop w) i := by
  rw [frame, frame, List.drop_drop, Nat.mul_succ, Nat.add_comm]

end Framing

open Framing

/-- A coding of records of type `R` by lists of width `w`. -/
structure FixedCodec (R α : Type*) (w : ℕ) where
  enc : R → List α
  dec : List α → R
  width_pos : 0 < w
  enc_length : ∀ r, (enc r).length = w
  dec_enc : ∀ r, dec (enc r) = r
  enc_dec : ∀ b, b.length = w → enc (dec b) = b

namespace FixedCodec

variable {R α : Type*} {w : ℕ} (c : FixedCodec R α w)

/-- The file that holds the records `rs` and nothing else. -/
def bytes (rs : List R) : List α := rs.flatMap c.enc

/-- The whole records of a file. -/
def records (f : List α) : List R := (List.range (f.length / w)).map fun i => c.dec (frame w f i)

@[simp] lemma bytes_nil : c.bytes [] = [] := rfl

lemma bytes_cons (r : R) (rs : List R) : c.bytes (r :: rs) = c.enc r ++ c.bytes rs := by
  simp [bytes]

lemma bytes_append (rs rs' : List R) : c.bytes (rs ++ rs') = c.bytes rs ++ c.bytes rs' := by
  simp [bytes]

lemma bytes_singleton (r : R) : c.bytes [r] = c.enc r := by
  simp [bytes]

@[simp] lemma bytes_length (rs : List R) : (c.bytes rs).length = w * rs.length := by
  induction rs with
  | nil => rfl
  | cons r rs ih =>
      rw [bytes_cons, List.length_append, c.enc_length, ih, List.length_cons, Nat.mul_succ,
        Nat.add_comm]

@[simp] lemma records_length (f : List α) : (c.records f).length = f.length / w := by
  simp [records]

lemma records_getElem (f : List α) {i : ℕ} (hi : i < (c.records f).length) :
    (c.records f)[i] = c.dec (frame w f i) := by
  simp [records]

/-- A record stands in its frame, whatever follows the records. -/
lemma frame_bytes (rs : List R) (tail : List α) {i : ℕ} (hi : i < rs.length) :
    frame w (c.bytes rs ++ tail) i = c.enc rs[i] := by
  induction rs generalizing i with
  | nil => simp at hi
  | cons r rs ih =>
      cases i with
      | zero =>
          rw [frame_zero, bytes_cons, List.append_assoc,
            List.take_left' (c.enc_length r)]
          rfl
      | succ i =>
          rw [frame_succ, bytes_cons, List.append_assoc, List.drop_left' (c.enc_length r)]
          exact ih (by simpa using hi)

/-- Reading back what was written. -/
theorem records_bytes (rs : List R) : c.records (c.bytes rs) = rs := by
  have hlen : (c.bytes rs).length / w = rs.length := by
    rw [bytes_length, Nat.mul_div_cancel_left _ c.width_pos]
  refine List.ext_getElem (by rw [records_length, hlen]) fun i hi hi' => ?_
  have h := c.frame_bytes rs [] hi'
  rw [List.append_nil] at h
  rw [records_getElem, h, c.dec_enc]

/-- A file of whole records is the file of its records. -/
theorem bytes_records {f : List α} (h : w ∣ f.length) : c.bytes (c.records f) = f := by
  obtain ⟨n, hn⟩ := h
  induction n generalizing f with
  | zero =>
      have hf : f = [] := List.length_eq_zero_iff.mp hn
      subst hf
      simp [records]
  | succ n ih =>
      have hdrop : (f.drop w).length = w * n := by
        rw [List.length_drop, hn, Nat.mul_succ]; omega
      have htake : (f.take w).length = w := by
        rw [List.length_take, hn, Nat.mul_succ]; omega
      have hrec : c.records f = c.dec (f.take w) :: c.records (f.drop w) := by
        rw [records, records, hn, hdrop, Nat.mul_div_cancel_left _ c.width_pos,
          Nat.mul_div_cancel_left _ c.width_pos, List.range_succ_eq_map, List.map_cons,
          List.map_map, frame_zero]
        congr 1
        exact List.map_congr_left fun i _ => by rw [Function.comp_apply, frame_succ]
      rw [hrec, bytes_cons, c.enc_dec _ htake, ih hdrop, List.take_append_drop]

end FixedCodec
