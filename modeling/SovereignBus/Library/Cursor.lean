import SovereignBus.Library.Loop

/-!
Texts that C code writes into a buffer behind a cursor.

* `Cursor`: the buffer and the position; `put` is `buf[pos++] = b`, `snprintf` is
  `pos += snprintf(buf + pos, size - pos, ...)`. A write behind the end and a position
  behind the end that is subtracted from the size are faults.
* `Writes`: an operation that writes a text where there is room for it, and ends behind
  the buffer where there is not. `Writes.snprintf`, `Writes.andThen`, `Writes.forEach`,
  `Writes.separated` build programs of such operations.
* `Writes.inside_iff`: they stay inside the buffer exactly if the text does.
-/

inductive Overrun where
  | outOfBounds
  | underflow
  deriving DecidableEq

structure Cursor where
  pos : ℕ
  buf : ℕ → UInt8

namespace Cursor

/-- The bytes `bs` from the index `i` on, in a buffer of `size` bytes. -/
def write (size i : ℕ) (bs : List UInt8) (buf : ℕ → UInt8) : Except Overrun (ℕ → UInt8) :=
  if i + bs.length ≤ size then
    .ok fun k => if i ≤ k ∧ k < i + bs.length then bs.getD (k - i) 0 else buf k
  else .error .outOfBounds

/-- `buf[pos++] = b`. -/
def put (size : ℕ) (b : UInt8) (c : Cursor) : Except Overrun Cursor := do
  let buf ← write size c.pos [b] c.buf
  return ⟨c.pos + 1, buf⟩

/-- `pos += snprintf(buf + pos, size - pos, ...)`: as much of the text as there is room
for with a NUL behind it, and nothing where there is no room. -/
def snprintf (size : ℕ) (s : List UInt8) (c : Cursor) : Except Overrun Cursor :=
  if size < c.pos then .error .underflow
  else if size - c.pos = 0 then .ok ⟨c.pos + s.length, c.buf⟩
  else do
    let buf ← write size c.pos (s.take (size - c.pos - 1) ++ [0]) c.buf
    return ⟨c.pos + s.length, buf⟩

/-- What stands before the cursor. -/
def content (c : Cursor) : List UInt8 := (List.range c.pos).map c.buf

/-- An operation that writes a text where there is room for it, and else ends behind the
buffer if it does not fail. -/
structure Writes (size : ℕ) (op : Cursor → Except Overrun Cursor) (s : List UInt8) : Prop where
  fits : ∀ c, c.pos + s.length ≤ size → ∃ c', op c = .ok c' ∧ c'.pos = c.pos + s.length
  content : ∀ c c', op c = .ok c' → c.pos + s.length < size → c'.content = c.content ++ s
  behind : ∀ c c', op c = .ok c' → size < c.pos + s.length → size < c'.pos

/-- The loop over a list. -/
def forEach {A : Type*} (op : A → Cursor → Except Overrun Cursor) :
    List A → Cursor → Except Overrun Cursor
  | [], c => .ok c
  | a :: l, c => op a c >>= forEach op l

/-- Texts with a separator between them. -/
def joined (sep : List UInt8) : List (List UInt8) → List UInt8
  | [] => []
  | s :: ss => s ++ ss.flatMap (sep ++ ·)

/-- The loop over a list with a text before every item but the first. -/
def separated {A : Type*} (size : ℕ) (sep : List UInt8) (item : A → Cursor → Except Overrun Cursor)
    (l : List A) : Cursor → Except Overrun Cursor :=
  forEach (fun (e : A × ℕ) c => (if e.2 > 0 then snprintf size sep c else .ok c) >>= item e.1)
    l.zipIdx

variable {size : ℕ}

/-- The separator stands before every item but the first. -/
lemma flatMap_zipIdx_eq_joined {A : Type*} (sep : List UInt8) (text : A → List UInt8)
    (l : List A) :
    (l.zipIdx.flatMap fun e => (if e.2 > 0 then sep else []) ++ text e.1)
      = joined sep (l.map text) := by
  have hrest : ∀ n, 0 < n → ∀ l : List A,
      ((l.zipIdx n).flatMap fun e => (if e.2 > 0 then sep else []) ++ text e.1)
        = l.flatMap fun a => sep ++ text a := fun n hn l => by
    induction l generalizing n with
    | nil => rfl
    | cons a l ih => simp [List.zipIdx_cons, hn, ih (n + 1) n.succ_pos]
  cases l with
  | nil => rfl
  | cons a l => simp [List.zipIdx_cons, hrest, joined, List.flatMap_map]

lemma length_joined (sep : List UInt8) (ss : List (List UInt8)) :
    (joined sep ss).length = (ss.map List.length).sum + (ss.length - 1) * sep.length := by
  cases ss with
  | nil => simp [joined]
  | cons s ss =>
      induction ss with
      | nil => simp [joined]
      | cons t ss ih =>
          simp only [joined, List.length_append, List.flatMap_cons, List.map_cons, List.sum_cons,
            List.length_cons, Nat.add_sub_cancel, Nat.add_mul] at ih ⊢
          omega

/-! ### Single writes -/

lemma write_eq_ok {i : ℕ} {bs : List UInt8} (h : i + bs.length ≤ size) (buf : ℕ → UInt8) :
    ∃ buf', write size i bs buf = .ok buf' := by
  rw [write, if_pos h]
  exact ⟨_, rfl⟩

/-- The bytes behind the cursor that are written stand before a cursor that is moved. -/
lemma content_of_write {bs : List UInt8} {c : Cursor} {buf : ℕ → UInt8} {n : ℕ}
    (h : write size c.pos bs c.buf = .ok buf) (hn : n ≤ bs.length) :
    content ⟨c.pos + n, buf⟩ = c.content ++ bs.take n := by
  rw [write] at h
  split_ifs at h
  obtain rfl := Except.ok.inj h
  rw [content, List.range_add, List.map_append, List.map_map]
  congr 1
  · refine List.map_congr_left fun k hk => if_neg fun hle => ?_
    have hlt := List.mem_range.mp hk
    omega
  · refine List.ext_getElem (by simp [hn]) fun k hk hk' => ?_
    have hlt : k < n := by simpa using hk
    simp [show k < bs.length by omega]

lemma put_eq_ok (b : UInt8) {c : Cursor} (h : c.pos < size) :
    ∃ c', put size b c = .ok c' ∧ c'.pos = c.pos + 1 ∧ c'.content = c.content ++ [b] := by
  have hlen : c.pos + [b].length ≤ size := h
  obtain ⟨buf, hbuf⟩ := write_eq_ok hlen c.buf
  refine ⟨⟨c.pos + 1, buf⟩, ?_, rfl, content_of_write hbuf le_rfl⟩
  rw [put, hbuf]
  rfl

namespace Writes

lemma snprintf (s : List UInt8) : Writes size (Cursor.snprintf size s) s where
  fits c h := by
    rw [Cursor.snprintf, if_neg (by omega)]
    split_ifs with hroom
    · exact ⟨_, rfl, rfl⟩
    · have hlen : c.pos + (s.take (size - c.pos - 1) ++ [0]).length ≤ size := by
        simp only [List.length_append, List.length_take, List.length_singleton]
        omega
      obtain ⟨buf, hbuf⟩ := write_eq_ok hlen c.buf
      rw [hbuf]
      exact ⟨_, rfl, rfl⟩
  content c c' h hlt := by
    rw [Cursor.snprintf, if_neg (by omega), if_neg (by omega)] at h
    obtain ⟨buf, hbuf, h⟩ := Except.bind_eq_ok.mp h
    obtain rfl := Except.ok.inj h
    rw [List.take_of_length_le (by omega)] at hbuf
    rw [content_of_write hbuf (by simp), List.take_left]
  behind c c' h hlt := by
    rw [Cursor.snprintf] at h
    split_ifs at h
    · obtain rfl := Except.ok.inj h
      exact hlt
    · obtain ⟨buf, -, h⟩ := Except.bind_eq_ok.mp h
      obtain rfl := Except.ok.inj h
      exact hlt

lemma nothing : Writes size .ok [] where
  fits c _ := ⟨c, rfl, rfl⟩
  content c c' h _ := by
    obtain rfl := Except.ok.inj h
    simp
  behind c c' h hlt := by
    obtain rfl := Except.ok.inj h
    simpa using hlt

/-- One operation after another. -/
lemma andThen {op op' : Cursor → Except Overrun Cursor} {s s' : List UInt8} (h : Writes size op s)
    (h' : Writes size op' s') : Writes size (fun c => op c >>= op') (s ++ s') where
  fits c hle := by
    rw [List.length_append] at hle
    obtain ⟨c₁, hop, hpos⟩ := h.fits c (by omega)
    obtain ⟨c₂, hop', hpos'⟩ := h'.fits c₁ (by omega)
    refine ⟨c₂, Except.bind_eq_ok.mpr ⟨c₁, hop, hop'⟩, ?_⟩
    rw [hpos', hpos, List.length_append, Nat.add_assoc]
  content c c' hop hlt := by
    rw [List.length_append] at hlt
    obtain ⟨c₁, hop, hop'⟩ := Except.bind_eq_ok.mp hop
    obtain ⟨c₂, hop₂, hpos⟩ := h.fits c (by omega)
    obtain rfl := Except.ok.inj (hop.symm.trans hop₂)
    rw [h'.content _ _ hop' (by omega), h.content _ _ hop (by omega), List.append_assoc]
  behind c c' hop hlt := by
    rw [List.length_append] at hlt
    obtain ⟨c₁, hop, hop'⟩ := Except.bind_eq_ok.mp hop
    by_cases hle : c.pos + s.length ≤ size
    · obtain ⟨c₂, hop₂, hpos⟩ := h.fits c hle
      obtain rfl := Except.ok.inj (hop.symm.trans hop₂)
      exact h'.behind _ _ hop' (by omega)
    · have hbehind := h.behind _ _ hop (by omega)
      exact h'.behind _ _ hop' (by omega)

/-- A loop writes what its passes write. -/
lemma forEach {A : Type*} {op : A → Cursor → Except Overrun Cursor} {text : A → List UInt8}
    {l : List A} (h : ∀ a ∈ l, Writes size (op a) (text a)) :
    Writes size (Cursor.forEach op l) (l.flatMap text) := by
  induction l with
  | nil => exact nothing
  | cons a l ih =>
      rw [List.flatMap_cons]
      exact (h a List.mem_cons_self).andThen (ih fun b hb => h b (List.mem_cons_of_mem a hb))

/-- A loop with separators writes the items with the separator between them. -/
lemma separated {A : Type*} {sep : List UInt8} {item : A → Cursor → Except Overrun Cursor}
    {text : A → List UInt8} {l : List A} (h : ∀ a ∈ l, Writes size (item a) (text a)) :
    Writes size (Cursor.separated size sep item l) (joined sep (l.map text)) := by
  rw [← flatMap_zipIdx_eq_joined]
  refine forEach fun e he => ?_
  have hsep : Writes size (fun c => if e.2 > 0 then Cursor.snprintf size sep c else .ok c)
      (if e.2 > 0 then sep else []) := by
    split_ifs
    · exact snprintf sep
    · exact nothing
  exact hsep.andThen (h e.1 (List.fst_mem_of_mem_zipIdx he))

/-- From the beginning of the buffer, an operation stays inside it exactly if its text
does. -/
theorem inside_iff {op : Cursor → Except Overrun Cursor} {s : List UInt8} (h : Writes size op s)
    (buf : ℕ → UInt8) : (∃ c, op ⟨0, buf⟩ = .ok c ∧ c.pos ≤ size) ↔ s.length ≤ size := by
  constructor
  · rintro ⟨c, hop, hle⟩
    by_contra hlt
    have hbehind := h.behind _ _ hop (by simpa using hlt)
    omega
  · intro hle
    obtain ⟨c, hop, hpos⟩ := h.fits ⟨0, buf⟩ (by simpa using hle)
    exact ⟨c, hop, by rw [hpos, Nat.zero_add]; exact hle⟩

end Writes

end Cursor
