import SovereignBus.Library.Printed
import SovereignBus.Obligations.Adds

/-!
`sov_obset_to_json` of `src/obligations/sov_obligations.c` in a buffer of a size that is
estimated before.

* `bufSize`: the estimate; `escape`: the loop over a description; `sovObsetToJson`: the
  function of the source, which fails where it leaves the buffer.
* `jsonText`: what it would write with room enough; `jsonLength` is its length.
* `toJson_inside_iff`: the function stays inside its buffer exactly if the estimate is
  not below the length.
* `escapes_leave_buffer`: sixteen descriptions of quotes need more than that.
-/

namespace SovereignBus

namespace Obligations

open Machine Cursor Printed

/-- `buf_size`, as a `size_t`. -/
def ObligationSet.bufSize (obset : ObligationSet) : ℕ := (4096 + obset.count * 256) % 2 ^ 64

/-- A quote or a backslash. -/
def needsEscape (b : UInt8) : Bool := b == 34 || b == 92

/-- One byte of a description. -/
def escapeByte (size : ℕ) (b : UInt8) (c : Cursor) : Except Overrun Cursor :=
  (if needsEscape b then put size 92 c else .ok c) >>= put size b

/-- The loop over a description, as long as there is room. -/
def escape (size : ℕ) : List UInt8 → Cursor → Except Overrun Cursor
  | [], c => .ok c
  | b :: bs, c => if c.pos < size - 1 then escapeByte size b c >>= escape size bs else .ok c

/-- `description`, of `desc_len` bytes. -/
def Obligation.bytes (obl : Obligation) : List UInt8 := obl.description.getD []

variable (kindValue : ObligationKind → Int32)

/-- What is printed of an obligation before its description; `kindValue` are the values of
the enumeration in the header. -/
def headText (obl : Obligation) : List UInt8 :=
  text "\x7b\"id\":" ++ decimal obl.id.toNat ++ text ",\"kind\":"
    ++ signed (kindValue obl.kind).toInt ++ text ",\"start_pc\":" ++ decimal obl.startPc.toNat
    ++ text ",\"end_pc\":" ++ decimal obl.endPc.toNat ++ text ",\"description\":\""

/-- One pass of the loop over the items. -/
def writeObligation (size : ℕ) (obl : Obligation) (c : Cursor) : Except Overrun Cursor := do
  let c ← snprintf size (headText kindValue obl) c
  let c ← escape size obl.bytes c
  snprintf size (text "\"\x7d") c

/-- `sov_obset_to_json`, when its buffer is allocated: the buffer and `pos`, which is
`*out_len`. -/
def sovObsetToJson (obset : ObligationSet) (buf : ℕ → UInt8) : Except Overrun Cursor := do
  let size := obset.bufSize
  let c ← snprintf size (text "\x7b\"version\":1,\"obligations\":[") ⟨0, buf⟩
  let c ← separated size (text ",") (writeObligation kindValue size) obset.items c
  snprintf size (text "]\x7d") c

/-! ### What is written -/

def escapedByte (b : UInt8) : List UInt8 := if needsEscape b then [92, b] else [b]

def escaped (s : List UInt8) : List UInt8 := s.flatMap escapedByte

def obligationText (obl : Obligation) : List UInt8 :=
  headText kindValue obl ++ (escaped obl.bytes ++ text "\"\x7d")

def jsonText (obset : ObligationSet) : List UInt8 :=
  text "\x7b\"version\":1,\"obligations\":["
    ++ (joined (text ",") (obset.items.map (obligationText kindValue)) ++ text "]\x7d")

/-- The bytes an obligation needs: its numbers, its description, one more for every quote
and backslash of it, and what stands between them. -/
def obligationLength (obl : Obligation) : ℕ :=
  54 + (decimal obl.id.toNat).length + (signed (kindValue obl.kind).toInt).length
    + (decimal obl.startPc.toNat).length + (decimal obl.endPc.toNat).length
    + obl.bytes.length + obl.bytes.countP needsEscape

/-- The bytes a set needs. -/
def jsonLength (obset : ObligationSet) : ℕ :=
  30 + (obset.items.map (obligationLength kindValue)).sum + (obset.count - 1)

lemma length_escaped (s : List UInt8) : (escaped s).length = s.length + s.countP needsEscape := by
  induction s with
  | nil => rfl
  | cons b s ih =>
      rw [escaped, List.flatMap_cons, ← escaped, List.length_append, ih, escapedByte]
      cases hb : needsEscape b <;> simp [hb] <;> omega

lemma length_obligationText (obl : Obligation) :
    (obligationText kindValue obl).length = obligationLength kindValue obl := by
  simp only [obligationText, headText, List.length_append, length_escaped, obligationLength]
  simp [text]
  omega

lemma length_jsonText (obset : ObligationSet) :
    (jsonText kindValue obset).length = jsonLength kindValue obset := by
  have hitems : (obset.items.map (obligationText kindValue)).map List.length
      = obset.items.map (obligationLength kindValue) := by
    rw [List.map_map]
    exact List.map_congr_left fun obl _ => length_obligationText kindValue obl
  rw [jsonText, List.length_append, List.length_append, length_joined, hitems, List.length_map,
    jsonLength, ObligationSet.count]
  simp [text]
  omega

variable {size : ℕ}

/-- The bytes of one step of the loop. -/
lemma escapeByte_eq_ok (b : UInt8) {c : Cursor} (h : c.pos + 1 < size) :
    ∃ c', escapeByte size b c = .ok c' ∧ c'.pos = c.pos + (escapedByte b).length
      ∧ c'.content = c.content ++ escapedByte b := by
  rw [escapeByte, escapedByte]
  cases needsEscape b with
  | false => exact put_eq_ok b (by omega)
  | true =>
      obtain ⟨c₁, hput, hpos, hcontent⟩ := put_eq_ok 92 (show c.pos < size by omega)
      obtain ⟨c₂, hput', hpos', hcontent'⟩ := put_eq_ok b (show c₁.pos < size by omega)
      refine ⟨c₂, Except.bind_eq_ok.mpr ⟨c₁, hput, hput'⟩, by rw [hpos', hpos]; rfl, ?_⟩
      rw [hcontent', hcontent, List.append_assoc]
      rfl

/-- The loop over a description never fails; it is cut short only where less than two bytes
of the buffer are left. -/
lemma escape_eq_ok (size : ℕ) (s : List UInt8) (c : Cursor) :
    ∃ c', escape size s c = .ok c'
      ∧ (c'.pos = c.pos + (escaped s).length ∧ c'.content = c.content ++ escaped s
        ∨ size ≤ c'.pos + 1 ∧ size ≤ c.pos + (escaped s).length) := by
  induction s generalizing c with
  | nil => exact ⟨c, rfl, .inl ⟨rfl, by simp [escaped]⟩⟩
  | cons b s ih =>
      have hlen : (escaped (b :: s)).length = (escapedByte b).length + (escaped s).length := by
        rw [escaped, List.flatMap_cons, List.length_append, ← escaped]
      have hpos : 0 < (escapedByte b).length := by
        rw [escapedByte]
        split <;> simp
      rw [escape]
      split_ifs with hroom
      · obtain ⟨c₁, hok, hpos₁, hcontent₁⟩ := escapeByte_eq_ok b (show c.pos + 1 < size by omega)
        obtain ⟨c₂, hok', hcases⟩ := ih c₁
        refine ⟨c₂, Except.bind_eq_ok.mpr ⟨c₁, hok, hok'⟩, ?_⟩
        rcases hcases with ⟨hpos₂, hcontent₂⟩ | ⟨hend, hlong⟩
        · left
          refine ⟨by omega, ?_⟩
          rw [hcontent₂, hcontent₁, List.append_assoc, escaped, escaped, List.flatMap_cons]
        · right
          omega
      · exact ⟨c, rfl, .inr ⟨by omega, by omega⟩⟩

/-- A description with the text behind it. -/
lemma writes_escape (s : List UInt8) :
    Writes size (fun c => escape size s c >>= snprintf size (text "\"\x7d"))
      (escaped s ++ text "\"\x7d") := by
  have htwo : (text "\"\x7d").length = 2 := rfl
  have hlen : (escaped s ++ text "\"\x7d").length = (escaped s).length + 2 := List.length_append
  have hclose : Writes size (snprintf size (text "\"\x7d")) (text "\"\x7d") := Writes.snprintf _
  refine ⟨fun c h => ?_, fun c c' h hlt => ?_, fun c c' h hlt => ?_⟩
  · obtain ⟨c₁, hok, ⟨hpos, -⟩ | ⟨-, hlong⟩⟩ := escape_eq_ok size s c
    · obtain ⟨c₂, hok', hpos'⟩ := hclose.fits c₁ (by omega)
      refine ⟨c₂, Except.bind_eq_ok.mpr ⟨c₁, hok, hok'⟩, ?_⟩
      rw [hpos', hpos, List.length_append, Nat.add_assoc]
    · omega
  · obtain ⟨c₁, hok, hok'⟩ := Except.bind_eq_ok.mp h
    obtain ⟨c₂, hok₂, hend⟩ := escape_eq_ok size s c
    obtain rfl := Except.ok.inj (hok.symm.trans hok₂)
    rcases hend with ⟨hpos, hcontent⟩ | ⟨-, hlong⟩
    · rw [hclose.content _ _ hok' (by omega), hcontent,
        List.append_assoc]
    · omega
  · obtain ⟨c₁, hok, hok'⟩ := Except.bind_eq_ok.mp h
    obtain ⟨c₂, hok₂, hend⟩ := escape_eq_ok size s c
    obtain rfl := Except.ok.inj (hok.symm.trans hok₂)
    refine hclose.behind _ _ hok' ?_
    rcases hend with ⟨hpos, -⟩ | ⟨hend, -⟩ <;> omega

/-- The whole text. -/
lemma writes_toJson (obset : ObligationSet) :
    Writes size (fun c => snprintf size (text "\x7b\"version\":1,\"obligations\":[") c
        >>= fun c => separated size (text ",") (writeObligation kindValue size) obset.items c
        >>= snprintf size (text "]\x7d"))
      (jsonText kindValue obset) :=
  (Writes.snprintf _).andThen ((Writes.separated fun _ _ =>
    (Writes.snprintf _).andThen (writes_escape _)).andThen (Writes.snprintf _))

/-- The function writes inside its buffer, and returns a length inside it. -/
def StaysInside (obset : ObligationSet) (buf : ℕ → UInt8) : Prop :=
  ∃ c, sovObsetToJson kindValue obset buf = .ok c ∧ c.pos ≤ obset.bufSize

lemma staysInside_iff (obset : ObligationSet) (buf : ℕ → UInt8) :
    StaysInside kindValue obset buf ↔ jsonLength kindValue obset ≤ obset.bufSize := by
  rw [← length_jsonText]
  exact (writes_toJson kindValue obset).inside_iff buf

/-- Every set the calls build is written inside its buffer exactly if the estimate is not below
the bytes it needs. -/
theorem toJson_inside_iff (calls : List Call) (buf : ℕ → UInt8) :
    StaysInside kindValue (after calls) buf
      ↔ jsonLength kindValue (after calls) ≤ (after calls).bufSize :=
  staysInside_iff kindValue (after calls) buf

/-- Sixteen descriptions of quotes. -/
def quotes : List Call := List.replicate 16 (.addType (some (List.replicate 255 34)) 0 0)

lemma added_quotes : added quotes = List.replicate 16 ⟨.type, 0, 0, List.replicate 255 34⟩ := by
  have hentry : Call.entry (.addType (some (List.replicate 255 34)) 0 0)
      = some ⟨.type, 0, 0, List.replicate 255 34⟩ := by
    rw [Call.entry, cString_replicate (by decide), describe, List.take_replicate]
    rfl
  rw [added, quotes, List.filterMap_replicate_of_some hentry]

lemma bytes_of_mem_quotes {obl : Obligation} (h : obl ∈ (after quotes).items) :
    obl.bytes = List.replicate 255 34 := by
  have hmem := List.mem_map_of_mem (f := Obligation.about) h
  rw [(stores_after quotes).about, added_quotes, List.map_replicate] at hmem
  have habout := List.eq_of_mem_replicate hmem
  have hdescription : obl.description = some (List.replicate 255 34) :=
    congrArg (fun about => about.2.2.2) habout
  rw [Obligation.bytes, hdescription, Option.getD_some]

/-- They do not fit, whatever the values of the kinds. -/
theorem escapes_leave_buffer :
    ¬ ∃ kindValue buf, StaysInside kindValue (after quotes) buf := by
  rintro ⟨kindValue, buf, h⟩
  have hle := (staysInside_iff kindValue (after quotes) buf).mp h
  have hitem : ∀ obl ∈ (after quotes).items, 564 ≤ obligationLength kindValue obl :=
    fun obl hobl => by
      rw [obligationLength, bytes_of_mem_quotes hobl, List.countP_replicate,
        if_pos (show needsEscape 34 = true from rfl), List.length_replicate]
      omega
  have hcount : (after quotes).count = 16 := by
    rw [(stores_after quotes).count_eq, added_quotes, List.length_replicate]
  have hsum : 16 * 564 ≤ ((after quotes).items.map (obligationLength kindValue)).sum := by
    have hbound := List.card_nsmul_le_sum ((after quotes).items.map (obligationLength kindValue))
      564 (by simpa using hitem)
    rwa [List.length_map, ← ObligationSet.count, hcount, smul_eq_mul] at hbound
  rw [jsonLength, ObligationSet.bufSize, hcount] at hle
  omega

end Obligations

end SovereignBus
