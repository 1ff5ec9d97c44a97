import Mathlib

/-!
The obligation sets of `src/obligations/sov_obligations.c`, as far as the type
inference uses them.

* `Obligation`, `ObligationSet`: the records of the header; `Memory` tells which
  allocations succeed.
* `sovObsetNew`, `sovObsetAddInv`: the functions of the source.
* `ids`: the identifiers of a set. `sovObsetAddInv_ids` says what one more
  obligation does to them, `sovObsetAddInv_nonneg` when it is not refused.
-/

namespace SovereignBus

namespace Obligations

inductive ObligationKind where
  | inv
  | solve
  | lstsq
  | type
  | prop
  deriving DecidableEq

/-- `Obligation`; a description is `NULL` or its bytes. -/
structure Obligation where
  id : UInt32
  kind : ObligationKind
  startPc : UInt32
  endPc : UInt32
  description : Option (List UInt8)
  params : List UInt64

/-- `ObligationSet`; `count` is the number of items. -/
structure ObligationSet where
  items : List Obligation
  capacity : ℕ
  nextId : UInt32

/-- Which allocations succeed: the set with its first items, the items at a
capacity, and the description of the obligation with an identifier. -/
structure Memory where
  obligationSet : Bool
  items : ℕ → Bool
  description : UInt32 → Bool

/-- `count`. -/
def ObligationSet.count (obset : ObligationSet) : ℕ := obset.items.length

/-- `sov_obset_new`. -/
def sovObsetNew (mem : Memory) : Option ObligationSet :=
  if mem.obligationSet then some ⟨[], 10, 0⟩ else none

/-- The test for room every `sov_obset_add_*` starts with. -/
def ObligationSet.expand (mem : Memory) (obset : ObligationSet) : Option ObligationSet :=
  if obset.count ≥ obset.capacity then
    if mem.items (obset.capacity * 2) then some { obset with capacity := obset.capacity * 2 }
    else none
  else some obset

/-- The bytes of an ASCII text. -/
def text (s : String) : List UInt8 := s.toList.map fun c => UInt8.ofNat c.toNat

/-- The buffer of 64 bytes that `snprintf` fills with `Invariant at PC %u`. -/
def invDescription (pcStart : UInt32) : List UInt8 :=
  (text ("Invariant at PC " ++ toString pcStart.toNat)).take 63

/-- `sov_obset_add_inv`: the identifier or -1, and the set it leaves. -/
def sovObsetAddInv (mem : Memory) (obset : ObligationSet) (pcStart pcEnd : UInt32) :
    Int32 × ObligationSet :=
  match obset.expand mem with
  | none => (-1, obset)
  | some obset =>
      let description :=
        if mem.description obset.nextId then some (invDescription pcStart) else none
      let obl : Obligation := ⟨obset.nextId, .inv, pcStart, pcEnd, description, []⟩
      (obset.nextId.toInt32,
        { obset with items := obset.items ++ [obl], nextId := obset.nextId + 1 })

/-! ### Identifiers -/

/-- The identifiers of a set, in the order of its items. -/
def ObligationSet.ids (obset : ObligationSet) : List UInt32 := obset.items.map Obligation.id

@[simp] lemma length_ids (obset : ObligationSet) : obset.ids.length = obset.count := by
  simp [ObligationSet.ids, ObligationSet.count]

/-- Room for one more item changes neither the items nor the next identifier. -/
lemma expand_eq_some {mem : Memory} {obset obset' : ObligationSet}
    (h : obset.expand mem = some obset') :
    obset'.items = obset.items ∧ obset'.nextId = obset.nextId := by
  rw [ObligationSet.expand] at h
  split_ifs at h <;> obtain rfl := Option.some.inj h <;> exact ⟨rfl, rfl⟩

/-- What an addition that is not refused leaves. -/
lemma sovObsetAddInv_ids {mem : Memory} {obset : ObligationSet} {pcStart pcEnd : UInt32}
    (h : 0 ≤ (sovObsetAddInv mem obset pcStart pcEnd).1) :
    (sovObsetAddInv mem obset pcStart pcEnd).2.ids = obset.ids ++ [obset.nextId]
      ∧ (sovObsetAddInv mem obset pcStart pcEnd).2.nextId = obset.nextId + 1 := by
  cases hex : obset.expand mem with
  | none =>
      simp only [sovObsetAddInv, hex] at h
      exact absurd h (by decide)
  | some obset' =>
      obtain ⟨hitems, hnext⟩ := expand_eq_some hex
      simp [sovObsetAddInv, hex, ObligationSet.ids, hitems, hnext]

lemma toInt_toInt32 {x : UInt32} (h : x.toNat < 2 ^ 31) : x.toInt32.toInt = x.toNat :=
  BitVec.toInt_eq_toNat_of_lt (x := x.toBitVec) (by rw [UInt32.toNat_toBitVec]; omega)

lemma toInt32_nonneg {x : UInt32} (h : x.toNat < 2 ^ 31) : 0 ≤ x.toInt32 := by
  rw [Int32.le_iff_toInt_le, toInt_toInt32 h]
  exact Int.natCast_nonneg _

/-- As long as there is memory, only an identifier from `2 ^ 31` on is refused. -/
lemma sovObsetAddInv_nonneg {mem : Memory} (hmem : ∀ n, mem.items n = true) {obset : ObligationSet}
    (h : obset.nextId.toNat < 2 ^ 31) (pcStart pcEnd : UInt32) :
    0 ≤ (sovObsetAddInv mem obset pcStart pcEnd).1 := by
  cases hex : obset.expand mem with
  | none =>
      rw [ObligationSet.expand, if_pos (hmem _)] at hex
      split_ifs at hex
  | some obset' =>
      simp only [sovObsetAddInv, hex]
      rw [(expand_eq_some hex).2]
      exact toInt32_nonneg h

end Obligations

end SovereignBus
