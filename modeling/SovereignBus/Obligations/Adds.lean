import SovereignBus.Library.Machine
import SovereignBus.Obligations.Store

/-!
All functions of `src/obligations/sov_obligations.c` that change an obligation set.

* `Heap`: the allocations of the other functions; `insertObligation` is what every
  `sov_obset_add_*` does behind the test of its arguments.
* `sovObsetAddSolve`, `sovObsetAddLstsq`, `sovObsetAddType`, `sovObsetAddProp`,
  `sovObsetGet`, `sovObsetSetWitness`: the functions of the source.
* `Entry`: what a call adds; `Stores`: a set that holds what was added.
* `adds_are_stored`: this is so after every sequence of calls.
-/

namespace SovereignBus

namespace Obligations

open Machine

/-- What else is allocated: the parameters of the obligation with an identifier. -/
structure Heap extends Memory where
  params : UInt32 → Bool

/-- Every allocation succeeds. -/
def Heap.enough : Heap where
  obligationSet := true
  items _ := true
  description _ := true
  params _ := true

/-- The bytes of a C string. -/
def cString (bytes : List UInt8) : List UInt8 := bytes.takeWhile (· ≠ 0)

/-- What `snprintf` leaves of a text in a buffer of `size` bytes. -/
def describe (size : ℕ) (s : List UInt8) : List UInt8 := s.take (size - 1)

/-- A new obligation with a description in a buffer of `size` bytes. -/
def insertObligation (heap : Heap) (obset : ObligationSet) (kind : ObligationKind) (size : ℕ)
    (description : List UInt8) (params : List UInt64) (pcStart pcEnd : UInt32) :
    Int32 × ObligationSet :=
  match obset.expand heap.toMemory with
  | none => (-1, obset)
  | some obset =>
      let description :=
        if heap.description obset.nextId then some (describe size description) else none
      let params := if heap.params obset.nextId then params else []
      let obl : Obligation := ⟨obset.nextId, kind, pcStart, pcEnd, description, params⟩
      (obset.nextId.toInt32,
        { obset with items := obset.items ++ [obl], nextId := obset.nextId + 1 })

/-- `Invariant at PC %u`. -/
def invText (pcStart : UInt32) : List UInt8 := text ("Invariant at PC " ++ toString pcStart.toNat)

/-- `%zu x %zu system at PC %u`. -/
def systemText (m n : UInt64) (pcStart : UInt32) : List UInt8 :=
  text (toString m.toNat ++ " x " ++ toString n.toNat ++ " system at PC "
    ++ toString pcStart.toNat)

lemma sovObsetAddInv_eq (heap : Heap) (obset : ObligationSet) (pcStart pcEnd : UInt32) :
    sovObsetAddInv heap.toMemory obset pcStart pcEnd
      = insertObligation heap obset .inv 64 (invText pcStart) [] pcStart pcEnd := by
  simp only [sovObsetAddInv, insertObligation, ite_self]
  rfl

def sovObsetAddSolve (heap : Heap) (obset : ObligationSet) (A b : Option (List Int64))
    (m n : UInt64) (pcStart pcEnd : UInt32) : Int32 × ObligationSet :=
  match A, b with
  | some _, some _ =>
      insertObligation heap obset .solve 128
        (text "SOLVE_OK: verify A*x=b for " ++ systemText m n pcStart) [m, n] pcStart pcEnd
  | _, _ => (-1, obset)

def sovObsetAddLstsq (heap : Heap) (obset : ObligationSet) (A b : Option (List Int64))
    (m n : UInt64) (pcStart pcEnd : UInt32) : Int32 × ObligationSet :=
  match A, b with
  | some _, some _ =>
      insertObligation heap obset .lstsq 128
        (text "LSTSQ_OK: verify A^T(Ax-b)=0 for " ++ systemText m n pcStart) [m, n] pcStart pcEnd
  | _, _ => (-1, obset)

def sovObsetAddType (heap : Heap) (obset : ObligationSet) (description : Option (List UInt8))
    (pcStart pcEnd : UInt32) : Int32 × ObligationSet :=
  match description with
  | some description =>
      insertObligation heap obset .type 256 (cString description) [] pcStart pcEnd
  | none => (-1, obset)

def sovObsetAddProp (heap : Heap) (obset : ObligationSet) (property : Option (List UInt8))
    (pcStart pcEnd : UInt32) : Int32 × ObligationSet :=
  match property with
  | some property =>
      insertObligation heap obset .prop 256 (text "Property: " ++ cString property) []
        pcStart pcEnd
  | none => (-1, obset)

/-- `sov_obset_get`. -/
def sovObsetGet (obset : ObligationSet) (id : UInt32) : Option Obligation :=
  obset.items.find? fun obl => obl.id == id

/-- `sov_obset_set_witness`, when its parameters are reallocated: the witness and its
length behind the other parameters. -/
def sovObsetSetWitness (obset : ObligationSet) (id : UInt32) (witness witnessLen : UInt64) :
    Int32 × ObligationSet :=
  match sovObsetGet obset id with
  | none => (-1, obset)
  | some _ =>
      (0,
        { obset with
          items := obset.items.modify (obset.items.findIdx fun obl => obl.id == id) fun obl =>
            { obl with params := obl.params ++ [witness, witnessLen] } })

/-- The calls on a set. -/
inductive Call where
  | addInv (pcStart pcEnd : UInt32)
  | addSolve (A b : Option (List Int64)) (m n : UInt64) (pcStart pcEnd : UInt32)
  | addLstsq (A b : Option (List Int64)) (m n : UInt64) (pcStart pcEnd : UInt32)
  | addType (description : Option (List UInt8)) (pcStart pcEnd : UInt32)
  | addProp (property : Option (List UInt8)) (pcStart pcEnd : UInt32)
  | setWitness (id : UInt32) (witness witnessLen : UInt64)

/-- One call: what it returns and the set it leaves. -/
def apply (heap : Heap) (obset : ObligationSet) : Call → Int32 × ObligationSet
  | .addInv pcStart pcEnd => sovObsetAddInv heap.toMemory obset pcStart pcEnd
  | .addSolve A b m n pcStart pcEnd => sovObsetAddSolve heap obset A b m n pcStart pcEnd
  | .addLstsq A b m n pcStart pcEnd => sovObsetAddLstsq heap obset A b m n pcStart pcEnd
  | .addType description pcStart pcEnd => sovObsetAddType heap obset description pcStart pcEnd
  | .addProp property pcStart pcEnd => sovObsetAddProp heap obset property pcStart pcEnd
  | .setWitness id witness witnessLen => sovObsetSetWitness obset id witness witnessLen

/-- A new set. -/
def ObligationSet.new : ObligationSet := ⟨[], 10, 0⟩

/-- The set after calls on a new one, with enough memory. -/
def after (calls : List Call) : ObligationSet := (exec (apply .enough) .new calls).2

/-! ### What a call adds -/

/-- What an obligation is about. -/
structure Entry where
  kind : ObligationKind
  pcStart : UInt32
  pcEnd : UInt32
  description : List UInt8

/-- What an addition adds, unless an argument of it is null. -/
def Call.entry : Call → Option Entry
  | .addInv pcStart pcEnd => some ⟨.inv, pcStart, pcEnd, describe 64 (invText pcStart)⟩
  | .addSolve (some _) (some _) m n pcStart pcEnd =>
      some ⟨.solve, pcStart, pcEnd,
        describe 128 (text "SOLVE_OK: verify A*x=b for " ++ systemText m n pcStart)⟩
  | .addLstsq (some _) (some _) m n pcStart pcEnd =>
      some ⟨.lstsq, pcStart, pcEnd,
        describe 128 (text "LSTSQ_OK: verify A^T(Ax-b)=0 for " ++ systemText m n pcStart)⟩
  | .addType (some description) pcStart pcEnd =>
      some ⟨.type, pcStart, pcEnd, describe 256 (cString description)⟩
  | .addProp (some property) pcStart pcEnd =>
      some ⟨.prop, pcStart, pcEnd, describe 256 (text "Property: " ++ cString property)⟩
  | _ => none

/-- `setWitness` is the only call that is no addition. -/
def Call.isAdd : Call → Bool
  | .setWitness .. => false
  | _ => true

/-- What was added. -/
def added (calls : List Call) : List Entry := calls.filterMap Call.entry

def Obligation.about (obl : Obligation) : ObligationKind × UInt32 × UInt32 × Option (List UInt8) :=
  (obl.kind, obl.startPc, obl.endPc, obl.description)

def Entry.about (e : Entry) : ObligationKind × UInt32 × UInt32 × Option (List UInt8) :=
  (e.kind, e.pcStart, e.pcEnd, some e.description)

/-- A set that holds what was added, under the identifiers from 0 on. -/
structure Stores (entries : List Entry) (obset : ObligationSet) : Prop where
  about : obset.items.map Obligation.about = entries.map Entry.about
  ids : obset.ids = (List.range entries.length).map UInt32.ofNat
  nextId : obset.nextId = UInt32.ofNat entries.length
  capacity : obset.count ≤ obset.capacity
  positive : 0 < obset.capacity

/-! ### One call -/

lemma expand_enough (obset : ObligationSet) :
    obset.expand Heap.enough.toMemory
      = some { obset with
          capacity :=
            if obset.count ≥ obset.capacity then obset.capacity * 2 else obset.capacity } := by
  rw [ObligationSet.expand]
  split
  · rfl
  · rfl

lemma insertObligation_enough (obset : ObligationSet) (kind : ObligationKind) (size : ℕ)
    (description : List UInt8) (params : List UInt64) (pcStart pcEnd : UInt32) :
    insertObligation .enough obset kind size description params pcStart pcEnd
      = (obset.nextId.toInt32,
        { items := obset.items ++ [⟨obset.nextId, kind, pcStart, pcEnd,
            some (describe size description), params⟩]
          capacity :=
            if obset.count ≥ obset.capacity then obset.capacity * 2 else obset.capacity
          nextId := obset.nextId + 1 }) := by
  simp only [insertObligation, expand_enough]
  rfl

/-- An addition with no null argument is accepted. -/
lemma apply_of_entry {c : Call} {e : Entry} (h : c.entry = some e) (obset : ObligationSet) :
    ∃ size description params, e.description = describe size description
      ∧ apply .enough obset c
        = insertObligation .enough obset e.kind size description params e.pcStart e.pcEnd := by
  cases c with
  | addInv pcStart pcEnd =>
      obtain rfl := Option.some.inj h
      exact ⟨_, _, _, rfl, sovObsetAddInv_eq _ _ _ _⟩
  | addSolve A b m n pcStart pcEnd =>
      cases A <;> cases b <;> simp only [Call.entry, reduceCtorEq, Option.some.injEq] at h
      subst h
      exact ⟨_, _, _, rfl, rfl⟩
  | addLstsq A b m n pcStart pcEnd =>
      cases A <;> cases b <;> simp only [Call.entry, reduceCtorEq, Option.some.injEq] at h
      subst h
      exact ⟨_, _, _, rfl, rfl⟩
  | addType description pcStart pcEnd =>
      cases description <;> simp only [Call.entry, reduceCtorEq, Option.some.injEq] at h
      subst h
      exact ⟨_, _, _, rfl, rfl⟩
  | addProp property pcStart pcEnd =>
      cases property <;> simp only [Call.entry, reduceCtorEq, Option.some.injEq] at h
      subst h
      exact ⟨_, _, _, rfl, rfl⟩
  | setWitness id witness witnessLen => simp [Call.entry] at h

/-- An addition with a null argument changes nothing. -/
lemma apply_of_entry_none {c : Call} (hadd : c.isAdd = true) (h : c.entry = none)
    (obset : ObligationSet) : apply .enough obset c = (-1, obset) := by
  cases c with
  | addInv pcStart pcEnd => simp [Call.entry] at h
  | addSolve A b m n pcStart pcEnd => cases A <;> cases b <;> simp_all [Call.entry] <;> rfl
  | addLstsq A b m n pcStart pcEnd => cases A <;> cases b <;> simp_all [Call.entry] <;> rfl
  | addType description pcStart pcEnd => cases description with
      | none => rfl
      | some description => simp [Call.entry] at h
  | addProp property pcStart pcEnd => cases property with
      | none => rfl
      | some property => simp [Call.entry] at h
  | setWitness id witness witnessLen => simp [Call.isAdd] at hadd

lemma stores_new : Stores [] .new where
  about := rfl
  ids := rfl
  nextId := rfl
  capacity := by simp [ObligationSet.new, ObligationSet.count]
  positive := by simp [ObligationSet.new]

variable {entries : List Entry} {obset : ObligationSet}

lemma Stores.count_eq (h : Stores entries obset) : obset.count = entries.length := by
  rw [← length_ids, h.ids, List.length_map, List.length_range]

/-- Room for one more item. -/
lemma Stores.room (h : Stores entries obset) :
    obset.count < if obset.count ≥ obset.capacity then obset.capacity * 2 else obset.capacity := by
  have hcapacity := h.capacity
  have hpositive := h.positive
  split <;> omega

/-- An accepted addition. -/
lemma Stores.insert (h : Stores entries obset) (kind : ObligationKind) (size : ℕ)
    (description : List UInt8) (params : List UInt64) (pcStart pcEnd : UInt32) :
    Stores (entries ++ [⟨kind, pcStart, pcEnd, describe size description⟩])
      (insertObligation .enough obset kind size description params pcStart pcEnd).2 := by
  have hids := h.ids
  have hnext := h.nextId
  rw [insertObligation_enough]
  refine ⟨?_, ?_, ?_, ?_, ?_⟩
  · rw [List.map_append, List.map_append, h.about]
    rfl
  · rw [ObligationSet.ids, List.map_append, ← ObligationSet.ids, hids, List.length_append,
      List.length_singleton, List.range_succ, List.map_append, hnext]
    rfl
  · simp [hnext]
  · rw [ObligationSet.count, List.length_append]
    exact h.room
  · exact lt_of_le_of_lt (Nat.zero_le _) h.room

/-- What a change of an item does not touch. -/
lemma map_modify_of_fixed {A B : Type*} {f : A → A} {g : A → B} (l : List A) (i : ℕ)
    (h : ∀ a, g (f a) = g a) : (l.modify i f).map g = l.map g := by
  induction l generalizing i with
  | nil => simp
  | cons a l ih => cases i <;> simp [h, ih]

/-- A witness changes nothing that was added. -/
lemma Stores.setWitness (h : Stores entries obset) (id : UInt32) (witness witnessLen : UInt64) :
    Stores entries (sovObsetSetWitness obset id witness witnessLen).2 := by
  rw [sovObsetSetWitness]
  cases sovObsetGet obset id with
  | none => exact h
  | some obl =>
      refine ⟨?_, ?_, h.nextId, ?_, h.positive⟩
      · rw [← h.about]
        exact map_modify_of_fixed _ _ fun _ => rfl
      · rw [← h.ids]
        exact map_modify_of_fixed _ _ fun _ => rfl
      · simpa [ObligationSet.count] using h.capacity

lemma Stores.apply (h : Stores entries obset) (c : Call) :
    Stores (entries ++ c.entry.toList) (apply .enough obset c).2 := by
  cases hentry : c.entry with
  | some e =>
      obtain ⟨size, description, params, hdescription, happly⟩ := apply_of_entry hentry obset
      have hinsert := h.insert e.kind size description params e.pcStart e.pcEnd
      rw [← hdescription, ← happly] at hinsert
      exact hinsert
  | none =>
      rw [Option.toList_none, List.append_nil]
      cases hadd : c.isAdd with
      | true =>
          rw [apply_of_entry_none hadd hentry]
          exact h
      | false =>
          cases c <;> simp only [Call.isAdd, reduceCtorEq] at hadd
          exact h.setWitness _ _ _

/-! ### Sequences of calls -/

lemma after_concat (calls : List Call) (c : Call) :
    after (calls ++ [c]) = (apply .enough (after calls) c).2 := by
  rw [after, exec_concat]
  rfl

lemma added_concat (calls : List Call) (c : Call) :
    added (calls ++ [c]) = added calls ++ c.entry.toList := by
  rw [added, List.filterMap_append]
  cases h : c.entry <;> simp [added, h]

/-- Every sequence of calls leaves a set that holds what was added. -/
theorem stores_after (calls : List Call) : Stores (added calls) (after calls) := by
  induction calls using List.reverseRecOn with
  | nil => exact stores_new
  | append_singleton calls c ih =>
      rw [after_concat, added_concat]
      exact ih.apply c

lemma added_mono {pre calls : List Call} (h : pre <+: calls) :
    (added pre).length ≤ (added calls).length :=
  (h.sublist.filterMap Call.entry).length_le

/-- The identifier an accepted addition returns. -/
lemma Stores.apply_fst (h : Stores entries obset) (hlt : entries.length < 2 ^ 31) {c : Call}
    {e : Entry} (hentry : c.entry = some e) :
    (Obligations.apply .enough obset c).1.toInt = entries.length := by
  obtain ⟨size, description, params, -, happly⟩ := apply_of_entry hentry obset
  have hnat : obset.nextId.toNat = entries.length := by
    rw [h.nextId, UInt32.toNat_ofNat_of_lt' (by rw [UInt32.size]; omega)]
  rw [happly, insertObligation_enough, ← hnat]
  exact toInt_toInt32 (by omega)

/-- The obligation under an identifier. -/
lemma Stores.get (h : Stores entries obset) (hlt : entries.length ≤ 2 ^ 32) {i : ℕ} {e : Entry}
    (hi : entries[i]? = some e) :
    ∃ obl, sovObsetGet obset (UInt32.ofNat i) = some obl ∧ obl.id = UInt32.ofNat i
      ∧ obl.about = e.about := by
  obtain ⟨hlen, rfl⟩ := List.getElem?_eq_some_iff.mp hi
  have hcount : obset.items.length = entries.length := h.count_eq
  have hids : ∀ j (hj : j < obset.items.length), obset.items[j].id = UInt32.ofNat j :=
    fun j hj => by
      have hget := congrArg (·[j]?) h.ids
      simpa [ObligationSet.ids, hj, hcount ▸ hj] using hget
  have habout : obset.items[i].about = entries[i].about := by
    have hget := congrArg (·[i]?) h.about
    simpa [hcount, hlen] using hget
  refine ⟨obset.items[i], ?_, hids i _, habout⟩
  rw [sovObsetGet, List.find?_eq_some_iff_getElem]
  refine ⟨by simp [hids], i, by omega, rfl, fun j hj => ?_⟩
  simp only [hids, Bool.not_eq_true', beq_eq_false_iff_ne, ne_eq]
  intro heq
  have hnat := congrArg UInt32.toNat heq
  rw [UInt32.toNat_ofNat_of_lt' (by rw [UInt32.size]; omega),
    UInt32.toNat_ofNat_of_lt' (by rw [UInt32.size]; omega)] at hnat
  omega

/-- While fewer than `2 ^ 31` obligations are added, there is always room for the items, the
additions return the identifiers from 0 on or refuse a null argument without a trace, and
every obligation is found under its identifier as it was added. -/
theorem adds_are_stored (calls : List Call) (h : (added calls).length < 2 ^ 31) :
    (∀ pre, pre <+: calls → (after pre).count ≤ (after pre).capacity)
      ∧ (∀ pre c e, pre ++ [c] <+: calls → c.entry = some e →
          (apply .enough (after pre) c).1.toInt = (added pre).length)
      ∧ (∀ pre c, pre ++ [c] <+: calls → c.isAdd = true → c.entry = none →
          apply .enough (after pre) c = (-1, after pre))
      ∧ ∀ pre i e, pre <+: calls → (added pre)[i]? = some e →
          ∃ obl, sovObsetGet (after calls) (UInt32.ofNat i) = some obl
            ∧ obl.id = UInt32.ofNat i ∧ obl.about = e.about := by
  refine ⟨fun pre _ => (stores_after pre).capacity, fun pre c e hpre hentry => ?_,
    fun pre c _ hadd hentry => apply_of_entry_none hadd hentry _, fun pre i e hpre hi => ?_⟩
  · have hle := added_mono ((List.prefix_append pre [c]).trans hpre)
    exact (stores_after pre).apply_fst (by omega) hentry
  · obtain ⟨rest, rfl⟩ := hpre
    refine (stores_after _).get (by omega) ?_
    obtain ⟨hlen, rfl⟩ := List.getElem?_eq_some_iff.mp hi
    rw [added, List.filterMap_append, ← added, List.getElem?_append_left hlen]
    exact hi

/-- The addition between the two others is refused. -/
theorem adds_are_stored_refused :
    ∃ obl, sovObsetGet (after [.addInv 1 2, .addType none 3 4, .addType (some [65]) 5 6]) 1
        = some obl
      ∧ obl.id = 1 ∧ obl.about = (.type, 5, 6, some [65]) :=
  (adds_are_stored [.addInv 1 2, .addType none 3 4, .addType (some [65]) 5 6]
    (by decide)).2.2.2 _ 1 ⟨.type, 5, 6, [65]⟩ List.prefix_rfl rfl

lemma cString_replicate {b : UInt8} (h : b ≠ 0) (n : ℕ) :
    cString (List.replicate n b) = List.replicate n b := by
  rw [cString, List.takeWhile_replicate, if_pos (by simpa using h)]

/-- A description of 256 bytes loses its last byte. -/
theorem long_description_cut :
    sovObsetGet (after [.addType (some (List.replicate 256 97)) 3 5]) 0
        = some ⟨0, .type, 3, 5, some (List.replicate 255 97), []⟩
      ∧ cString (List.replicate 256 97) ≠ List.replicate 255 97 := by
  have hcString := cString_replicate (show (97 : UInt8) ≠ 0 by decide) 256
  constructor
  · rw [after, exec, apply, sovObsetAddType, insertObligation_enough, hcString, describe,
      List.take_replicate]
    rfl
  · rw [hcString, Ne, List.replicate_inj]
    omega

end Obligations

end SovereignBus
