import SovereignBus.Obligations.Adds

/-!
The witnesses of `src/obligations/sov_obligations.c`.

* `Parameters`: an obligation set with the parameters that a failed reallocation has
  left `NULL`; `perform` is a call on it and `sovObsetGetWitness` the lookup.
* `witnesses`, `dimensions`: the witnesses a run has set for an identifier, and what
  its obligation was added with. `run_params` says that its parameters are both.
* `get_witness_last_iff`: the lookup finds the last witness unless it finds dimensions.
-/

namespace SovereignBus

namespace Obligations

open Machine

/-! ### The functions -/

/-- An obligation set. A failed `realloc` leaves the parameters of an obligation `NULL`
without changing their number. -/
structure Parameters where
  obset : ObligationSet
  lost : UInt32 → Bool

/-- `sov_obset_set_witness`, where `realloc` says whether the parameters are reallocated. -/
def setWitness (s : Parameters) (id : UInt32) (witness witnessLen : UInt64) (realloc : Bool) :
    Int32 × Parameters :=
  match sovObsetGet s.obset id with
  | none => (-1, s)
  | some _ =>
      if realloc then
        (0, ⟨(sovObsetSetWitness s.obset id witness witnessLen).2,
          Function.update s.lost id false⟩)
      else (-1, { s with lost := Function.update s.lost id true })

/-- One call, with the outcome of its `realloc`. -/
def perform (heap : Heap) (s : Parameters) : Call × Bool → Int32 × Parameters
  | (.setWitness id witness witnessLen, realloc) => setWitness s id witness witnessLen realloc
  | (c, _) => ((apply heap s.obset c).1, { s with obset := (apply heap s.obset c).2 })

/-- A new set. -/
def Parameters.new : Parameters := ⟨.new, fun _ => false⟩

/-- `sov_obset_get_witness`: the pointer and `*out_len`. `none` is a read through `NULL`. -/
def sovObsetGetWitness (s : Parameters) (id : UInt32) : Option (UInt64 × UInt64) :=
  match sovObsetGet s.obset id with
  | none => some (0, 0)
  | some obl =>
      if obl.params.length < 2 then some (0, 0)
      else if s.lost id then none
      else some (obl.params.getD (obl.params.length - 2) 0,
        obl.params.getD (obl.params.length - 1) 0)

/-! ### What a run sets -/

/-- The witnesses that were set for an identifier: those of the calls that returned 0. -/
def witnesses (id : UInt32) (hist : List ((Call × Bool) × Int32)) : List (UInt64 × UInt64) :=
  hist.filterMap fun
    | ((.setWitness i witness witnessLen, _), out) =>
        if i = id ∧ out = 0 then some (witness, witnessLen) else none
    | _ => none

/-- The last of them, or `NULL` and 0. -/
def lastWitness (id : UInt32) (hist : List ((Call × Bool) × Int32)) : UInt64 × UInt64 :=
  (witnesses id hist).getLast?.getD (0, 0)

/-- The dimensions an addition stores in the parameters. -/
def Call.dims : Call → List UInt64
  | .addSolve _ _ m n _ _ => [m, n]
  | .addLstsq _ _ m n _ _ => [m, n]
  | _ => []

/-- The dimensions stored with an identifier, by the addition it comes from. -/
def dimensions (heap : Heap) (id : UInt32) (s : Parameters) : List (Call × Bool) → List UInt64
  | [] => []
  | c :: calls =>
      let t := (perform heap s c).2
      if (sovObsetGet s.obset id).isNone ∧ (sovObsetGet t.obset id).isSome then
        if heap.params id then c.1.dims else []
      else dimensions heap id t calls

/-- Pointers and lengths in the parameters. -/
def flatten (ws : List (UInt64 × UInt64)) : List UInt64 := ws.flatMap fun w => [w.1, w.2]

lemma flatten_concat (ws : List (UInt64 × UInt64)) (w : UInt64 × UInt64) :
    flatten (ws ++ [w]) = flatten ws ++ [w.1, w.2] := by
  simp [flatten]

lemma dims_cases (heap : Heap) (id : UInt32) (s : Parameters) (calls : List (Call × Bool)) :
    dimensions heap id s calls = [] ∨ ∃ m n, dimensions heap id s calls = [m, n] := by
  induction calls generalizing s with
  | nil => exact .inl rfl
  | cons c calls ih =>
      rw [dimensions]
      split_ifs
      · cases c.1 <;> simp [Call.dims]
      · exact .inl rfl
      · exact ih _

/-! ### One call -/

section Lists

variable {A : Type*} {p : A → Bool} {f : A → A}

/-- A change that does not decide what is found, made to what is not found. -/
lemma find?_modify_of_not (hf : ∀ a, p (f a) = p a) (l : List A) (k : ℕ)
    (hk : ∀ a, l[k]? = some a → p a = false) : (l.modify k f).find? p = l.find? p := by
  induction l generalizing k with
  | nil => simp
  | cons a l ih =>
      cases k with
      | zero =>
          have ha : p a = false := hk a rfl
          simp [List.modify_zero_cons, hf, ha]
      | succ k =>
          rw [List.modify_succ_cons, List.find?_cons, List.find?_cons, ih k hk]

/-- A change of the first item that is found. -/
lemma find?_modify_findIdx (hf : ∀ a, p (f a) = p a) (l : List A) :
    (l.modify (l.findIdx p) f).find? p = (l.find? p).map f := by
  induction l with
  | nil => simp
  | cons a l ih =>
      cases ha : p a with
      | true => simp [List.findIdx_cons, ha, hf]
      | false => simp [List.findIdx_cons, ha, ih]

end Lists

variable {heap : Heap} {s : Parameters} {id : UInt32}

lemma sovObsetSetWitness_get {obset : ObligationSet} {i : UInt32} {obl : Obligation}
    (hi : sovObsetGet obset i = some obl) (witness witnessLen : UInt64) :
    sovObsetGet (sovObsetSetWitness obset i witness witnessLen).2 id
      = if i = id then some { obl with params := obl.params ++ [witness, witnessLen] }
        else sovObsetGet obset id := by
  let f : Obligation → Obligation := fun o => { o with params := o.params ++ [witness, witnessLen] }
  have hf : ∀ j o, ((f o).id == j) = (o.id == j) := fun _ _ => rfl
  have hitems : (sovObsetSetWitness obset i witness witnessLen).2.items
      = obset.items.modify (obset.items.findIdx fun o => o.id == i) f := by
    rw [sovObsetSetWitness, hi]
  rw [sovObsetGet, hitems]
  split_ifs with hid
  · subst hid
    rw [find?_modify_findIdx (hf i), ← sovObsetGet, hi]
    rfl
  · refine find?_modify_of_not (hf id) _ _ fun o ho => ?_
    rw [← List.find?_eq_getElem?_findIdx] at ho
    have hfound : o.id = i := by simpa using List.find?_some ho
    simpa [hfound] using hid

/-- What an addition does to what is found: nothing, or there is a new obligation with the
dimensions of the call. -/
lemma apply_get {c : Call} (hadd : c.isAdd = true) (obset : ObligationSet) :
    sovObsetGet (apply heap obset c).2 id = sovObsetGet obset id
      ∨ sovObsetGet obset id = none
        ∧ ∃ obl, sovObsetGet (apply heap obset c).2 id = some obl
          ∧ obl.params = if heap.params id then c.dims else [] := by
  have hinsert : ∀ kind size description params pcStart pcEnd,
      sovObsetGet (insertObligation heap obset kind size description params pcStart pcEnd).2 id
          = sovObsetGet obset id
        ∨ sovObsetGet obset id = none ∧ ∃ obl,
          sovObsetGet (insertObligation heap obset kind size description params pcStart pcEnd).2 id
              = some obl ∧ obl.params = if heap.params id then params else [] := by
    intro kind size description params pcStart pcEnd
    rw [insertObligation]
    cases hex : obset.expand heap.toMemory with
    | none => exact .inl rfl
    | some obset' =>
        obtain ⟨hitems, -⟩ := expand_eq_some hex
        simp only [sovObsetGet, hitems, List.find?_append, List.find?_singleton]
        cases hfind : obset.items.find? fun o => o.id == id with
        | some obl => exact .inl rfl
        | none =>
            by_cases hid : obset'.nextId = id
            · subst hid
              exact .inr ⟨rfl, by simp⟩
            · simp [hid]
  cases c with
  | addInv pcStart pcEnd =>
      rw [apply, sovObsetAddInv_eq]
      exact hinsert _ _ _ _ _ _
  | addSolve A b m n pcStart pcEnd =>
      cases A <;> cases b <;> first | exact .inl rfl | exact hinsert _ _ _ _ _ _
  | addLstsq A b m n pcStart pcEnd =>
      cases A <;> cases b <;> first | exact .inl rfl | exact hinsert _ _ _ _ _ _
  | addType description pcStart pcEnd =>
      cases description <;> first | exact .inl rfl | exact hinsert _ _ _ _ _ _
  | addProp property pcStart pcEnd =>
      cases property <;> first | exact .inl rfl | exact hinsert _ _ _ _ _ _
  | setWitness i witness witnessLen => simp [Call.isAdd] at hadd

lemma setWitness_get_of_ne {i : UInt32} (hid : i ≠ id) (witness witnessLen : UInt64)
    (realloc : Bool) :
    sovObsetGet (setWitness s i witness witnessLen realloc).2.obset id
      = sovObsetGet s.obset id := by
  rw [setWitness]
  cases hi : sovObsetGet s.obset i with
  | none => rfl
  | some obl =>
      cases realloc with
      | true => exact (sovObsetSetWitness_get hi witness witnessLen).trans (if_neg hid)
      | false => rfl

/-- A call on an obligation that is there: its parameters get the witness it sets. -/
lemma perform_of_some {obl : Obligation} (h : sovObsetGet s.obset id = some obl)
    (c : Call × Bool) :
    sovObsetGet (perform heap s c).2.obset id
      = some { obl with
          params := obl.params ++ flatten (witnesses id [(c, (perform heap s c).1)]) } := by
  have hadd : c.1.isAdd = true → sovObsetGet (apply heap s.obset c.1).2 id = some obl := fun hadd =>
    (apply_get hadd s.obset).elim (fun heq => heq.trans h) fun hnone => by simp [h] at hnone
  obtain ⟨c, realloc⟩ := c
  cases c with
  | setWitness i witness witnessLen =>
      by_cases hid : i = id
      · subst hid
        cases realloc with
        | true =>
            simp only [perform, setWitness, h, ite_true, sovObsetSetWitness_get h]
            simp [witnesses, flatten]
        | false => simp [perform, setWitness, h, witnesses, flatten]
      · rw [perform, setWitness_get_of_ne hid, h]
        simp [witnesses, hid, flatten]
  | _ => simpa [perform, witnesses, flatten] using hadd rfl

/-- A call while there is no obligation: no witness is set, and a new obligation has the
dimensions of the call. -/
lemma perform_of_none (h : sovObsetGet s.obset id = none) (c : Call × Bool) :
    witnesses id [(c, (perform heap s c).1)] = []
      ∧ ∀ obl, sovObsetGet (perform heap s c).2.obset id = some obl →
        obl.params = if heap.params id then c.1.dims else [] := by
  have hadd : c.1.isAdd = true → ∀ obl, sovObsetGet (apply heap s.obset c.1).2 id = some obl →
      obl.params = if heap.params id then c.1.dims else [] := by
    intro hadd obl hobl
    rcases apply_get hadd s.obset with heq | ⟨-, obl', hobl', hparams⟩
    · rw [heq, h] at hobl
      exact absurd hobl (by simp)
    · obtain rfl := Option.some.inj (hobl'.symm.trans hobl)
      exact hparams
  obtain ⟨c, realloc⟩ := c
  cases c with
  | setWitness i witness witnessLen =>
      by_cases hid : i = id
      · subst hid
        simp [perform, setWitness, h, witnesses]
      · rw [perform, setWitness_get_of_ne hid, h]
        simp [witnesses, hid]
  | _ => exact ⟨by simp [witnesses], hadd rfl⟩

/-! ### Runs -/

lemma witnesses_cons (e : (Call × Bool) × Int32) (hist : List ((Call × Bool) × Int32)) :
    witnesses id (e :: hist) = witnesses id [e] ++ witnesses id hist := by
  rw [witnesses, witnesses, witnesses, ← List.filterMap_append, List.singleton_append]

/-- What is found stays there, and its parameters get the witnesses of the run. -/
lemma exec_of_some {obl : Obligation} (h : sovObsetGet s.obset id = some obl)
    (calls : List (Call × Bool)) :
    sovObsetGet (exec (perform heap) s calls).2.obset id
      = some { obl with
          params := obl.params ++ flatten (witnesses id (exec (perform heap) s calls).1) } := by
  induction calls generalizing s obl with
  | nil => simp [h, witnesses, flatten]
  | cons c calls ih =>
      have hcons := @witnesses_cons id (c, (perform heap s c).1)
        (exec (perform heap) (perform heap s c).2 calls).1
      rw [exec, ih (perform_of_some h c), hcons]
      simp [flatten]

/-- The parameters of an obligation are its dimensions and the witnesses of the run. -/
theorem run_params (h : sovObsetGet s.obset id = none) (calls : List (Call × Bool)) :
    match sovObsetGet (exec (perform heap) s calls).2.obset id with
    | none => dimensions heap id s calls = [] ∧ witnesses id (exec (perform heap) s calls).1 = []
    | some obl => obl.params = dimensions heap id s calls
        ++ flatten (witnesses id (exec (perform heap) s calls).1) := by
  induction calls generalizing s with
  | nil => simp [h, witnesses, dimensions]
  | cons c calls ih =>
      obtain ⟨hset, hparams⟩ := @perform_of_none heap _ _ h c
      rw [exec, dimensions, witnesses_cons, hset, List.nil_append]
      cases hc : sovObsetGet (perform heap s c).2.obset id with
      | none =>
          rw [if_neg (by simp)]
          exact ih hc
      | some obl =>
          rw [if_pos (by simp [h]), exec_of_some hc, hparams obl hc]

/-- The run of calls on a new set. -/
def runNew (heap : Heap) (calls : List (Call × Bool)) :
    List ((Call × Bool) × Int32) × Parameters :=
  exec (perform heap) .new calls

/-- The last two of a list that ends in two values. -/
lemma pair_at_end {A : Type*} [Zero A] (front : List A) (a b : A) :
    ¬ (front ++ [a, b]).length < 2
      ∧ (front ++ [a, b]).getD ((front ++ [a, b]).length - 2) 0 = a
      ∧ (front ++ [a, b]).getD ((front ++ [a, b]).length - 1) 0 = b := by
  have hlength : (front ++ [a, b]).length = front.length + 2 := List.length_append
  rw [hlength]
  refine ⟨by omega, ?_, ?_⟩
  · rw [Nat.add_sub_cancel, List.getD_append_right _ _ _ _ le_rfl, Nat.sub_self]
    rfl
  · rw [show front.length + 2 - 1 = front.length + 1 from rfl,
      List.getD_append_right _ _ _ _ (Nat.le_add_right _ 1), Nat.add_sub_cancel_left]
    rfl

/-- The lookup of an identifier whose obligation has no parameters but its dimensions finds
them, and a witness otherwise. -/
lemma getWitness_of_params {obl : Obligation} (hobl : sovObsetGet s.obset id = some obl)
    {dims : List UInt64} (hdims : dims = [] ∨ ∃ m n, dims = [m, n])
    {ws : List (UInt64 × UInt64)} (hparams : obl.params = dims ++ flatten ws) :
    sovObsetGetWitness s id = some (ws.getLast?.getD (0, 0))
      ↔ if ws = [] then dims = [] ∨ dims = [0, 0] ∧ s.lost id = false else s.lost id = false := by
  rw [sovObsetGetWitness, hobl]
  rcases List.eq_nil_or_concat ws with rfl | ⟨ws, w, rfl⟩
  · rcases hdims with rfl | ⟨m, n, rfl⟩
    · simp [hparams, flatten]
    · cases s.lost id <;> simp [hparams, flatten]
  · rw [List.concat_eq_append, flatten_concat, ← List.append_assoc] at hparams
    obtain ⟨hlong, hpointer, hlen⟩ := pair_at_end (dims ++ flatten ws) w.1 w.2
    simp only [hparams, hpointer, hlen, if_neg hlong]
    cases hlost : s.lost id <;> simp

/-- The lookup of a witness returns what the last successful `sov_obset_set_witness` for the
identifier was given, and `NULL` and 0 if there was none, exactly when

* with a witness, the parameters were not lost to a reallocation that failed since,
* without one, the obligation was added without dimensions, or with dimensions that are both
  0 and were not lost. -/
theorem get_witness_last_iff (heap : Heap) (calls : List (Call × Bool)) (id : UInt32) :
    sovObsetGetWitness (runNew heap calls).2 id = some (lastWitness id (runNew heap calls).1)
      ↔ if witnesses id (runNew heap calls).1 = [] then
          dimensions heap id .new calls = []
            ∨ dimensions heap id .new calls = [0, 0] ∧ (runNew heap calls).2.lost id = false
        else (runNew heap calls).2.lost id = false := by
  have hparams := @run_params heap .new id rfl calls
  rw [lastWitness]
  cases hget : sovObsetGet (runNew heap calls).2.obset id with
  | none =>
      rw [← runNew, hget] at hparams
      obtain ⟨hdims, hset⟩ := hparams
      simp [sovObsetGetWitness, hget, hset, hdims]
  | some obl =>
      rw [← runNew, hget] at hparams
      exact getWitness_of_params hget (dims_cases heap id .new calls) hparams

/-- A system of 2 rows and 3 columns has no witness, and its dimensions are found. -/
theorem get_witness_dimensions :
    sovObsetGetWitness (runNew .enough [(.addSolve (some []) (some []) 2 3 0 1, true)]).2 0
        = some (2, 3)
      ∧ lastWitness 0 (runNew .enough [(.addSolve (some []) (some []) 2 3 0 1, true)]).1 = (0, 0) :=
  ⟨by rfl, by rfl⟩

end Obligations

end SovereignBus
