import SovereignBus.Library.Search

/-!
Cycles of reasoning traces, as `has_cycles` of `seb/reasoning/src/trace.rs` looks for them.

* `ReasoningTrace`: a trace, as far as the search reads it; `hasCyclesInternal`, `hasCycles`:
  the functions of the source, as deep as their fuel.
* `Parent`, `CycleReachable`: the parent relations as a graph of identifiers.
* `Exact`: the search ends, and finds a cycle exactly if there is one.
* `exact_iff`: it is exact if there is a cycle, or no identifier is named twice.
* `shared_ancestor_found`: two parents with one ancestor are taken for a cycle.
-/

namespace SovereignBus

namespace Reasoning

open Search (visit visitList visitList_singleton visitList_flatMap)

inductive TraceRelation where
  | «extends» (parentTraceId : String)
  | challenges (parentTraceId : String)
  | rebuts (challengeTraceId : String)
  | composes (subTraceIds : List String)

structure ReasoningTrace where
  traceId : String
  parentRelations : List TraceRelation

/-- One parent relation, with the recursive call `check`. -/
def checkRelation (check : String → List String → Option (Bool × List String)) :
    TraceRelation → List String → Option (Bool × List String)
  | .extends parentTraceId => check parentTraceId
  | .challenges parentTraceId => check parentTraceId
  | .rebuts challengeTraceId => check challengeTraceId
  | .composes subTraceIds => visitList check subTraceIds

/-- `_has_cycles_internal`, with the set of visited identifiers it leaves. -/
def hasCyclesInternal (allTraces : List ReasoningTrace) :
    ℕ → String → List String → Option (Bool × List String)
  | 0, _, _ => none
  | depth + 1, currentId, visited =>
      if currentId ∈ visited then some (true, visited)
      else
        match allTraces.find? fun t => t.traceId == currentId with
        | some current =>
            visitList (checkRelation (hasCyclesInternal allTraces depth)) current.parentRelations
              (currentId :: visited)
        | none => some (false, currentId :: visited)

def hasCycles (depth : ℕ) (trace : ReasoningTrace) (allTraces : List ReasoningTrace) :
    Option Bool :=
  (hasCyclesInternal allTraces depth trace.traceId []).map Prod.fst

/-! ### The graph of parent relations -/

/-- The identifiers a relation names. -/
def TraceRelation.ids : TraceRelation → List String
  | .extends parentTraceId => [parentTraceId]
  | .challenges parentTraceId => [parentTraceId]
  | .rebuts challengeTraceId => [challengeTraceId]
  | .composes subTraceIds => subTraceIds

/-- The identifiers a trace names, in order. -/
def ReasoningTrace.parentIds (t : ReasoningTrace) : List String :=
  t.parentRelations.flatMap TraceRelation.ids

/-- A trace with the identifier `x` names `y`. -/
def Parent (allTraces : List ReasoningTrace) (x y : String) : Prop :=
  ∃ t ∈ allTraces, t.traceId = x ∧ y ∈ t.parentIds

/-- A cycle of parent relations can be reached from an identifier. -/
def CycleReachable (allTraces : List ReasoningTrace) (x : String) : Prop :=
  ∃ y, Relation.ReflTransGen (Parent allTraces) x y ∧ Relation.TransGen (Parent allTraces) y y

/-- The traces that can be reached from an identifier name no identifier twice. -/
structure NamedOnce (allTraces : List ReasoningTrace) (x : String) : Prop where
  nodup : ∀ t ∈ allTraces, Relation.ReflTransGen (Parent allTraces) x t.traceId →
    t.parentIds.Nodup
  unique : ∀ t ∈ allTraces, ∀ t' ∈ allTraces,
    Relation.ReflTransGen (Parent allTraces) x t.traceId →
    Relation.ReflTransGen (Parent allTraces) x t'.traceId →
    ∀ y ∈ t.parentIds, y ∈ t'.parentIds → t.traceId = t'.traceId

/-- The search ends, and finds a cycle exactly if one can be reached. -/
def Exact (allTraces : List ReasoningTrace) (trace : ReasoningTrace) : Prop :=
  ∃ found, (∃ enough, ∀ depth ≥ enough, hasCycles depth trace allTraces = some found)
    ∧ (found = true ↔ CycleReachable allTraces trace.traceId)

/-! ### The search -/

/-- The identifiers named by the first trace with an identifier. -/
def parents (allTraces : List ReasoningTrace) (x : String) : List String :=
  ((allTraces.find? fun t => t.traceId == x).map ReasoningTrace.parentIds).getD []

/-- A relation is checked by checking the identifiers it names. -/
lemma checkRelation_eq (check : String → List String → Option (Bool × List String)) :
    checkRelation check = fun relation => visitList check relation.ids := by
  funext relation visited
  cases relation with
  | «extends» x => exact (visitList_singleton x visited).symm
  | challenges x => exact (visitList_singleton x visited).symm
  | rebuts x => exact (visitList_singleton x visited).symm
  | composes xs => rfl

/-- The function is the search in the graph of the parents. -/
lemma hasCyclesInternal_eq (allTraces : List ReasoningTrace) (depth : ℕ) (x : String)
    (visited : List String) :
    hasCyclesInternal allTraces depth x visited = visit (parents allTraces) depth x visited := by
  induction depth generalizing x visited with
  | zero => rfl
  | succ depth ih =>
      have hcheck : hasCyclesInternal allTraces depth = visit (parents allTraces) depth :=
        funext fun y => funext (ih y)
      rw [hasCyclesInternal, visit, parents]
      cases hfind : allTraces.find? fun t => t.traceId == x with
      | none => rfl
      | some current =>
          simp only [checkRelation_eq, hcheck, ← visitList_flatMap]
          rfl

variable {allTraces : List ReasoningTrace}

/-- The search ends after a depth of one more than the number of traces. -/
lemma hasCycles_eq_some (trace : ReasoningTrace) {depth : ℕ} (h : allTraces.length < depth) :
    ∃ found seen, visit (parents allTraces) depth trace.traceId [] = some (found, seen)
      ∧ hasCycles depth trace allTraces = some found := by
  have hnodes : ∀ x, x ∉ (allTraces.map ReasoningTrace.traceId).toFinset →
      parents allTraces x = [] := fun x hx => by
    have hfind : allTraces.find? (fun t => t.traceId == x) = none := by
      rw [List.find?_eq_none]
      intro t ht heq
      exact hx (by simpa using ⟨t, ht, by simpa using heq⟩)
    rw [parents, hfind]
    rfl
  have hcard : (allTraces.map ReasoningTrace.traceId).toFinset.card ≤ allTraces.length :=
    (List.toFinset_card_le _).trans (by rw [List.length_map])
  obtain ⟨⟨found, seen⟩, hvisit, -⟩ := Search.visit_isSome hnodes (n := depth) trace.traceId []
    (by simpa using hcard.trans_lt h)
  refine ⟨found, seen, hvisit, ?_⟩
  rw [hasCycles, hasCyclesInternal_eq, hvisit]
  rfl

lemma find_eq_some (hd : (allTraces.map ReasoningTrace.traceId).Nodup) {t : ReasoningTrace}
    (ht : t ∈ allTraces) : allTraces.find? (fun u => u.traceId == t.traceId) = some t := by
  obtain ⟨u, hu⟩ := Option.isSome_iff_exists.mp (List.find?_isSome.mpr
    ⟨t, ht, by simp⟩ : (allTraces.find? fun u => u.traceId == t.traceId).isSome)
  have hid : u.traceId = t.traceId := by simpa using List.find?_some hu
  rw [hu, List.inj_on_of_nodup_map hd (List.mem_of_find?_eq_some hu) ht hid]

lemma parents_traceId (hd : (allTraces.map ReasoningTrace.traceId).Nodup) {t : ReasoningTrace}
    (ht : t ∈ allTraces) : parents allTraces t.traceId = t.parentIds := by
  rw [parents, find_eq_some hd ht]
  rfl

/-- With distinct identifiers, the search follows the parent relations. -/
lemma mem_parents_iff (hd : (allTraces.map ReasoningTrace.traceId).Nodup) {x y : String} :
    y ∈ parents allTraces x ↔ Parent allTraces x y := by
  constructor
  · intro h
    rw [parents] at h
    cases hfind : allTraces.find? fun t => t.traceId == x with
    | none => simp [hfind] at h
    | some t =>
        rw [hfind] at h
        exact ⟨t, List.mem_of_find?_eq_some hfind, by simpa using List.find?_some hfind, h⟩
  · rintro ⟨t, ht, rfl, hy⟩
    rwa [parents_traceId hd ht]

lemma reaches_eq (hd : (allTraces.map ReasoningTrace.traceId).Nodup) :
    (fun x y => y ∈ parents allTraces x) = Parent allTraces :=
  funext fun _ => funext fun _ => propext (mem_parents_iff hd)

lemma cyclic_iff (hd : (allTraces.map ReasoningTrace.traceId).Nodup) (x : String) :
    Search.Cyclic (parents allTraces) x ↔ CycleReachable allTraces x := by
  rw [Search.Cyclic, CycleReachable, Search.Reaches, reaches_eq hd]

lemma namesOnce_iff (hd : (allTraces.map ReasoningTrace.traceId).Nodup) (x : String) :
    Search.NamesOnce (parents allTraces) x ↔ NamedOnce allTraces x := by
  have hreach : Search.Reaches (parents allTraces) = Relation.ReflTransGen (Parent allTraces) := by
    rw [Search.Reaches, reaches_eq hd]
  constructor
  · rintro ⟨hnodup, hunique⟩
    rw [hreach] at hnodup hunique
    refine ⟨fun t ht hx => ?_, fun t ht t' ht' hx hx' y hy hy' => ?_⟩
    · exact parents_traceId hd ht ▸ hnodup _ hx
    · exact hunique _ _ hx hx' y (parents_traceId hd ht ▸ hy) (parents_traceId hd ht' ▸ hy')
  · rintro ⟨hnodup, hunique⟩
    rw [← hreach] at hnodup hunique
    refine ⟨fun y hy => ?_, fun y y' hy hy' z hz hz' => ?_⟩
    · by_cases hz : ∃ z, z ∈ parents allTraces y
      · obtain ⟨z, hz⟩ := hz
        obtain ⟨t, ht, rfl, -⟩ := (mem_parents_iff hd).mp hz
        exact parents_traceId hd ht ▸ hnodup t ht hy
      · rw [List.eq_nil_iff_forall_not_mem.mpr fun z hmem => hz ⟨z, hmem⟩]
        exact List.nodup_nil
    · obtain ⟨t, ht, rfl, hname⟩ := (mem_parents_iff hd).mp hz
      obtain ⟨t', ht', rfl, hname'⟩ := (mem_parents_iff hd).mp hz'
      exact hunique t ht t' ht' hy hy' z hname hname'

/-- With distinct identifiers the search is exact for a trace exactly if a cycle can be reached
from it, or the traces that can be reached from it name no identifier twice. -/
theorem exact_iff (hd : (allTraces.map ReasoningTrace.traceId).Nodup) (trace : ReasoningTrace) :
    Exact allTraces trace
      ↔ CycleReachable allTraces trace.traceId ∨ NamedOnce allTraces trace.traceId := by
  have hfound : ∀ depth found, allTraces.length < depth →
      hasCycles depth trace allTraces = some found →
      (found = false ↔ ¬ CycleReachable allTraces trace.traceId
        ∧ NamedOnce allTraces trace.traceId) := fun depth found hdepth hsome => by
    obtain ⟨found', seen, hvisit, hsome'⟩ := hasCycles_eq_some trace hdepth
    obtain rfl := Option.some.inj (hsome'.symm.trans hsome)
    rw [Search.visit_eq_false_iff hvisit, cyclic_iff hd, namesOnce_iff hd]
  constructor
  · rintro ⟨found, ⟨enough, hends⟩, hexact⟩
    have hfalse := hfound (enough + allTraces.length + 1) found (by omega) (hends _ (by omega))
    by_cases hcycle : CycleReachable allTraces trace.traceId
    · exact .inl hcycle
    · have hno : found = false := by simpa [hcycle] using hexact
      exact .inr (hfalse.mp hno).2
  · intro hcases
    obtain ⟨found, -, -, hsome⟩ := hasCycles_eq_some trace (Nat.lt_succ_self allTraces.length)
    have hfalse := hfound _ found (Nat.lt_succ_self _) hsome
    refine ⟨found, ⟨allTraces.length + 1, fun depth hdepth => ?_⟩, ?_⟩
    · obtain ⟨found', -, -, hsome'⟩ := hasCycles_eq_some trace hdepth
      have hfalse' := hfound _ found' hdepth hsome'
      have hsame : found' = found := by
        cases found <;> cases found' <;> simp_all
      rw [hsome', hsame]
    · cases found with
      | true =>
          have hcycle : CycleReachable allTraces trace.traceId := by
            by_contra hno
            exact absurd (hfalse.mpr ⟨hno, hcases.resolve_left hno⟩) (by decide)
          simp [hcycle]
      | false => simp [(hfalse.mp rfl).1]

/-- Two traces that extend each other. -/
def loop : List ReasoningTrace := [⟨"a", [.extends "b"]⟩, ⟨"b", [.extends "a"]⟩]

/-- The search finds their cycle. -/
theorem exact_iff_loop : Exact loop ⟨"a", [.extends "b"]⟩ := by
  have hab : Parent loop "a" "b" := ⟨⟨"a", [.extends "b"]⟩, by simp [loop], rfl, by decide⟩
  have hba : Parent loop "b" "a" := ⟨⟨"b", [.extends "a"]⟩, by simp [loop], rfl, by decide⟩
  exact (exact_iff (by decide) _).mpr (.inl ⟨"a", .refl, .tail (.single hab) hba⟩)

/-- A trace whose two parents extend one trace. -/
def shared : List ReasoningTrace :=
  [⟨"a", [.extends "b", .extends "c"]⟩, ⟨"b", [.extends "d"]⟩, ⟨"c", [.extends "d"]⟩, ⟨"d", []⟩]

/-- A parent comes behind the traces that name it. -/
lemma parent_shared {x y : String} (h : Parent shared x y) : x < y := by
  obtain ⟨t, ht, rfl, hy⟩ := h
  simp only [shared, List.mem_cons, List.not_mem_nil, or_false] at ht
  rcases ht with rfl | rfl | rfl | rfl
  all_goals
    simp [ReasoningTrace.parentIds, TraceRelation.ids] at hy
  · rcases hy with rfl | rfl <;> decide
  · subst hy
    decide
  · subst hy
    decide

/-- It is found to have a cycle, although there is none. -/
theorem shared_ancestor_found :
    (shared.map ReasoningTrace.traceId).Nodup
      ∧ ¬ Exact shared ⟨"a", [.extends "b", .extends "c"]⟩ := by
  refine ⟨by decide, ?_⟩
  rintro ⟨found, ⟨enough, hends⟩, hexact⟩
  have htrue : hasCycles (enough + 5) ⟨"a", [.extends "b", .extends "c"]⟩ shared = some true := rfl
  obtain rfl := Option.some.inj ((hends _ (by omega)).symm.trans htrue)
  obtain ⟨y, -, hcycle⟩ := hexact.mp rfl
  have hlt : ∀ {x y}, Relation.TransGen (Parent shared) x y → x < y := fun h => by
    induction h with
    | single h => exact parent_shared h
    | tail _ h ih => exact ih.trans (parent_shared h)
  exact lt_irrefl y (hlt hcycle)

end Reasoning

end SovereignBus
