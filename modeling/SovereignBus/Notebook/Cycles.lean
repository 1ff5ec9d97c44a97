import SovereignBus.Library.Answers
import SovereignBus.Library.Search

/-!
The check for circular dependencies of `frontend/prolog/notebook-engine.pl`.

* `cellDependsOn`, `pathExists`, `hasCircularDependency`, `acyclicObligation`: the
  predicates of the source, searched depth first, as deep as their fuel.
* `HasCycle`: the facts have a cycle, through a cell that is given or through any.
* `Decided`: the search ends, and succeeds exactly if there is a cycle.
* `Clear`, `Leads`: what is below a cell, and where the first dependencies that are not
  clear lead.
* `decided_iff`: the check is decided exactly if it fails clearly or is led to a cycle.
* `cycle_elsewhere_undecided`: a cycle that does not come back makes it run on.
-/

namespace SovereignBus

namespace Notebook

variable {Cell : Type} [DecidableEq Cell]

/-- The facts that match two arguments, each of which may be unbound. -/
def cellDependsOn (facts : List (Cell × Cell)) (cellIndex dep : Option Cell) :
    Answers (Cell × Cell) :=
  .ofList (facts.filter fun f => (cellIndex.all (· == f.1)) && dep.all (· == f.2))

/-- `path_exists`, two clauses. -/
def pathExists (facts : List (Cell × Cell)) : ℕ → Cell → Cell → Answers Unit
  | 0, _, _ => .stuck
  | fuel + 1, start, «end» =>
      Answers.or
        (do
          let _ ← cellDependsOn facts (some start) (some «end»)
          return ())
        (do
          let f ← cellDependsOn facts (some start) none
          pathExists facts fuel f.2 «end»)

/-- `has_circular_dependency`, with the cell of the answer. -/
def hasCircularDependency (facts : List (Cell × Cell)) (fuel : ℕ) (cellIndex : Option Cell) :
    Answers Cell := do
  let f ← cellDependsOn facts cellIndex none
  let _ ← pathExists facts fuel f.2 f.1
  return f.1

/-- The last obligation of `all_obligations_discharged`. -/
def acyclicObligation (facts : List (Cell × Cell)) (fuel : ℕ) : Answers Unit :=
  (hasCircularDependency facts fuel none).naf

/-! ### The graph of dependencies -/

/-- A cell depends on another. -/
def Depends (facts : List (Cell × Cell)) (c d : Cell) : Prop := (c, d) ∈ facts

instance (facts : List (Cell × Cell)) (c d : Cell) : Decidable (Depends facts c d) :=
  inferInstanceAs (Decidable ((c, d) ∈ facts))

/-- There is a cycle, through the cell that is given. -/
def HasCycle (facts : List (Cell × Cell)) (cellIndex : Option Cell) : Prop :=
  ∃ c, (∀ x ∈ cellIndex, x = c) ∧ Relation.TransGen (Depends facts) c c

/-- The query ends, with an answer exactly if there is a cycle. -/
def Decided (facts : List (Cell × Cell)) (cellIndex : Option Cell) : Prop :=
  ∃ answer : Option Cell,
    (∃ enough, ∀ fuel ≥ enough, (hasCircularDependency facts fuel cellIndex).first = some answer)
    ∧ (answer.isSome ↔ HasCycle facts cellIndex)

/-- The obligation ends, and is discharged exactly if there is no cycle. -/
def ObligationDecided (facts : List (Cell × Cell)) : Prop :=
  ∃ answer : Option Unit,
    (∃ enough, ∀ fuel ≥ enough, (acyclicObligation facts fuel).first = some answer)
    ∧ (answer.isSome ↔ ¬ HasCycle facts none)

/-- Below a cell, there is neither the cell `e` nor a cycle. -/
structure Clear (facts : List (Cell × Cell)) (e c : Cell) : Prop where
  not_depends : ¬ Relation.TransGen (Depends facts) c e
  not_cyclic : ∀ d, Relation.ReflTransGen (Depends facts) c d →
    ¬ Relation.TransGen (Depends facts) d d

/-- The first dependencies that are not clear lead to a cell that depends on `e` itself. -/
inductive Leads (facts : List (Cell × Cell)) (e : Cell) : Cell → Prop where
  | direct {c} (h : Depends facts c e) : Leads facts e c
  | first {c d pre post} (h : facts.filter (fun f => c == f.1) = pre ++ (c, d) :: post)
      (hpre : ∀ f ∈ pre, Clear facts e f.2) (hd : Leads facts e d) : Leads facts e c

/-- Every fact a query starts with is clear, or the first that is not leads back. -/
def Settled (facts : List (Cell × Cell)) (cellIndex : Option Cell) : Prop :=
  (∀ c d, (∀ x ∈ cellIndex, x = c) → Depends facts c d → Clear facts c d)
    ∨ ∃ pre c d post, facts.filter (fun f => cellIndex.all (· == f.1)) = pre ++ (c, d) :: post
      ∧ (∀ f ∈ pre, Clear facts f.1 f.2) ∧ Leads facts c d

variable {facts : List (Cell × Cell)} {c d e : Cell}

/-- The dependencies of a cell, in the order of the facts. -/
def deps (facts : List (Cell × Cell)) (c : Cell) : List Cell :=
  (facts.filter fun f => c == f.1).map Prod.snd

lemma mem_filter_iff {f : Cell × Cell} :
    f ∈ facts.filter (fun f => c == f.1) ↔ c = f.1 ∧ Depends facts f.1 f.2 := by
  rw [List.mem_filter, and_comm, beq_iff_eq]
  rfl

lemma deps_eq : (fun c d => d ∈ deps facts c) = Depends facts := by
  funext c d
  refine propext ⟨fun h => ?_, fun h => ?_⟩
  · obtain ⟨f, hf, rfl⟩ := List.mem_map.mp h
    obtain ⟨rfl, hdepends⟩ := mem_filter_iff.mp hf
    exact hdepends
  · exact List.mem_map.mpr ⟨(c, d), mem_filter_iff.mpr ⟨rfl, h⟩, rfl⟩

/-- Only the cells of the facts have dependencies. -/
lemma deps_eq_nil (c : Cell) (hc : c ∉ (facts.map Prod.fst).toFinset) : deps facts c = [] := by
  refine List.eq_nil_iff_forall_not_mem.mpr fun d hd => ?_
  obtain ⟨f, hf, -⟩ := List.mem_map.mp hd
  obtain ⟨rfl, hdepends⟩ := mem_filter_iff.mp hf
  exact hc (List.mem_toFinset.mpr (List.mem_map_of_mem hdepends))

lemma clear_iff_not_cyclic :
    Clear facts e c ↔ ¬ Relation.TransGen (Depends facts) c e ∧ ¬ Search.Cyclic (deps facts) c := by
  simp only [Search.Cyclic, Search.Reaches, deps_eq, not_exists, not_and]
  exact ⟨fun ⟨h, h'⟩ => ⟨h, h'⟩, fun ⟨h, h'⟩ => ⟨h, h'⟩⟩

/-- A cell is clear if its dependencies are. -/
lemma clear_iff :
    Clear facts e c ↔ ¬ Depends facts c e ∧ ∀ d, Depends facts c d → Clear facts e d := by
  have hmem : ∀ d, d ∈ deps facts c ↔ Depends facts c d :=
    fun d => iff_of_eq (congrFun (congrFun deps_eq c) d)
  simp only [clear_iff_not_cyclic]
  rw [Search.cyclic_iff]
  constructor
  · rintro ⟨hdepends, hcyclic⟩
    exact ⟨fun h => hdepends (.single h), fun d hd =>
      ⟨fun h => hdepends (.head hd h), fun h => hcyclic ⟨d, (hmem d).mpr hd, h⟩⟩⟩
  · rintro ⟨hdepends, hbelow⟩
    constructor
    · intro h
      obtain ⟨d, hd, hde⟩ := Relation.TransGen.head'_iff.mp h
      rcases Relation.reflTransGen_iff_eq_or_transGen.mp hde with rfl | hde
      · exact hdepends hd
      · exact (hbelow d hd).1 hde
    · rintro ⟨d, hd, h⟩
      exact (hbelow d ((hmem d).mp hd)).2 h

lemma transGen_of_leads (h : Leads facts e c) : Relation.TransGen (Depends facts) c e := by
  induction h with
  | direct h => exact .single h
  | @first c d pre post h _ _ ih =>
      have hmem : (c, d) ∈ facts.filter fun f => c == f.1 := by simp [h]
      exact .head (mem_filter_iff.mp hmem).2 ih

/-! ### The search for a path -/

lemma cellDependsOn_none (cellIndex : Option Cell) :
    cellDependsOn facts cellIndex none
      = .ofList (facts.filter fun f => cellIndex.all (· == f.1)) := by
  simp [cellDependsOn]

/-- The first clause of `path_exists`. -/
lemma first_direct :
    (cellDependsOn facts (some c) (some e) >>= fun _ => Pure.pure ()).first
      = some (if Depends facts c e then some () else none) := by
  have hmem : ∀ f, f ∈ facts.filter (fun f => (some c).all (· == f.1) && (some e).all (· == f.2))
      ↔ f ∈ facts ∧ f = (c, e) := fun f => by
    rw [List.mem_filter, Prod.ext_iff]
    simp only [Option.all_some, Bool.and_eq_true, beq_iff_eq, @eq_comm _ f.1, @eq_comm _ f.2]
  rw [Answers.first_bind_pure, cellDependsOn, Answers.first_ofList]
  generalize facts.filter (fun f => (some c).all (· == f.1) && (some e).all (· == f.2)) = l
    at hmem ⊢
  split_ifs with h
  · obtain ⟨f, l, rfl⟩ := List.exists_cons_of_ne_nil
      (List.ne_nil_of_mem ((hmem (c, e)).mpr ⟨h, rfl⟩))
    rfl
  · obtain rfl : l = [] := List.eq_nil_iff_forall_not_mem.mpr fun f hf => by
      obtain ⟨hf, rfl⟩ := (hmem f).mp hf
      exact h hf
    rfl

lemma pathExists_none_iff {fuel : ℕ} : (pathExists facts (fuel + 1) c e).first = some none
    ↔ ¬ Depends facts c e
      ∧ ∀ d, Depends facts c d → (pathExists facts fuel d e).first = some none := by
  rw [pathExists, Answers.first_or_eq_none_iff, first_direct, cellDependsOn_none,
    Answers.first_bind_ofList_none_iff]
  refine and_congr (by simp)
    ⟨fun h d hd => h (c, d) (mem_filter_iff.mpr ⟨rfl, hd⟩), fun h f hf => ?_⟩
  obtain ⟨rfl, hdepends⟩ := mem_filter_iff.mp hf
  exact h f.2 hdepends

lemma pathExists_some_iff {fuel : ℕ} : (pathExists facts (fuel + 1) c e).first = some (some ())
    ↔ Depends facts c e ∨ ¬ Depends facts c e
      ∧ ∃ pre d post, facts.filter (fun f => c == f.1) = pre ++ (c, d) :: post
        ∧ (∀ f ∈ pre, (pathExists facts fuel f.2 e).first = some none)
        ∧ (pathExists facts fuel d e).first = some (some ()) := by
  rw [pathExists, Answers.first_or_eq_some_iff, first_direct, cellDependsOn_none,
    Answers.first_bind_ofList_some_iff]
  refine or_congr (by simp) (and_congr (by simp) ⟨?_, ?_⟩)
  · rintro ⟨pre, f, post, hl, hpre, hf⟩
    have hmem : f ∈ facts.filter fun f => c == f.1 := by
      have hin : f ∈ pre ++ f :: post := by simp
      rwa [← hl] at hin
    obtain ⟨rfl, -⟩ := mem_filter_iff.mp hmem
    exact ⟨pre, f.2, post, hl, hpre, hf⟩
  · rintro ⟨pre, d, post, hl, hpre, hd⟩
    exact ⟨pre, (c, d), post, hl, hpre, hd⟩

/-- A search that fails has found everything clear. -/
lemma clear_of_pathExists {fuel : ℕ} (h : (pathExists facts fuel c e).first = some none) :
    Clear facts e c := by
  induction fuel generalizing c with
  | zero => simp [pathExists] at h
  | succ fuel ih =>
      obtain ⟨hdepends, hbelow⟩ := pathExists_none_iff.mp h
      exact clear_iff.mpr ⟨hdepends, fun d hd => ih (hbelow d hd)⟩

/-- A search from a clear cell fails when it is deep enough. -/
lemma pathExists_of_clear (facts : List (Cell × Cell)) : ∃ enough, ∀ fuel ≥ enough, ∀ c e,
    Clear facts e c → (pathExists facts fuel c e).first = some none := by
  obtain ⟨rank, hbound, hrank⟩ := Search.exists_rank (@deps_eq_nil _ _ facts)
  have hdeep : ∀ fuel c e, rank c < fuel → Clear facts e c →
      (pathExists facts fuel c e).first = some none := fun fuel => by
    induction fuel with
    | zero => exact fun c e hlt => absurd hlt (Nat.not_lt_zero _)
    | succ fuel ih =>
        intro c e hlt hclear
        obtain ⟨hdepends, hbelow⟩ := clear_iff.mp hclear
        refine pathExists_none_iff.mpr ⟨hdepends, fun d hd => ih d e ?_ (hbelow d hd)⟩
        have hless := hrank c d (clear_iff_not_cyclic.mp hclear).2
          ((iff_of_eq (congrFun (congrFun deps_eq c) d)).mpr hd)
        omega
  exact ⟨_, fun fuel hfuel c e => hdeep fuel c e
    ((hbound c).trans_lt (Nat.lt_of_succ_le hfuel))⟩

/-- A search that succeeds was led to its end. -/
lemma leads_of_pathExists {fuel : ℕ} (h : (pathExists facts fuel c e).first = some (some ())) :
    Leads facts e c := by
  induction fuel generalizing c with
  | zero => simp [pathExists] at h
  | succ fuel ih =>
      rcases pathExists_some_iff.mp h with hdepends | ⟨-, pre, d, post, hl, hpre, hd⟩
      · exact .direct hdepends
      · exact .first hl (fun f hf => clear_of_pathExists (hpre f hf)) (ih hd)

lemma pathExists_of_leads (h : Leads facts e c) : ∃ enough, ∀ fuel ≥ enough,
    (pathExists facts fuel c e).first = some (some ()) := by
  obtain ⟨deep, hdeep⟩ := pathExists_of_clear facts
  induction h with
  | @direct c h =>
      refine ⟨1, fun fuel hfuel => ?_⟩
      obtain ⟨fuel, rfl⟩ := Nat.exists_eq_add_of_le' hfuel
      exact pathExists_some_iff.mpr (.inl h)
  | @first c d pre post hl hpre _ ih =>
      obtain ⟨enough, hd⟩ := ih
      refine ⟨max deep enough + 1, fun fuel hfuel => ?_⟩
      obtain ⟨fuel, rfl⟩ := Nat.exists_eq_add_of_le' (le_of_add_le_right hfuel)
      by_cases h : Depends facts c e
      · exact pathExists_some_iff.mpr (.inl h)
      · exact pathExists_some_iff.mpr (.inr ⟨h, pre, d, post, hl,
          fun f hf => hdeep fuel (by omega) _ _ (hpre f hf), hd fuel (by omega)⟩)

/-! ### The query -/

variable {cellIndex : Option Cell}

lemma mem_start_iff {f : Cell × Cell} : f ∈ facts.filter (fun f => cellIndex.all (· == f.1))
    ↔ (∀ x ∈ cellIndex, x = f.1) ∧ Depends facts f.1 f.2 := by
  rw [List.mem_filter, and_comm, Option.all_eq_true]
  simp only [beq_iff_eq]
  rfl

lemma hasCircularDependency_none_iff {fuel : ℕ} :
    (hasCircularDependency facts fuel cellIndex).first = some none
      ↔ ∀ c d, (∀ x ∈ cellIndex, x = c) → Depends facts c d →
        (pathExists facts fuel d c).first = some none := by
  rw [hasCircularDependency, cellDependsOn_none, Answers.first_bind_ofList_none_iff]
  constructor
  · intro h c d hc hd
    have hbody := h (c, d) (mem_start_iff.mpr ⟨hc, hd⟩)
    rw [Answers.first_bind_pure] at hbody
    simpa using hbody
  · intro h f hf
    obtain ⟨hc, hd⟩ := mem_start_iff.mp hf
    rw [Answers.first_bind_pure, h f.1 f.2 hc hd]
    rfl

lemma hasCircularDependency_some_iff {fuel : ℕ} :
    (hasCircularDependency facts fuel cellIndex).first = some (some c)
      ↔ ∃ pre d post, facts.filter (fun f => cellIndex.all (· == f.1)) = pre ++ (c, d) :: post
        ∧ (∀ f ∈ pre, (pathExists facts fuel f.2 f.1).first = some none)
        ∧ (pathExists facts fuel d c).first = some (some ()) := by
  rw [hasCircularDependency, cellDependsOn_none, Answers.first_bind_ofList_some_iff]
  simp only [Answers.first_bind_pure]
  constructor
  · rintro ⟨pre, ⟨c', d⟩, post, hl, hpre, hd⟩
    obtain ⟨answer, hanswer, hc⟩ := Option.map_eq_some_iff.mp hd
    obtain ⟨⟨⟩, rfl, rfl⟩ := Option.map_eq_some_iff.mp hc
    refine ⟨pre, d, post, hl, fun f hf => ?_, hanswer⟩
    obtain ⟨answer, hanswer, hnone⟩ := Option.map_eq_some_iff.mp (hpre f hf)
    rw [hanswer, Option.map_eq_none_iff.mp hnone]
  · rintro ⟨pre, d, post, hl, hpre, hd⟩
    exact ⟨pre, (c, d), post, hl, fun f hf => by rw [hpre f hf]; rfl, by rw [hd]; rfl⟩

/-- A query that ends is settled. -/
lemma settled_of_first {fuel : ℕ} {answer : Option Cell}
    (h : (hasCircularDependency facts fuel cellIndex).first = some answer) :
    Settled facts cellIndex := by
  cases answer with
  | none =>
      left
      intro c d hc hd
      exact clear_of_pathExists (hasCircularDependency_none_iff.mp h c d hc hd)
  | some c =>
      right
      obtain ⟨pre, d, post, hl, hpre, hd⟩ := hasCircularDependency_some_iff.mp h
      exact ⟨pre, c, d, post, hl, fun f hf => clear_of_pathExists (hpre f hf),
        leads_of_pathExists hd⟩

omit [DecidableEq Cell] in
/-- A clear fact is on no cycle. -/
lemma not_hasCycle_of_clear
    (h : ∀ c d, (∀ x ∈ cellIndex, x = c) → Depends facts c d → Clear facts c d) :
    ¬ HasCycle facts cellIndex := by
  rintro ⟨c, hc, hcycle⟩
  obtain ⟨d, hd, hback⟩ := Relation.TransGen.head'_iff.mp hcycle
  rcases Relation.reflTransGen_iff_eq_or_transGen.mp hback with rfl | hback
  · exact (h c c hc hd).not_depends hcycle
  · exact (h c d hc hd).not_depends hback

lemma decided_of_settled (h : Settled facts cellIndex) : Decided facts cellIndex := by
  obtain ⟨deep, hdeep⟩ := pathExists_of_clear facts
  rcases h with hclear | ⟨pre, c, d, post, hl, hpre, hleads⟩
  · refine ⟨none, ⟨deep, fun fuel hfuel => ?_⟩, by simp [not_hasCycle_of_clear hclear]⟩
    exact hasCircularDependency_none_iff.mpr fun c d hc hd =>
      hdeep fuel hfuel d c (hclear c d hc hd)
  · obtain ⟨enough, hpath⟩ := pathExists_of_leads hleads
    have hmem : (c, d) ∈ facts.filter fun f => cellIndex.all (· == f.1) := by simp [hl]
    obtain ⟨hc, hd⟩ := mem_start_iff.mp hmem
    refine ⟨some c, ⟨max deep enough, fun fuel hfuel => ?_⟩, ?_⟩
    · exact hasCircularDependency_some_iff.mpr ⟨pre, d, post, hl,
        fun f hf => hdeep fuel (le_of_max_le_left hfuel) _ _ (hpre f hf),
        hpath fuel (le_of_max_le_right hfuel)⟩
    · have hcycle : HasCycle facts cellIndex := ⟨c, hc, .head hd (transGen_of_leads hleads)⟩
      simp [hcycle]

/-- Without cycles, every query is settled. -/
lemma settled_of_acyclic (h : ¬ HasCycle facts none) : Settled facts cellIndex :=
  .inl fun c _ _ hd => ⟨fun hback => h ⟨c, by simp, .head hd hback⟩,
    fun e _ hcycle => h ⟨e, by simp, hcycle⟩⟩

/-- The check is decided exactly if every fact it starts with is clear, or the first that is not
leads back to its cell; the obligation is decided exactly if the check of any cell is. -/
theorem decided_iff (facts : List (Cell × Cell)) :
    (∀ cellIndex, Decided facts cellIndex ↔ Settled facts cellIndex)
      ∧ (ObligationDecided facts ↔ Settled facts none) := by
  refine ⟨fun cellIndex => ⟨fun ⟨answer, ⟨enough, hends⟩, _⟩ => settled_of_first (hends _ le_rfl),
    decided_of_settled⟩, fun ⟨answer, ⟨enough, hends⟩, _⟩ => ?_, fun h => ?_⟩
  · have hfirst := hends _ le_rfl
    rw [acyclicObligation, Answers.first_naf] at hfirst
    obtain ⟨found, hfound, -⟩ := Option.map_eq_some_iff.mp hfirst
    exact settled_of_first hfound
  · obtain ⟨answer, ⟨enough, hends⟩, hexact⟩ := decided_of_settled h
    refine ⟨if answer.isSome then none else some (), ⟨enough, fun fuel hfuel => ?_⟩, ?_⟩
    · rw [acyclicObligation, Answers.first_naf, hends fuel hfuel, Option.map_some]
    · rw [← hexact]
      cases answer <;> simp

/-- Cell 1 depends on a cycle of two others. -/
def elsewhere : List (ℕ × ℕ) := [(1, 2), (2, 3), (3, 2)]

/-- The search for a path back to cell 1 goes around the cycle. -/
lemma pathExists_elsewhere (fuel : ℕ) :
    pathExists elsewhere fuel 2 1 = .stuck ∧ pathExists elsewhere fuel 3 1 = .stuck := by
  induction fuel with
  | zero => exact ⟨rfl, rfl⟩
  | succ fuel ih =>
      constructor
      · change Answers.or (.ofList []) ((pathExists elsewhere fuel 3 1).or (.ofList [])) = _
        rw [ih.2]
        rfl
      · change Answers.or (.ofList []) ((pathExists elsewhere fuel 2 1).or (.ofList [])) = _
        rw [ih.1]
        rfl

/-- So does the check. -/
lemma hasCircularDependency_elsewhere (fuel : ℕ) :
    (hasCircularDependency elsewhere fuel none).first = none
      ∧ (hasCircularDependency elsewhere fuel (some 1)).first = none := by
  have hstart : ∀ cellIndex rest,
      cellDependsOn elsewhere cellIndex none = .ofList ((1, 2) :: rest) →
      (hasCircularDependency elsewhere fuel cellIndex).first = none := fun cellIndex rest h => by
    rw [hasCircularDependency, h, Answers.ofList_cons_bind, Answers.first_or,
      (pathExists_elsewhere fuel).1]
    rfl
  exact ⟨hstart none _ rfl, hstart (some 1) _ rfl⟩

/-- Neither the check of any cell nor that of cell 1, which is on no cycle, nor the obligation
ends. -/
theorem cycle_elsewhere_undecided :
    ¬ Decided elsewhere none ∧ ¬ Decided elsewhere (some 1) ∧ ¬ ObligationDecided elsewhere := by
  refine ⟨?_, ?_, ?_⟩
  · rintro ⟨answer, ⟨enough, hends⟩, -⟩
    simpa [(hasCircularDependency_elsewhere enough).1] using hends enough le_rfl
  · rintro ⟨answer, ⟨enough, hends⟩, -⟩
    simpa [(hasCircularDependency_elsewhere enough).2] using hends enough le_rfl
  · rintro ⟨answer, ⟨enough, hends⟩, -⟩
    have hfirst := hends enough le_rfl
    rw [acyclicObligation, Answers.first_naf, (hasCircularDependency_elsewhere enough).1] at hfirst
    simp at hfirst

end Notebook

end SovereignBus
