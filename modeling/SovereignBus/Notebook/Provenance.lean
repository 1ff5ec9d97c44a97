import SovereignBus.Notebook.Cycles

/-!
The queries for dependent cells and for the provenance of a cell of
`frontend/prolog/notebook-engine.pl`.

* `cellAncestor`, `queryProvenanceChain`, `queryCellDependencies`: the predicates of the source,
  searched depth first, as deep as their fuel.
* `provenanceChain_returns`, `cellDependencies_returns`: without cycles the queries return the
  cells that they should, each once, in the order of their numbers.
* `ChainRight`, `DependenciesRight`: what a query returns is in the order of the dependencies
  too. `queries_right_iff` says for which numberings this holds.
-/

namespace SovereignBus

namespace Notebook

open Relation

variable {Cell : Type} [LinearOrder Cell]

/-- `sort`, which leaves no duplicates. -/
def sort (l : List Cell) : List Cell := l.toFinset.sort

/-- `cell_ancestor`, two clauses. -/
def cellAncestor (facts : List (Cell × Cell)) : ℕ → Cell → Answers Cell
  | 0, _ => .stuck
  | fuel + 1, cellIndex =>
      Answers.or
        (do
          let f ← cellDependsOn facts (some cellIndex) none
          return f.2)
        (do
          let f ← cellDependsOn facts (some cellIndex) none
          cellAncestor facts fuel f.2)

def queryProvenanceChain (facts : List (Cell × Cell)) (fuel : ℕ) (cellIndex : Cell) :
    Answers (List Cell) := do
  let ancestors ← Answers.findAll (cellAncestor facts fuel cellIndex)
  return (sort (cellIndex :: ancestors)).reverse

def queryCellDependencies (facts : List (Cell × Cell)) : ℕ → Cell → Answers (List Cell)
  | 0, _ => .stuck
  | fuel + 1, cellIndex => do
      let directDeps ← Answers.findAll do
        let f ← cellDependsOn facts none (some cellIndex)
        return f.1
      if directDeps = [] then return [] else
        let allDeps ← Answers.findAll do
          let dep ← .ofList directDeps
          Answers.or (return dep) do
            let subDeps ← queryCellDependencies facts fuel dep
            .ofList subDeps
        return sort allDeps

/-! ### What the queries return -/

/-- With enough fuel, the query has one answer, and the search ends. -/
def Returns (query : ℕ → Answers (List Cell)) (answer : List Cell) : Prop :=
  ∃ enough, ∀ fuel ≥ enough, query fuel = .ofList [answer]

variable {facts : List (Cell × Cell)} {c d : Cell}

@[simp] lemma mem_sort {l : List Cell} : c ∈ sort l ↔ c ∈ l := by
  rw [sort, Finset.mem_sort, List.mem_toFinset]

lemma pairwise_sort (l : List Cell) : (sort l).Pairwise (· < ·) :=
  (Finset.sortedLT_sort _).pairwise

/-- Without cycles, every dependency lowers a rank. -/
lemma exists_rank (h : ¬HasCycle facts none) :
    ∃ (rank : Cell → ℕ) (bound : ℕ), (∀ c, rank c ≤ bound)
      ∧ ∀ c d, Depends facts c d → rank d < rank c := by
  obtain ⟨rank, hbound, hrank⟩ := Search.exists_rank (@deps_eq_nil _ _ facts)
  refine ⟨rank, _, hbound, fun c d hd => hrank c d ?_ ((iff_of_eq
    (congrFun (congrFun deps_eq c) d)).mpr hd)⟩
  rintro ⟨e, -, hcycle⟩
  rw [deps_eq] at hcycle
  exact h ⟨e, by simp, hcycle⟩

/-- The facts whose second cell is given. -/
lemma mem_filter_snd {f : Cell × Cell} :
    f ∈ facts.filter (fun f => none.all (· == f.1) && (some c).all (· == f.2))
      ↔ c = f.2 ∧ Depends facts f.1 f.2 := by
  rw [List.mem_filter, and_comm]
  simp only [Option.all_none, Option.all_some, Bool.true_and, beq_iff_eq]
  rfl

omit [LinearOrder Cell] in
lemma transGen_iff_head {r : Cell → Cell → Prop} :
    TransGen r c d ↔ r c d ∨ ∃ e, r c e ∧ TransGen r e d := by
  rw [TransGen.head'_iff]
  constructor
  · rintro ⟨e, he, hreach⟩
    rcases reflTransGen_iff_eq_or_transGen.mp hreach with rfl | htrans
    · exact .inl he
    · exact .inr ⟨e, he, htrans⟩
  · rintro (h | ⟨e, he, htrans⟩)
    · exact ⟨d, h, .refl⟩
    · exact ⟨e, he, htrans.to_reflTransGen⟩

omit [LinearOrder Cell] in
lemma transGen_iff_tail {r : Cell → Cell → Prop} :
    TransGen r c d ↔ r c d ∨ ∃ e, r e d ∧ TransGen r c e := by
  rw [← transGen_swap, transGen_iff_head]
  simp only [transGen_swap]

/-- The search for ancestors ends, and finds them all. -/
lemma cellAncestor_spec {rank : Cell → ℕ} (hrank : ∀ c d, Depends facts c d → rank d < rank c) :
    ∀ fuel c, rank c < fuel → (cellAncestor facts fuel c).complete
      ∧ ∀ d, d ∈ (cellAncestor facts fuel c).found ↔ TransGen (Depends facts) c d := by
  intro fuel
  induction fuel with
  | zero => exact fun c hc => absurd hc (Nat.not_lt_zero _)
  | succ fuel ih =>
      intro c hc
      have hbelow : ∀ f ∈ facts.filter (fun f => c == f.1), rank f.2 < fuel := fun f hf => by
        obtain ⟨rfl, hdepends⟩ := mem_filter_iff.mp hf
        have hlt := hrank _ _ hdepends
        omega
      have hfacts : cellDependsOn facts (some c) none
          = .ofList (facts.filter fun f => c == f.1) := cellDependsOn_none _
      rw [cellAncestor, hfacts,
        Answers.ofList_bind_of_complete fun _ _ => rfl,
        Answers.ofList_bind_of_complete fun f hf => (ih f.2 (hbelow f hf)).1, Answers.ofList_or]
      refine ⟨rfl, fun d => ?_⟩
      rw [transGen_iff_head]
      change d ∈ _ ++ _ ↔ _
      rw [List.mem_append, List.mem_flatMap, List.mem_flatMap]
      refine or_congr ⟨?_, ?_⟩ ⟨?_, ?_⟩
      · rintro ⟨f, hf, hd⟩
        obtain ⟨rfl, hdepends⟩ := mem_filter_iff.mp hf
        rwa [List.mem_singleton.mp hd]
      · exact fun hd => ⟨(c, d), mem_filter_iff.mpr ⟨rfl, hd⟩, List.mem_singleton_self d⟩
      · rintro ⟨f, hf, hd⟩
        obtain ⟨rfl, hdepends⟩ := mem_filter_iff.mp hf
        exact ⟨f.2, hdepends, ((ih f.2 (hbelow f hf)).2 d).mp hd⟩
      · rintro ⟨e, he, hd⟩
        have hf : (c, e) ∈ facts.filter fun f => c == f.1 := mem_filter_iff.mpr ⟨rfl, he⟩
        exact ⟨(c, e), hf, ((ih e (hbelow (c, e) hf)).2 d).mpr hd⟩

/-- Without cycles, the provenance of a cell is the cell and all that it depends on. -/
theorem provenanceChain_returns (h : ¬HasCycle facts none) (c : Cell) :
    ∃ chain, Returns (queryProvenanceChain facts · c) chain ∧ chain.Pairwise (· > ·)
      ∧ ∀ d, d ∈ chain ↔ ReflTransGen (Depends facts) c d := by
  obtain ⟨rank, bound, -, hrank⟩ := exists_rank h
  set ancestors := (cellAncestor facts (rank c + 1) c).found
  refine ⟨(sort (c :: ancestors)).reverse, ⟨rank c + 1, fun fuel hfuel => ?_⟩,
    List.pairwise_reverse.mpr (pairwise_sort _), fun d => ?_⟩
  · obtain ⟨hcomplete, hmem⟩ := cellAncestor_spec hrank fuel c hfuel
    have hsame : sort (c :: (cellAncestor facts fuel c).found) = sort (c :: ancestors) := by
      rw [sort, sort]
      congr 1
      ext d
      simp only [List.mem_toFinset, List.mem_cons, hmem,
        (cellAncestor_spec hrank (rank c + 1) c (Nat.lt_succ_self _)).2, ancestors]
    change queryProvenanceChain facts fuel c = _
    rw [queryProvenanceChain, Answers.eq_ofList hcomplete, Answers.findAll_ofList,
      Answers.pure_bind, hsame]
    rfl
  · rw [List.mem_reverse, mem_sort, List.mem_cons, reflTransGen_iff_eq_or_transGen, eq_comm,
      (cellAncestor_spec hrank (rank c + 1) c (Nat.lt_succ_self _)).2]

/-- The cells with a fact on a cell. -/
lemma exists_directDeps (facts : List (Cell × Cell)) (c : Cell) : ∃ direct : List Cell,
    (Answers.findAll do
      let f ← cellDependsOn facts none (some c)
      return f.1) = Answers.pure direct ∧ ∀ d, d ∈ direct ↔ Depends facts d c := by
  refine ⟨(facts.filter fun f => none.all (· == f.1) && (some c).all (· == f.2)).flatMap
    fun f => [f.1], ?_, fun d => ?_⟩
  · rw [cellDependsOn, Answers.ofList_bind_of_complete fun _ _ => rfl, Answers.findAll_ofList]
    rfl
  · rw [List.mem_flatMap]
    constructor
    · rintro ⟨f, hf, hd⟩
      obtain ⟨rfl, hdepends⟩ := mem_filter_snd.mp hf
      rwa [List.mem_singleton.mp hd]
    · exact fun hd => ⟨(d, c), mem_filter_snd.mpr ⟨rfl, hd⟩, List.mem_singleton_self d⟩

/-- A cell with a fact, and the cells that depend on it. -/
lemma dep_or_subDeps {fuel : ℕ} {sub : List Cell}
    (h : queryCellDependencies facts fuel d = .ofList [sub]) :
    (Answers.or (return d) do
      let subDeps ← queryCellDependencies facts fuel d
      .ofList subDeps) = .ofList (d :: sub) := by
  rw [h]
  change Answers.or (.ofList [d]) (Answers.pure sub >>= Answers.ofList) = _
  rw [Answers.pure_bind, Answers.ofList_or, List.singleton_append]

/-- The search for dependent cells ends, and finds them all. -/
lemma queryCellDependencies_spec {rank : Cell → ℕ} {bound : ℕ} (hbound : ∀ c, rank c ≤ bound)
    (hrank : ∀ c d, Depends facts c d → rank d < rank c) :
    ∀ fuel c, bound - rank c < fuel → ∃ deps : List Cell,
      queryCellDependencies facts fuel c = .ofList [deps] ∧ deps.Pairwise (· < ·)
        ∧ ∀ d, d ∈ deps ↔ TransGen (Depends facts) d c := by
  intro fuel
  induction fuel with
  | zero => exact fun c hc => absurd hc (Nat.not_lt_zero _)
  | succ fuel ih =>
      intro c hc
      obtain ⟨direct, hdirect, hmem⟩ := exists_directDeps facts c
      -- Above a cell the ranks rise to the bound.
      have hbelow : ∀ d ∈ direct, bound - rank d < fuel := fun d hd => by
        have hlt := hrank _ _ ((hmem d).mp hd)
        have hle := hbound d
        omega
      rw [queryCellDependencies, hdirect, Answers.pure_bind]
      split_ifs with hnil
      · refine ⟨[], rfl, .nil, fun d => iff_of_false List.not_mem_nil fun hd => ?_⟩
        obtain ⟨e, -, he⟩ := TransGen.tail'_iff.mp hd
        rw [← hmem, hnil] at he
        exact List.not_mem_nil he
      · have hsub : ∀ dep ∈ direct, ∃ sub : List Cell,
            (Answers.or (return dep) do
              let subDeps ← queryCellDependencies facts fuel dep
              .ofList subDeps) = .ofList (dep :: sub)
              ∧ ∀ d, d ∈ sub ↔ TransGen (Depends facts) d dep := fun dep hdep => by
          obtain ⟨sub, hquery, -, hmemsub⟩ := ih dep (hbelow dep hdep)
          exact ⟨sub, dep_or_subDeps hquery, hmemsub⟩
        rw [Answers.ofList_bind_of_complete fun dep hdep => by
            obtain ⟨sub, heq, -⟩ := hsub dep hdep
            rw [heq]
            rfl,
          Answers.findAll_ofList, Answers.pure_bind]
        refine ⟨_, rfl, pairwise_sort _, fun d => ?_⟩
        rw [mem_sort, List.mem_flatMap, transGen_iff_tail]
        constructor
        · rintro ⟨dep, hdep, hd⟩
          obtain ⟨sub, heq, hmemsub⟩ := hsub dep hdep
          rw [heq] at hd
          rcases List.mem_cons.mp hd with rfl | hd
          · exact .inl ((hmem d).mp hdep)
          · exact .inr ⟨dep, (hmem dep).mp hdep, (hmemsub d).mp hd⟩
        · rintro (hd | ⟨dep, hdep, htrans⟩)
          · obtain ⟨sub, heq, -⟩ := hsub d ((hmem d).mpr hd)
            exact ⟨d, (hmem d).mpr hd, heq ▸ List.mem_cons_self⟩
          · obtain ⟨sub, heq, hmemsub⟩ := hsub dep ((hmem dep).mpr hdep)
            exact ⟨dep, (hmem dep).mpr hdep,
              heq ▸ List.mem_cons_of_mem _ ((hmemsub d).mpr htrans)⟩

/-- Without cycles, the query returns the cells that depend on a cell. -/
theorem cellDependencies_returns (h : ¬HasCycle facts none) (c : Cell) :
    ∃ deps, Returns (queryCellDependencies facts · c) deps ∧ deps.Pairwise (· < ·)
      ∧ ∀ d, d ∈ deps ↔ TransGen (Depends facts) d c := by
  obtain ⟨rank, bound, hbound, hrank⟩ := exists_rank h
  obtain ⟨deps, -, hsorted, hmem⟩ :=
    queryCellDependencies_spec hbound hrank (bound + 1) c (Nat.lt_succ_of_le (Nat.sub_le _ _))
  refine ⟨deps, ⟨bound + 1, fun fuel hfuel => ?_⟩, hsorted, hmem⟩
  obtain ⟨deps', hquery, hsorted', hmem'⟩ :=
    queryCellDependencies_spec hbound hrank fuel c ((Nat.sub_le _ _).trans_lt hfuel)
  have hsame : deps' = deps := hsorted'.eq_of_mem_iff hsorted fun d => by rw [hmem', hmem]
  change queryCellDependencies facts fuel c = _
  rw [hquery, hsame]

/-! ### The order of the dependencies -/

/-- The provenance of a cell is itself and all it depends on, each once and before all that it
depends on. -/
def ChainRight (facts : List (Cell × Cell)) (c : Cell) : Prop :=
  ∃ chain, Returns (queryProvenanceChain facts · c) chain ∧ chain.Nodup
    ∧ (∀ d, d ∈ chain ↔ ReflTransGen (Depends facts) c d)
    ∧ ∀ a ∈ chain, ∀ b ∈ chain, TransGen (Depends facts) a b → chain.idxOf a < chain.idxOf b

/-- The dependent cells of a cell are all that depend on it, each once and behind all of them
that it depends on. -/
def DependenciesRight (facts : List (Cell × Cell)) (c : Cell) : Prop :=
  ∃ deps, Returns (queryCellDependencies facts · c) deps ∧ deps.Nodup
    ∧ (∀ d, d ∈ deps ↔ TransGen (Depends facts) d c)
    ∧ ∀ a ∈ deps, ∀ b ∈ deps, TransGen (Depends facts) a b → deps.idxOf b < deps.idxOf a

omit [LinearOrder Cell] in
lemma Returns.unique {query : ℕ → Answers (List Cell)} {l l' : List Cell}
    (h : Returns query l) (h' : Returns query l') : l = l' := by
  obtain ⟨enough, henough⟩ := h
  obtain ⟨enough', henough'⟩ := h'
  have heq := (henough _ (le_max_left enough enough')).symm.trans (henough' _ (le_max_right _ _))
  exact List.head_eq_of_cons_eq (congrArg Answers.found heq)

/-- In a sorted list, the order of the places is that of the members. -/
lemma idxOf_lt_iff {r : Cell → Cell → Prop} [Std.Asymm r] {l : List Cell} (h : l.Pairwise r)
    {a b : Cell} (ha : a ∈ l) (hb : b ∈ l) : l.idxOf a < l.idxOf b ↔ r a b := by
  have hlt {a b : Cell} (ha : a ∈ l) (hb : b ∈ l) (hab : l.idxOf a < l.idxOf b) : r a b := by
    have hget := List.pairwise_iff_getElem.mp h _ _ (List.idxOf_lt_length_iff.mpr ha)
      (List.idxOf_lt_length_iff.mpr hb) hab
    rwa [List.getElem_idxOf, List.getElem_idxOf] at hget
  refine ⟨hlt ha hb, fun hab => ?_⟩
  rcases lt_trichotomy (l.idxOf a) (l.idxOf b) with hidx | hidx | hidx
  · exact hidx
  · obtain rfl := (List.idxOf_inj ha).mp hidx
    exact absurd hab (Std.Asymm.asymm _ _ hab)
  · exact absurd (hlt hb ha hidx) (Std.Asymm.asymm _ _ hab)

omit [LinearOrder Cell] in
lemma ReflTransGen.transGen_below [Preorder Cell] {r : Cell → Cell → Prop}
    (h : ∀ a b, ReflTransGen r c a → r a b → b < a) {a b : Cell} (ha : ReflTransGen r c a)
    (hab : TransGen r a b) : b < a := by
  induction hab with
  | single hb => exact h _ _ ha hb
  | tail hab hb ih => exact (h _ _ (ha.trans hab.to_reflTransGen) hb).trans ih

omit [LinearOrder Cell] in
lemma TransGen.transGen_below [Preorder Cell] {r : Cell → Cell → Prop}
    (h : ∀ a b, r a b → TransGen r b c → b < a) {a b : Cell} (hab : TransGen r a b)
    (hb : TransGen r b c) : b < a := by
  induction hab using TransGen.head_induction_on with
  | single ha => exact h _ _ ha hb
  | head ha hab ih => exact ih.trans (h _ _ ha (hab.trans hb))

/-- The provenance is in the right order only if the numbers are. -/
lemma ChainRight.below (h : ¬HasCycle facts none) (hright : ChainRight facts c) {a b : Cell}
    (ha : ReflTransGen (Depends facts) c a) (hab : Depends facts a b) : b < a := by
  obtain ⟨chain, hreturns, hsorted, hmem⟩ := provenanceChain_returns h c
  obtain ⟨chain', hreturns', -, -, horder⟩ := hright
  obtain rfl := hreturns.unique hreturns'
  have ha' : a ∈ chain := (hmem a).mpr ha
  have hb : b ∈ chain := (hmem b).mpr (ha.tail hab)
  exact (idxOf_lt_iff hsorted ha' hb).mp (horder a ha' b hb (.single hab))

/-- So are the dependent cells. -/
lemma DependenciesRight.below (h : ¬HasCycle facts none) (hright : DependenciesRight facts c)
    {a b : Cell} (hab : Depends facts a b) (hb : TransGen (Depends facts) b c) : b < a := by
  obtain ⟨deps, hreturns, hsorted, hmem⟩ := cellDependencies_returns h c
  obtain ⟨deps', hreturns', -, -, horder⟩ := hright
  obtain rfl := hreturns.unique hreturns'
  have ha : a ∈ deps := (hmem a).mpr (.head hab hb)
  have hb' : b ∈ deps := (hmem b).mpr hb
  exact (idxOf_lt_iff hsorted hb' ha).mp (horder a ha b hb' (.single hab))

/-- Without cycles, the queries return the right cells, and they return them in the right order
exactly if every dependency among these cells is on a cell with a lower number. -/
theorem queries_right_iff (h : ¬HasCycle facts none) (c : Cell) :
    (ChainRight facts c ↔ ∀ a b, ReflTransGen (Depends facts) c a → Depends facts a b → b < a)
      ∧ (DependenciesRight facts c
        ↔ ∀ a b, Depends facts a b → TransGen (Depends facts) b c → b < a) := by
  refine ⟨⟨fun hright a b => hright.below h, fun hbelow => ?_⟩,
    ⟨fun hright a b => hright.below h, fun hbelow => ?_⟩⟩
  · obtain ⟨chain, hreturns, hsorted, hmem⟩ := provenanceChain_returns h c
    refine ⟨chain, hreturns, hsorted.imp fun hab => ne_of_gt hab, hmem,
      fun a ha b hb hab => (idxOf_lt_iff hsorted ha hb).mpr ?_⟩
    exact ReflTransGen.transGen_below hbelow ((hmem a).mp ha) hab
  · obtain ⟨deps, hreturns, hsorted, hmem⟩ := cellDependencies_returns h c
    refine ⟨deps, hreturns, hsorted.imp fun hab => ne_of_lt hab, hmem,
      fun a ha b hb hab => (idxOf_lt_iff hsorted hb ha).mpr ?_⟩
    exact TransGen.transGen_below hbelow hab ((hmem b).mp hb)

omit [LinearOrder Cell] in
/-- Facts that follow a strict order have no cycle. -/
lemma not_hasCycle_of {r : Cell → Cell → Prop} [Std.Irrefl r] [IsTrans Cell r]
    (h : ∀ f ∈ facts, r f.1 f.2) : ¬HasCycle facts none := by
  rintro ⟨c, -, hcycle⟩
  exact Std.Irrefl.irrefl c (transGen_minimal (fun a b hab => h (a, b) hab) c c hcycle)

/-- The cells of the notebook, where those that follow depend on those before. -/
theorem queries_right_notebook :
    ChainRight [(2, 1), (3, 1), (4, 3), (4, 2)] 4
      ∧ DependenciesRight [(2, 1), (3, 1), (4, 3), (4, 2)] 1 := by
  have hlt : ∀ f ∈ [(2, 1), (3, 1), (4, 3), (4, 2)], f.1 > f.2 := by decide
  have hacyclic := not_hasCycle_of hlt
  exact ⟨(queries_right_iff hacyclic 4).1.mpr fun a b _ hab => hlt (a, b) hab,
    (queries_right_iff hacyclic 1).2.mpr fun a b hab _ => hlt (a, b) hab⟩

/-- The first cell depends on the second and the second on the third: both queries return their
cells in the wrong order. -/
theorem queries_wrong_backwards :
    ¬HasCycle [(1, 2), (2, 3)] none ∧ ¬ChainRight [(1, 2), (2, 3)] 1
      ∧ ¬DependenciesRight [(1, 2), (2, 3)] 3 := by
  have hlt : ∀ f ∈ [(1, 2), (2, 3)], f.1 < f.2 := by decide
  have hacyclic := not_hasCycle_of hlt
  have hfirst : Depends [(1, 2), (2, 3)] 1 2 := List.mem_cons_self
  have hsecond : Depends [(1, 2), (2, 3)] 2 3 := List.mem_cons_of_mem _ List.mem_cons_self
  refine ⟨hacyclic, fun hright => ?_, fun hright => ?_⟩
  · exact absurd (hright.below hacyclic .refl hfirst) (by decide)
  · exact absurd (hright.below hacyclic hfirst (.single hsecond)) (by decide)

end Notebook

end SovereignBus
