import Mathlib

/-!
Depth-first searches that stop at the first node they see again.

* `Reaches`, `Cyclic`, `NamesOnce`: the graph below a node, whether it has a cycle, and
  whether it names no node twice.
* `visit`: the search from a node, with the nodes seen so far, as deep as its fuel; `none`
  is that the fuel is used up.
* `visit_isSome`: fuel for every node that has successors is enough.
* `visit_eq_false_iff`: the search ends without a node seen again exactly if the graph has
  no cycle and names no node twice.
-/

namespace Search

open scoped List

variable {V : Type*} (succ : V → List V)

/-- `w` is below `v`. -/
def Reaches : V → V → Prop := Relation.ReflTransGen fun v w => w ∈ succ v

/-- There is a cycle below a node. -/
def Cyclic (v : V) : Prop := ∃ w, Reaches succ v w ∧ Relation.TransGen (fun v w => w ∈ succ v) w w

/-- No node is named twice below a node. -/
structure NamesOnce (v : V) : Prop where
  nodup : ∀ w, Reaches succ v w → (succ w).Nodup
  unique : ∀ w w', Reaches succ v w → Reaches succ v w' → ∀ x ∈ succ w, x ∈ succ w' → w = w'

variable {succ} {v w x : V}

lemma Reaches.refl (v : V) : Reaches succ v v := Relation.ReflTransGen.refl

lemma Reaches.head (h : w ∈ succ v) (hx : Reaches succ w x) : Reaches succ v x :=
  Relation.ReflTransGen.head h hx

lemma Reaches.trans (h : Reaches succ v w) (hx : Reaches succ w x) : Reaches succ v x :=
  Relation.ReflTransGen.trans h hx

/-- A cycle below a node is below a successor of it. -/
lemma cyclic_iff : Cyclic succ v ↔ ∃ w ∈ succ v, Cyclic succ w := by
  constructor
  · rintro ⟨x, hreach, hcycle⟩
    rcases Relation.ReflTransGen.cases_head hreach with rfl | ⟨w, hw, hreach⟩
    · obtain ⟨w, hw, hback⟩ := Relation.TransGen.head'_iff.mp hcycle
      exact ⟨w, hw, v, hback, hcycle⟩
    · exact ⟨w, hw, x, hreach, hcycle⟩
  · rintro ⟨w, hw, x, hreach, hcycle⟩
    exact ⟨x, Reaches.head hw hreach, hcycle⟩

lemma NamesOnce.of_reaches (h : NamesOnce succ v) (hw : Reaches succ v w) : NamesOnce succ w where
  nodup x hx := h.nodup x (hw.trans hx)
  unique x x' hx hx' := h.unique x x' (hw.trans hx) (hw.trans hx')

/-- Nothing leads back to a node that no cycle is below. -/
lemma not_reaches_back (h : ¬ Cyclic succ v) (hw : w ∈ succ v) : ¬ Reaches succ w v := fun hback =>
  h ⟨v, Reaches.refl v, Relation.TransGen.head'_iff.mpr ⟨w, hw, hback⟩⟩

/-- What is below two successors is below one successor. -/
lemma NamesOnce.eq_of_reaches (h : NamesOnce succ v) (hcyclic : ¬ Cyclic succ v) {w w' : V}
    (hw : w ∈ succ v) (hw' : w' ∈ succ v) (hx : Reaches succ w x) (hx' : Reaches succ w' x) :
    w = w' := by
  have hbelow : ∀ {u y : V}, u ∈ succ v → Reaches succ u y → Reaches succ v y :=
    fun hu hy => Reaches.head hu hy
  induction hx with
  | refl =>
      rcases Relation.ReflTransGen.cases_tail hx' with rfl | ⟨y, hy, hstep⟩
      · rfl
      · obtain rfl := h.unique y v (hbelow hw' hy) (Reaches.refl v) w hstep hw
        exact absurd hy (not_reaches_back hcyclic hw')
  | @tail y x hy hstep ih =>
      rcases Relation.ReflTransGen.cases_tail hx' with rfl | ⟨z, hz, hstep'⟩
      · obtain rfl := h.unique y v (hbelow hw hy) (Reaches.refl v) _ hstep hw'
        exact absurd hy (not_reaches_back hcyclic hw)
      · obtain rfl := h.unique y z (hbelow hw hy) (hbelow hw' hz) x hstep hstep'
        exact ih hz

/-- Below a node with no cycle, every step lowers the number of nodes that are still below. -/
lemma exists_rank {nodes : Finset V} (hnodes : ∀ v, v ∉ nodes → succ v = []) :
    ∃ rank : V → ℕ, (∀ v, rank v ≤ nodes.card)
      ∧ ∀ v w, ¬ Cyclic succ v → w ∈ succ v → rank w < rank v := by
  classical
  refine ⟨fun v => (nodes.filter (Reaches succ v)).card, fun v => Finset.card_filter_le _ _,
    fun v w hcyclic hw => Finset.card_lt_card ?_⟩
  have hmem : v ∈ nodes := by
    by_contra hv
    rw [hnodes v hv] at hw
    exact absurd hw List.not_mem_nil
  refine (Finset.ssubset_iff_of_subset fun x hx => ?_).mpr ⟨v, ?_, ?_⟩
  · rw [Finset.mem_filter] at hx ⊢
    exact ⟨hx.1, Reaches.head hw hx.2⟩
  · exact Finset.mem_filter.mpr ⟨hmem, Reaches.refl v⟩
  · exact fun hv => not_reaches_back hcyclic hw (Finset.mem_filter.mp hv).2

/-! ### The search -/

/-- The searches from the nodes of a list, one after another, up to the first that sees a node
again. -/
def visitList {A : Type*} (visit : A → List V → Option (Bool × List V)) :
    List A → List V → Option (Bool × List V)
  | [], seen => some (false, seen)
  | v :: vs, seen =>
      match visit v seen with
      | none => none
      | some (true, seen) => some (true, seen)
      | some (false, seen) => visitList visit vs seen

variable [DecidableEq V]

/-- The search from a node: whether it sees a node again, and the nodes it has seen. -/
def visit (succ : V → List V) : ℕ → V → List V → Option (Bool × List V)
  | 0, _, _ => none
  | n + 1, v, seen =>
      if v ∈ seen then some (true, seen) else visitList (visit succ n) (succ v) (v :: seen)

section Lists

variable {A : Type*} {check : V → List V → Option (Bool × List V)}

omit [DecidableEq V] in
lemma visitList_singleton (v : V) (seen : List V) : visitList check [v] seen = check v seen := by
  simp only [visitList]
  match check v seen with
  | none => rfl
  | some (true, _) => rfl
  | some (false, _) => rfl

omit [DecidableEq V] in
lemma visitList_append (vs ws seen : List V) :
    visitList check (vs ++ ws) seen = match visitList check vs seen with
      | none => none
      | some (true, seen) => some (true, seen)
      | some (false, seen) => visitList check ws seen := by
  induction vs generalizing seen with
  | nil => rfl
  | cons v vs ih =>
      simp only [List.cons_append, visitList]
      match check v seen with
      | none => rfl
      | some (true, seen) => rfl
      | some (false, seen) => exact ih seen

omit [DecidableEq V] in
/-- A loop over lists of nodes is one over all their nodes. -/
lemma visitList_flatMap (f : A → List V) (l : List A) (seen : List V) :
    visitList check (l.flatMap f) seen = visitList (fun a => visitList check (f a)) l seen := by
  induction l generalizing seen with
  | nil => rfl
  | cons a l ih =>
      rw [List.flatMap_cons, visitList_append, visitList]
      match visitList check (f a) seen with
      | none => rfl
      | some (true, seen) => rfl
      | some (false, seen) => exact ih seen

end Lists

omit [DecidableEq V] in
/-- A list of searches ends where each of them does. -/
lemma visitList_isSome {visit : V → List V → Option (Bool × List V)} {P : List V → Prop}
    (hvisit : ∀ v seen, P seen → ∃ r, visit v seen = some r ∧ P r.2) (vs : List V) {seen : List V}
    (h : P seen) : ∃ r, visitList visit vs seen = some r ∧ P r.2 := by
  induction vs generalizing seen with
  | nil => exact ⟨_, rfl, h⟩
  | cons v vs ih =>
      obtain ⟨⟨found, seen'⟩, hv, hP⟩ := hvisit v seen h
      rw [visitList, hv]
      cases found with
      | true => exact ⟨_, rfl, hP⟩
      | false => exact ih hP

/-- One more node is seen. -/
lemma card_sdiff_cons_lt {nodes : Finset V} {seen : List V} (hmem : v ∈ nodes) (hv : v ∉ seen) :
    (nodes \ (v :: seen).toFinset).card < (nodes \ seen.toFinset).card := by
  refine Finset.card_lt_card ((Finset.ssubset_iff_of_subset fun y hy => ?_).mpr ⟨v, ?_, ?_⟩)
  · simp only [List.toFinset_cons, Finset.mem_sdiff, Finset.mem_insert, not_or] at hy ⊢
    exact ⟨hy.1, hy.2.2⟩
  · simp [hmem, hv]
  · simp

/-- The search ends if it has fuel for every node with successors that is not seen yet. -/
theorem visit_isSome {nodes : Finset V} (hnodes : ∀ v, v ∉ nodes → succ v = []) {n : ℕ} (v : V)
    (seen : List V) (h : (nodes \ seen.toFinset).card < n) :
    ∃ r, visit succ n v seen = some r
      ∧ (nodes \ r.2.toFinset).card ≤ (nodes \ seen.toFinset).card := by
  induction n generalizing v seen with
  | zero => omega
  | succ n ih =>
      rw [visit]
      split_ifs with hv
      · exact ⟨_, rfl, le_rfl⟩
      · by_cases hmem : v ∈ nodes
        · have hless := card_sdiff_cons_lt hmem hv
          obtain ⟨r, hr, hle⟩ := visitList_isSome
            (P := fun s => (nodes \ s.toFinset).card ≤ (nodes \ (v :: seen).toFinset).card)
            (fun w s hs => by
              obtain ⟨r, hr, hle⟩ := ih w s (by omega)
              exact ⟨r, hr, hle.trans hs⟩) (succ v) le_rfl
          exact ⟨r, hr, hle.trans hless.le⟩
        · rw [hnodes v hmem]
          refine ⟨_, rfl, Finset.card_le_card (Finset.sdiff_subset_sdiff le_rfl fun y hy => ?_)⟩
          simp only [List.mem_toFinset] at hy ⊢
          exact List.mem_cons_of_mem v hy

/-! ### What a search has seen -/

omit [DecidableEq V] in
/-- A list of searches that see no node again. -/
lemma visitList_false {visit : V → List V → Option (Bool × List V)} {Q : V → Prop}
    (hvisit : ∀ v seen seen', visit v seen = some (false, seen') →
      Q v ∧ ∃ new, seen' = new ++ seen ∧ List.Perm new (v :: new.flatMap succ)
        ∧ (seen.Nodup → seen'.Nodup)) {vs seen seen' : List V}
    (h : visitList visit vs seen = some (false, seen')) :
    (∀ v ∈ vs, Q v) ∧ ∃ new, seen' = new ++ seen ∧ List.Perm new (vs ++ new.flatMap succ)
      ∧ (seen.Nodup → seen'.Nodup) := by
  induction vs generalizing seen with
  | nil =>
      obtain rfl : seen = seen' := by simpa [visitList] using h
      exact ⟨by simp, [], rfl, .nil, id⟩
  | cons v vs ih =>
      rw [visitList] at h
      match hv : visit v seen, h with
      | some (false, seen₁), h =>
          obtain ⟨hQ, new₁, rfl, hperm₁, hnodup₁⟩ := hvisit v seen seen₁ hv
          obtain ⟨hQs, new₂, rfl, hperm₂, hnodup₂⟩ := ih h
          refine ⟨by simpa using ⟨hQ, hQs⟩, new₂ ++ new₁, by rw [List.append_assoc], ?_,
            fun hseen => hnodup₂ (hnodup₁ hseen)⟩
          calc new₂ ++ new₁
              ~ vs ++ new₂.flatMap succ ++ (v :: new₁.flatMap succ) := hperm₂.append hperm₁
            _ ~ v :: (vs ++ new₂.flatMap succ ++ new₁.flatMap succ) := List.perm_middle
            _ = v :: vs ++ (new₂ ++ new₁).flatMap succ := by simp

/-- A search that sees no node again has seen new nodes, all of which but the first are named
once by the new nodes, and there is no cycle. -/
lemma visit_false {n : ℕ} {seen seen' : List V} (h : visit succ n v seen = some (false, seen')) :
    ¬ Cyclic succ v ∧ ∃ new, seen' = new ++ seen ∧ List.Perm new (v :: new.flatMap succ)
      ∧ (seen.Nodup → seen'.Nodup) := by
  induction n generalizing v seen seen' with
  | zero => simp [visit] at h
  | succ n ih =>
      rw [visit] at h
      split_ifs at h with hv
      · simp at h
      · obtain ⟨hcyclic, new, rfl, hperm, hnodup⟩ :=
          visitList_false (fun w s s' hw => ih hw) h
        refine ⟨fun hcycle => ?_, new ++ [v], by simp, ?_,
          fun hseen => hnodup (List.nodup_cons.mpr ⟨hv, hseen⟩)⟩
        · obtain ⟨w, hw, hcycle⟩ := cyclic_iff.mp hcycle
          exact hcyclic w hw hcycle
        · rw [List.flatMap_append, List.flatMap_singleton]
          calc new ++ [v]
              ~ v :: new := List.perm_append_singleton v new
            _ ~ v :: (succ v ++ new.flatMap succ) := hperm.cons v
            _ ~ v :: (new.flatMap succ ++ succ v) := List.perm_append_comm.cons v

omit [DecidableEq V] in
/-- Nodes that are all named once. -/
lemma namesOnce_of_perm {new : List V} (hperm : List.Perm new (v :: new.flatMap succ))
    (hnodup : new.Nodup) : NamesOnce succ v := by
  have hreach : ∀ w, Reaches succ v w → w ∈ new := fun w hw => by
    induction hw with
    | refl => exact hperm.mem_iff.mpr List.mem_cons_self
    | tail _ hstep ih =>
        exact hperm.mem_iff.mpr (List.mem_cons_of_mem v (List.mem_flatMap_of_mem ih hstep))
  have hnames := List.nodup_flatMap.mp (List.nodup_cons.mp (hperm.nodup_iff.mp hnodup)).2
  refine ⟨fun w hw => hnames.1 w (hreach w hw), fun w w' hw hw' x hx hx' => ?_⟩
  by_contra hne
  have hsymm : Std.Symm (Function.onFun List.Disjoint succ) :=
    ⟨fun _ _ hd => List.Disjoint.symm hd⟩
  exact hnames.2.forall (hreach w hw) (hreach w' hw') hne hx hx'

omit [DecidableEq V] in
/-- What a list of searches sees was seen before or is below the list. -/
lemma visitList_seen {visit : V → List V → Option (Bool × List V)}
    (hvisit : ∀ v seen b seen', visit v seen = some (b, seen') →
      ∀ x ∈ seen', x ∈ seen ∨ Reaches succ v x) {vs seen seen' : List V} {b : Bool}
    (h : visitList visit vs seen = some (b, seen')) :
    ∀ x ∈ seen', x ∈ seen ∨ ∃ v ∈ vs, Reaches succ v x := by
  induction vs generalizing seen with
  | nil =>
      obtain ⟨-, rfl⟩ : false = b ∧ seen = seen' := by simpa [visitList] using h
      exact fun x hx => .inl hx
  | cons v vs ih =>
      rw [visitList] at h
      intro x hx
      match hv : visit v seen, h with
      | some (true, seen₁), h =>
          obtain ⟨-, rfl⟩ : true = b ∧ seen₁ = seen' := by simpa using h
          exact (hvisit v seen _ _ hv x hx).imp_right fun hreach => ⟨v, by simp, hreach⟩
      | some (false, seen₁), h =>
          rcases ih h x hx with hx | ⟨w, hw, hreach⟩
          · exact (hvisit v seen _ _ hv x hx).imp_right fun hreach => ⟨v, by simp, hreach⟩
          · exact .inr ⟨w, by simp [hw], hreach⟩

lemma visit_seen {n : ℕ} {seen seen' : List V} {b : Bool}
    (h : visit succ n v seen = some (b, seen')) : ∀ x ∈ seen', x ∈ seen ∨ Reaches succ v x := by
  induction n generalizing v seen seen' b with
  | zero => simp [visit] at h
  | succ n ih =>
      rw [visit] at h
      split_ifs at h with hv
      · obtain ⟨-, rfl⟩ : true = b ∧ seen = seen' := by simpa using h
        exact fun x hx => .inl hx
      · intro x hx
        rcases visitList_seen (fun w s b s' hw => ih hw) h x hx with hx | ⟨w, hw, hreach⟩
        · rcases List.mem_cons.mp hx with rfl | hx
          · exact .inr (Reaches.refl x)
          · exact .inl hx
        · exact .inr (Reaches.head hw hreach)

omit [DecidableEq V] in
/-- A list of searches below which no node is named twice sees no node again. -/
lemma visitList_ne_true {visit : V → List V → Option (Bool × List V)} {vs seen : List V}
    (hvisit : ∀ v ∈ vs, ∀ seen, (∀ x, Reaches succ v x → x ∉ seen) →
      ∀ seen', visit v seen ≠ some (true, seen'))
    (hseen : ∀ v ∈ vs, ∀ seen b seen', visit v seen = some (b, seen') →
      ∀ x ∈ seen', x ∈ seen ∨ Reaches succ v x)
    (hbelow : ∀ v ∈ vs, ∀ x, Reaches succ v x → x ∉ seen)
    (happart : vs.Pairwise fun v w => ∀ x, Reaches succ v x → ¬ Reaches succ w x)
    (seen' : List V) : visitList visit vs seen ≠ some (true, seen') := by
  induction vs generalizing seen with
  | nil => simp [visitList]
  | cons v vs ih =>
      rw [visitList]
      match hv : visit v seen with
      | none => simp
      | some (true, seen₁) =>
          exact absurd hv (hvisit v (by simp) seen (hbelow v (by simp)) seen₁)
      | some (false, seen₁) =>
          obtain ⟨hfirst, hrest⟩ := List.pairwise_cons.mp happart
          refine ih (fun w hw => hvisit w (by simp [hw])) (fun w hw => hseen w (by simp [hw]))
            (fun w hw x hx hmem => ?_) hrest
          rcases hseen v (by simp) seen _ _ hv x hmem with hmem | hreach
          · exact hbelow w (by simp [hw]) x hx hmem
          · exact hfirst w hw x hreach hx

lemma visit_ne_true {n : ℕ} {seen : List V} (hcyclic : ¬ Cyclic succ v) (hnames : NamesOnce succ v)
    (hbelow : ∀ x, Reaches succ v x → x ∉ seen) (seen' : List V) :
    visit succ n v seen ≠ some (true, seen') := by
  induction n generalizing v seen seen' with
  | zero => simp [visit]
  | succ n ih =>
      rw [visit, if_neg (hbelow v (Reaches.refl v))]
      have hsucc : ∀ w ∈ succ v, Reaches succ v w := fun w hw => Reaches.head hw (Reaches.refl w)
      refine visitList_ne_true (fun w hw s hs s' => ?_) (fun w hw s b s' h => visit_seen h)
        (fun w hw x hx hmem => ?_) ?_ seen'
      · exact ih (fun hcycle => hcyclic (cyclic_iff.mpr ⟨w, hw, hcycle⟩))
          (hnames.of_reaches (hsucc w hw)) hs s'
      · rcases List.mem_cons.mp hmem with rfl | hmem
        · exact not_reaches_back hcyclic hw hx
        · exact hbelow x (Reaches.head hw hx) hmem
      · refine (hnames.nodup v (Reaches.refl v)).imp_of_mem fun hw hw' hne x hx hx' => ?_
        exact hne (hnames.eq_of_reaches hcyclic hw hw' hx hx')

/-- The search from a node ends without a node seen again exactly if there is no cycle below it
and no node is named twice. -/
theorem visit_eq_false_iff {n : ℕ} {b : Bool} {seen : List V}
    (h : visit succ n v [] = some (b, seen)) :
    b = false ↔ ¬ Cyclic succ v ∧ NamesOnce succ v := by
  constructor
  · rintro rfl
    obtain ⟨hcyclic, new, rfl, hperm, hnodup⟩ := visit_false h
    rw [List.append_nil] at hnodup
    exact ⟨hcyclic, namesOnce_of_perm hperm (hnodup List.nodup_nil)⟩
  · rintro ⟨hcyclic, hnames⟩
    cases b with
    | false => rfl
    | true => exact absurd h (visit_ne_true hcyclic hnames (by simp) seen)

end Search
