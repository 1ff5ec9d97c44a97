import SovereignBus.Library.Answers
import SovereignBus.Library.Search

/-!
A walk along a relation that is searched depth first for a way to a goal.

* `walk`: the predicate that tries the successors of a node in order, stops at one that is a
  goal, and goes on from one that is not.
* `Fails`: no goal and no cycle is below a node. `Led`: the first successors that do not fail
  lead to a goal.
* `fails_of_walk` and `led_of_walk`: a walk that ends was over the one or the other.
* `walk_of_fails` and `walk_of_led`: where finitely many nodes have successors, it ends there.
* `fails_or_led`: without a cycle below, a node is one of the two.
-/

namespace Walk

open Relation

variable {V : Type} (succ : V → List V) (goal : V → Prop) [DecidablePred goal]

/-- The walk from a node, as deep as its fuel. -/
def walk : ℕ → V → Answers Unit
  | 0, _ => .stuck
  | fuel + 1, v => do
      let w ← .ofList (succ v)
      if goal w then return () else walk fuel w

/-- Below a node there is neither a goal nor a cycle. -/
structure Fails (goal : V → Prop) (v : V) : Prop where
  not_goal : ∀ w, TransGen (fun v w => w ∈ succ v) v w → ¬ goal w
  not_cyclic : ¬ Search.Cyclic succ v

/-- The first successors that do not fail lead to a goal. -/
inductive Led (goal : V → Prop) : V → Prop where
  | goal {v w pre post} (h : succ v = pre ++ w :: post)
      (hpre : ∀ x ∈ pre, ¬ goal x ∧ Fails succ goal x) (hw : goal w) : Led goal v
  | step {v w pre post} (h : succ v = pre ++ w :: post)
      (hpre : ∀ x ∈ pre, ¬ goal x ∧ Fails succ goal x) (hw : ¬ goal w) (hled : Led goal w) :
      Led goal v

variable {succ goal} {v w : V}

omit [DecidablePred goal] in
/-- A node fails if its successors are no goals and fail. -/
lemma fails_iff : Fails succ goal v ↔ ∀ w ∈ succ v, ¬ goal w ∧ Fails succ goal w := by
  constructor
  · intro h w hw
    exact ⟨h.not_goal w (.single hw), fun x hx => h.not_goal x (.head hw hx),
      fun hcyclic => h.not_cyclic (Search.cyclic_iff.mpr ⟨w, hw, hcyclic⟩)⟩
  · intro h
    constructor
    · intro x hx
      obtain ⟨w, hw, hwx⟩ := TransGen.head'_iff.mp hx
      rcases reflTransGen_iff_eq_or_transGen.mp hwx with rfl | hwx
      · exact (h x hw).1
      · exact (h w hw).2.not_goal x hwx
    · intro hcyclic
      obtain ⟨w, hw, hcyclic⟩ := Search.cyclic_iff.mp hcyclic
      exact (h w hw).2.not_cyclic hcyclic

lemma mem_of_append {pre post : List V} (h : succ v = pre ++ w :: post) : w ∈ succ v := by
  rw [h]
  exact List.mem_append_right _ List.mem_cons_self

omit [DecidablePred goal] in
/-- Being led is a way to a goal. -/
lemma Led.transGen (h : Led succ goal v) :
    ∃ w, goal w ∧ TransGen (fun v w => w ∈ succ v) v w := by
  induction h with
  | @goal v w pre post h _ hw => exact ⟨w, hw, .single (mem_of_append h)⟩
  | @step v w pre post h _ _ _ ih =>
      obtain ⟨x, hx, hwx⟩ := ih
      exact ⟨x, hx, .head (mem_of_append h) hwx⟩

/-! ### What the walk comes to -/

lemma first_next_none_iff {fuel : ℕ} :
    (if goal w then (return () : Answers Unit) else walk succ goal fuel w).first = some none
      ↔ ¬ goal w ∧ (walk succ goal fuel w).first = some none := by
  split_ifs with hw
  · simp [hw]
  · simp [hw]

lemma walk_none_iff {fuel : ℕ} :
    (walk succ goal (fuel + 1) v).first = some none
      ↔ ∀ w ∈ succ v, ¬ goal w ∧ (walk succ goal fuel w).first = some none := by
  rw [walk, Answers.first_bind_ofList_none_iff]
  exact forall₂_congr fun w _ => first_next_none_iff

lemma walk_some_iff {fuel : ℕ} :
    (walk succ goal (fuel + 1) v).first = some (some ())
      ↔ ∃ pre w post, succ v = pre ++ w :: post
        ∧ (∀ x ∈ pre, ¬ goal x ∧ (walk succ goal fuel x).first = some none)
        ∧ (goal w ∨ ¬ goal w ∧ (walk succ goal fuel w).first = some (some ())) := by
  rw [walk, Answers.first_bind_ofList_some_iff]
  simp only [first_next_none_iff]
  refine exists_congr fun pre => exists_congr fun w => exists_congr fun post =>
    and_congr_right fun _ => and_congr_right fun _ => ?_
  split_ifs with hw
  · simp [hw]
  · simp [hw]

/-- A walk that ends without an answer has left no goal and no cycle below. -/
lemma fails_of_walk {fuel : ℕ} (h : (walk succ goal fuel v).first = some none) :
    Fails succ goal v := by
  induction fuel generalizing v with
  | zero => simp [walk] at h
  | succ fuel ih =>
      exact fails_iff.mpr fun w hw => ((walk_none_iff.mp h) w hw).imp_right ih

lemma led_of_walk {fuel : ℕ} (h : (walk succ goal fuel v).first = some (some ())) :
    Led succ goal v := by
  induction fuel generalizing v with
  | zero => simp [walk] at h
  | succ fuel ih =>
      obtain ⟨pre, w, post, hsucc, hpre, hw⟩ := walk_some_iff.mp h
      have hfails : ∀ x ∈ pre, ¬ goal x ∧ Fails succ goal x :=
        fun x hx => (hpre x hx).imp_right fails_of_walk
      rcases hw with hw | ⟨hw, hwalk⟩
      · exact .goal hsucc hfails hw
      · exact .step hsucc hfails hw (ih hwalk)

/-- Where only finitely many nodes have successors, a fuel is enough for all nodes that fail. -/
lemma walk_of_fails {nodes : Finset V} (hnodes : ∀ v, v ∉ nodes → succ v = []) :
    ∀ fuel > nodes.card, ∀ v, Fails succ goal v → (walk succ goal fuel v).first = some none := by
  obtain ⟨rank, hbound, hrank⟩ := Search.exists_rank hnodes
  have hdeep : ∀ fuel v, rank v < fuel → Fails succ goal v →
      (walk succ goal fuel v).first = some none := fun fuel => by
    induction fuel with
    | zero => exact fun v hlt => absurd hlt (Nat.not_lt_zero _)
    | succ fuel ih =>
        intro v hlt hfails
        refine walk_none_iff.mpr fun w hw => ?_
        obtain ⟨hgoal, hbelow⟩ := fails_iff.mp hfails w hw
        have hless := hrank v w hfails.not_cyclic hw
        exact ⟨hgoal, ih w (by omega) hbelow⟩
  exact fun fuel hfuel v hfails => hdeep fuel v ((hbound v).trans_lt hfuel) hfails

/-- A node that is led to a goal has its own fuel. -/
lemma walk_of_led {nodes : Finset V} (hnodes : ∀ v, v ∉ nodes → succ v = [])
    (h : Led succ goal v) : ∃ enough, ∀ fuel ≥ enough,
      (walk succ goal fuel v).first = some (some ()) := by
  have hfails : ∀ fuel > nodes.card, ∀ v, Fails succ goal v →
      (walk succ goal fuel v).first = some none := walk_of_fails hnodes
  induction h with
  | @goal v w pre post h hpre hw =>
      refine ⟨nodes.card + 2, fun fuel hfuel => ?_⟩
      obtain ⟨fuel, rfl⟩ := Nat.exists_eq_add_of_le' (Nat.one_le_of_lt hfuel)
      exact walk_some_iff.mpr ⟨pre, w, post, h,
        fun x hx => ⟨(hpre x hx).1, hfails fuel (by omega) x (hpre x hx).2⟩, .inl hw⟩
  | @step v w pre post h hpre hw _ ih =>
      obtain ⟨enough, hwalk⟩ := ih
      refine ⟨max (nodes.card + 1) enough + 1, fun fuel hfuel => ?_⟩
      obtain ⟨fuel, rfl⟩ := Nat.exists_eq_add_of_le' (le_of_add_le_right hfuel)
      exact walk_some_iff.mpr ⟨pre, w, post, h,
        fun x hx => ⟨(hpre x hx).1, hfails fuel (by omega) x (hpre x hx).2⟩,
        .inr ⟨hw, hwalk fuel (by omega)⟩⟩

/-- Without a cycle below, a node fails or is led to a goal. -/
lemma fails_or_led {nodes : Finset V} (hnodes : ∀ v, v ∉ nodes → succ v = [])
    (h : ¬ Search.Cyclic succ v) : Fails succ goal v ∨ Led succ goal v := by
  obtain ⟨rank, -, hrank⟩ := Search.exists_rank hnodes
  induction hv : rank v using Nat.strong_induction_on generalizing v with
  | _ n ih =>
      by_cases hfails : ∀ w ∈ succ v, ¬ goal w ∧ Fails succ goal w
      · exact .inl (fails_iff.mpr hfails)
      · push Not at hfails
        obtain ⟨pre, w, post, hsucc, hpre, hw⟩ := Answers.exists_first hfails
        have hmem : w ∈ succ v := mem_of_append hsucc
        have hbefore : ∀ x ∈ pre, ¬ goal x ∧ Fails succ goal x := fun x hx => by
          simpa only [Classical.not_imp, not_not] using hpre x hx
        by_cases hgoal : goal w
        · exact .inr (.goal hsucc hbefore hgoal)
        · have hacyclic : ¬ Search.Cyclic succ w := fun hcyclic =>
            h (Search.cyclic_iff.mpr ⟨w, hmem, hcyclic⟩)
          have hled : Led succ goal w := (ih (rank w) (hv ▸ hrank v w h hmem) hacyclic
            rfl).resolve_left (hw hgoal)
          exact .inr (.step hsucc hbefore hgoal hled)

end Walk
