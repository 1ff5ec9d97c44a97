import Mathlib

/-!
Runs of a machine that answers every input with an output.

* `exec`: the run of a list of inputs, with the history of inputs and outputs
  it leaves, and `exec_induction`, the rule that carries a relation between
  history and state through a run. `exec_map` runs a machine that another one
  simulates.
* `run_iff_inputs`, `run_iff`: what a step keeps exactly on inputs that are not
  bad, a run keeps exactly when none of its inputs is bad.
* `foldlM_preserves`: what every step keeps that succeeds, a run of such steps
  keeps.
* `lockstep`, `lockstep_iff`: two machines on the same inputs, each of which gets them in
  its own form. They answer alike as long as no input sets them apart.
* `Epochs`: a history cut into epochs by marking entries, with the items each
  epoch collected; `Epochs.of_concat` follows one more entry.
-/

namespace Machine

variable {S I O : Type*} (step : S → I → O × S)

/-- The run of a list of inputs from a state: the history of inputs and
outputs, and the state it ends in. -/
def exec (s : S) : List I → List (I × O) × S
  | [] => ([], s)
  | i :: is =>
      let r := step s i
      let t := exec r.2 is
      ((i, r.1) :: t.1, t.2)

@[simp] lemma exec_nil (s : S) : exec step s [] = ([], s) := rfl

lemma exec_concat (s : S) (is : List I) (i : I) :
    exec step s (is ++ [i])
      = ((exec step s is).1 ++ [(i, (step (exec step s is).2 i).1)],
          (step (exec step s is).2 i).2) := by
  induction is generalizing s with
  | nil => rfl
  | cons j is ih => simp [exec, ih]

@[simp] lemma exec_length (s : S) (is : List I) : (exec step s is).1.length = is.length := by
  induction is generalizing s with
  | nil => rfl
  | cons i is ih => simp [exec, ih]

lemma exec_append (s : S) (is js : List I) :
    exec step s (is ++ js)
      = ((exec step s is).1 ++ (exec step (exec step s is).2 js).1,
          (exec step (exec step s is).2 js).2) := by
  induction is generalizing s with
  | nil => rfl
  | cons i is ih => simp [exec, ih]

/-- A machine whose steps are those of another one has its runs. -/
lemma exec_map {T : Type*} {step' : T → I → O × T} (f : T → S)
    (hstep : ∀ t i, step (f t) i = ((step' t i).1, f (step' t i).2)) (t : T) (is : List I) :
    exec step (f t) is = ((exec step' t is).1, f (exec step' t is).2) := by
  induction is generalizing t with
  | nil => rfl
  | cons i is ih => rw [exec, hstep, ih, exec]

/-- The induction rule of runs: what holds of the empty history and survives
every step whose input satisfies `C` holds of every run on such inputs. -/
theorem exec_induction {s : S} {C : I → Prop} {P : List (I × O) → S → Prop} (h0 : P [] s)
    (hstep : ∀ hist t i, C i → P hist t → P (hist ++ [(i, (step t i).1)]) (step t i).2)
    (is : List I) (his : ∀ i ∈ is, C i) : P (exec step s is).1 (exec step s is).2 := by
  induction is using List.reverseRecOn with
  | nil => exact h0
  | append_singleton is i ih =>
      rw [exec_concat]
      exact hstep _ _ _ (his i (by simp)) (ih fun j hj => his j (by simp [hj]))

variable {step}

/-- What one step keeps exactly on inputs that are not bad, a whole run keeps
exactly when no input of it is bad. The property may look at the inputs so
far. -/
theorem run_iff_inputs (P : List I → S → Prop) (Bad : S → I → Prop) {s : S} (h0 : P [] s)
    (hstep : ∀ is i, P is (exec step s is).2 →
      (P (is ++ [i]) (step (exec step s is).2 i).2 ↔ ¬ Bad (exec step s is).2 i)) (is : List I) :
    (∀ is', is' <+: is → P is' (exec step s is').2)
      ↔ ∀ is' i, is' ++ [i] <+: is → ¬ Bad (exec step s is').2 i := by
  constructor
  · intro h is' i hpre
    have hlast := h _ hpre
    rw [exec_concat] at hlast
    exact (hstep is' i (h is' ((List.prefix_append is' [i]).trans hpre))).mp hlast
  · intro h is' hpre
    induction is' using List.reverseRecOn with
    | nil => exact h0
    | append_singleton is' i ih =>
        rw [exec_concat]
        exact (hstep is' i (ih ((List.prefix_append is' [i]).trans hpre))).mpr (h is' i hpre)

/-- The rule for a property of the state alone. -/
theorem run_iff {P : S → Prop} {Bad : S → I → Prop} {s : S} (h0 : P s)
    (hstep : ∀ t i, P t → (P (step t i).2 ↔ ¬ Bad t i)) (is : List I) :
    (∀ is', is' <+: is → P (exec step s is').2)
      ↔ ∀ is' i, is' ++ [i] <+: is → ¬ Bad (exec step s is').2 i :=
  run_iff_inputs (fun _ t => P t) Bad h0 (fun _ i h => hstep _ i h) is

/-- What occurs in order in a history with one more entry. -/
lemma concat_sublist_concat_iff {A : Type*} (xs : List A) {hist : List A} {x e : A} :
    (xs ++ [x]).Sublist (hist ++ [e]) ↔ (xs ++ [x]).Sublist hist ∨ x = e ∧ xs.Sublist hist := by
  rw [← List.reverse_sublist, List.reverse_append, List.reverse_append, List.reverse_singleton,
    List.reverse_singleton, List.singleton_append, List.singleton_append, List.sublist_cons_iff]
  refine or_congr ?_ ?_
  · rw [← List.reverse_sublist]
    simp
  · simp [and_comm, eq_comm]

/-- What every step of a run keeps, the run keeps, if no step of it fails. -/
lemma foldlM_preserves {X : Type*} {f : S → I → Except X S} {P : S → Prop}
    (hstep : ∀ s i s', P s → f s i = .ok s' → P s') {is : List I} {s s' : S} (hP : P s)
    (hrun : is.foldlM f s = .ok s') : P s' := by
  induction is generalizing s with
  | nil =>
      obtain ⟨⟩ := hrun
      exact hP
  | cons i is ih =>
      rw [List.foldlM_cons] at hrun
      cases hnext : f s i with
      | error x =>
          rw [hnext] at hrun
          obtain ⟨⟩ := hrun
      | ok next =>
          rw [hnext] at hrun
          exact ih (hstep s i next hP hnext) hrun

/-! ### Two machines in lockstep -/

section Lockstep

variable {T J P : Type*} {step' : T → J → P × T} {X : Type*} {f : X → I} {g : X → J}
  {R : S → T → Prop} {Alike : O → P → Prop}

/-- The answers of two runs are alike, one by one. -/
def AllAlike (Alike : O → P → Prop) (hist : List (I × O)) (hist' : List (J × P)) : Prop :=
  List.Forall₂ (fun c c' => Alike c.2 c'.2) hist hist'

lemma AllAlike.map_eq {hist : List (I × O)} {hist' : List (J × O)}
    (h : AllAlike (fun r r' => r = r') hist hist') : hist.map Prod.snd = hist'.map Prod.snd := by
  induction h with
  | nil => rfl
  | cons hhead _ ih => rw [List.map_cons, List.map_cons, hhead, ih]

/-- Inputs on which related machines answer alike and stay related, one after the other. -/
theorem lockstep {G : S → T → X → Prop}
    (hstep : ∀ s t x, R s t → G s t x →
      Alike (step s (f x)).1 (step' t (g x)).1 ∧ R (step s (f x)).2 (step' t (g x)).2)
    {s : S} {t : T} (h0 : R s t) {xs : List X}
    (hgood : ∀ before x, before ++ [x] <+: xs →
      G (exec step s (before.map f)).2 (exec step' t (before.map g)).2 x) :
    AllAlike Alike (exec step s (xs.map f)).1 (exec step' t (xs.map g)).1
      ∧ R (exec step s (xs.map f)).2 (exec step' t (xs.map g)).2 := by
  induction xs generalizing s t with
  | nil => exact ⟨.nil, h0⟩
  | cons x xs ih =>
      obtain ⟨halike, hrel⟩ := hstep s t x h0 (hgood [] x (by simp))
      obtain ⟨hall, hend⟩ := ih hrel fun before y hpre =>
        hgood (x :: before) y (List.cons_prefix_cons.mpr ⟨rfl, hpre⟩)
      exact ⟨.cons halike hall, hend⟩

/-- Machines that are related after alike answers are related after a run of them. -/
lemma lockstep_end
    (hkeep : ∀ s t x, R s t → Alike (step s (f x)).1 (step' t (g x)).1 →
      R (step s (f x)).2 (step' t (g x)).2)
    {s : S} {t : T} (h0 : R s t) {xs : List X}
    (h : AllAlike Alike (exec step s (xs.map f)).1 (exec step' t (xs.map g)).1) :
    R (exec step s (xs.map f)).2 (exec step' t (xs.map g)).2 := by
  induction xs generalizing s t with
  | nil => exact h0
  | cons x xs ih =>
      obtain ⟨halike, hall⟩ := List.forall₂_cons.mp h
      exact ih (hkeep s t x h0 halike) hall

/-- Two machines whose states stay related as long as they answer alike answer alike
throughout exactly if no input sets them apart. -/
theorem lockstep_iff {Apart : S → T → X → Prop}
    (hstep : ∀ s t x, R s t → (Alike (step s (f x)).1 (step' t (g x)).1 ↔ ¬ Apart s t x))
    (hkeep : ∀ s t x, R s t → Alike (step s (f x)).1 (step' t (g x)).1 →
      R (step s (f x)).2 (step' t (g x)).2)
    {s : S} {t : T} (h0 : R s t) (xs : List X) :
    AllAlike Alike (exec step s (xs.map f)).1 (exec step' t (xs.map g)).1
      ↔ ∀ before x, before ++ [x] <+: xs →
        ¬ Apart (exec step s (before.map f)).2 (exec step' t (before.map g)).2 x := by
  constructor
  · intro h
    induction xs generalizing s t with
    | nil => simp
    | cons y xs ih =>
        obtain ⟨halike, hall⟩ := List.forall₂_cons.mp h
        rintro (_ | ⟨z, before⟩) x hpre
        · obtain ⟨rfl, -⟩ := List.cons_prefix_cons.mp hpre
          exact (hstep s t x h0).mp halike
        · obtain ⟨rfl, hrest⟩ := List.cons_prefix_cons.mp hpre
          exact ih (hkeep s t z h0 halike) hall before x hrest
  · intro h
    refine (lockstep (G := fun s t x => ¬ Apart s t x) (fun s t x hrel hgood => ?_) h0 h).1
    have halike := (hstep s t x hrel).mpr hgood
    exact ⟨halike, hkeep s t x hrel halike⟩

end Lockstep

end Machine

/-- The items of a history, cut at its marking entries: the epochs that are
over and the one that is running. -/
structure Epochs (A : Type*) where
  past : List (List A)
  current : List A

namespace Epochs

variable {E A : Type*}

/-- All epochs, in order. -/
def all (e : Epochs A) : List (List A) := e.past ++ [e.current]

/-- All items, in order. -/
def items (e : Epochs A) : List A := e.all.flatten

/-- One more entry: a mark opens an epoch, an item joins the running one. -/
def push (mark : E → Bool) (item : E → Option A) (e : Epochs A) (x : E) : Epochs A :=
  if mark x then ⟨e.past ++ [e.current], []⟩
  else
    match item x with
    | some a => ⟨e.past, e.current ++ [a]⟩
    | none => e

/-- The epochs of a history. -/
def of (mark : E → Bool) (item : E → Option A) (hist : List E) : Epochs A :=
  hist.foldl (push mark item) ⟨[], []⟩

variable {mark : E → Bool} {item : E → Option A}

@[simp] lemma of_nil : of mark item [] = ⟨[], []⟩ := rfl

@[simp] lemma of_concat (hist : List E) (x : E) :
    of mark item (hist ++ [x]) = push mark item (of mark item hist) x := by
  simp [of]

lemma push_mark {e : Epochs A} {x : E} (h : mark x = true) :
    push mark item e x = ⟨e.past ++ [e.current], []⟩ := by
  simp [push, h]

lemma push_item {e : Epochs A} {x : E} {a : A} (h : mark x = false) (ha : item x = some a) :
    push mark item e x = ⟨e.past, e.current ++ [a]⟩ := by
  simp [push, h, ha]

lemma push_other {e : Epochs A} {x : E} (h : mark x = false) (ha : item x = none) :
    push mark item e x = e := by
  simp [push, h, ha]

/-- No epoch holds more than the history. -/
lemma items_of_length_le (hist : List E) : (of mark item hist).items.length ≤ hist.length := by
  induction hist using List.reverseRecOn with
  | nil => simp [items, all]
  | append_singleton hist x ih =>
      rw [of_concat, List.length_append, List.length_singleton, push]
      split_ifs
      · simp [items, all] at ih ⊢
        omega
      · split
        · simp [items, all] at ih ⊢
          omega
        · omega

lemma mem_all {e : Epochs A} {l : List A} : l ∈ e.all ↔ l ∈ e.past ∨ l = e.current := by
  simp [all]

lemma items_eq (e : Epochs A) : e.items = e.past.flatten ++ e.current := by
  simp [items, all]

end Epochs
