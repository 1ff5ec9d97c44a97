import Mathlib

/-!
Goals of a logic program, searched depth first, clause by clause and from left to right.

* `Answers`: the answers of a goal in the order in which they are found, up to the point
  where the search ends or its fuel is used up.
* `ofList`, `or`, `bind`, `naf`, `forAll`: facts, one clause after another, a conjunction,
  negation as failure, and `forall` by it. A recursive predicate is a function of its fuel that
  is `stuck` without any.
* `first`: the first answer, or that there is none, if the search gets so far.
* `first_bind_ofList_none_iff`, `first_bind_ofList_some_iff`: what a conjunction behind facts
  comes to. `first_forAll_some_iff`, `first_forAll_none_iff`: what a `forall` over facts does.
* `Decides`: a goal ends, with an answer exactly if something holds. It is closed under facts,
  clauses, conjunctions, negation and `forall`.
* `findAll`: all answers of a goal. `ofList_bind_of_complete`: those of a conjunction behind
  facts.
-/

universe u

/-- The answers of a goal, and whether the search for more has ended. -/
structure Answers (A : Type u) where
  found : List A
  complete : Bool

namespace Answers

variable {A B : Type u}

/-- The fuel is used up. -/
def stuck : Answers A := ⟨[], false⟩

/-- The answers from a list of facts. -/
def ofList (l : List A) : Answers A := ⟨l, true⟩

def pure (a : A) : Answers A := ofList [a]

/-- A clause and the clauses behind it. -/
def or (p q : Answers A) : Answers A :=
  if p.complete then ⟨p.found ++ q.found, q.complete⟩ else p

/-- A goal and the goals behind it, for every answer of the first. -/
def bind (p : Answers A) (f : A → Answers B) : Answers B :=
  p.found.foldr (fun a q => (f a).or q) ⟨[], p.complete⟩

instance : Monad Answers where
  pure := pure
  bind := bind

/-- The first answer, `some none` if there is no answer, and `none` if the search does not get
so far. -/
def first (p : Answers A) : Option (Option A) :=
  match p.found with
  | a :: _ => some (some a)
  | [] => if p.complete then some none else none

/-- Negation as failure. -/
def naf (p : Answers A) : Answers Unit :=
  match p.first with
  | none => stuck
  | some none => pure ()
  | some (some _) => ofList []

/-- `forall`: no answer of the goal is one for which the action fails. -/
def forAll {A B : Type} (p : Answers A) (f : A → Answers B) : Answers Unit :=
  naf (p >>= fun a => (f a).naf)

/-- `findall`: the list of all answers, which is there once the search for them has ended. -/
def findAll (p : Answers A) : Answers (List A) := if p.complete then pure p.found else stuck

/-! ### All answers -/

lemma eq_ofList {p : Answers A} (h : p.complete) : p = ofList p.found := by
  cases p
  subst h
  rfl

@[simp] lemma findAll_ofList (l : List A) : findAll (ofList l) = pure l := rfl

lemma ofList_or (l l' : List A) : (ofList l).or (ofList l') = ofList (l ++ l') := rfl

lemma ofList_nil_bind (f : A → Answers B) : ofList [] >>= f = ofList [] := rfl

lemma ofList_cons_bind (a : A) (l : List A) (f : A → Answers B) :
    ofList (a :: l) >>= f = (f a).or (ofList l >>= f) := rfl

@[simp] lemma or_ofList_nil (p : Answers A) : p.or (ofList []) = p := by
  obtain ⟨l, _ | _⟩ := p
  · rfl
  · exact (ofList_or l []).trans (congrArg ofList (List.append_nil l))

@[simp] lemma pure_bind (a : A) (f : A → Answers B) : pure a >>= f = f a := or_ofList_nil (f a)

/-- A conjunction behind facts has the answers for each of them, if the search for these ends. -/
lemma ofList_bind_of_complete {l : List A} {f : A → Answers B} (h : ∀ a ∈ l, (f a).complete) :
    ofList l >>= f = ofList (l.flatMap fun a => (f a).found) := by
  induction l with
  | nil => rfl
  | cons a l ih =>
      rw [ofList_cons_bind, ih fun b hb => h b (List.mem_cons_of_mem a hb),
        eq_ofList (h a List.mem_cons_self), ofList_or, List.flatMap_cons]

/-! ### First answers -/

@[simp] lemma first_stuck : (stuck : Answers A).first = none := rfl

@[simp] lemma first_pure (a : A) : (Pure.pure a : Answers A).first = some (some a) := rfl

@[simp] lemma first_ofList (l : List A) : (ofList l).first = some l.head? := by
  cases l <;> rfl

lemma first_or (p q : Answers A) : (p.or q).first = match p.first with
    | none => none
    | some none => q.first
    | some (some a) => some (some a) := by
  rcases p with ⟨_ | ⟨a, l⟩, _ | _⟩ <;> rfl

lemma first_or_eq_none_iff {p q : Answers A} :
    (p.or q).first = some none ↔ p.first = some none ∧ q.first = some none := by
  rw [first_or]
  match p.first with
  | none => simp
  | some none => simp
  | some (some a) => simp

lemma first_or_eq_some_iff {p q : Answers A} {a : A} :
    (p.or q).first = some (some a)
      ↔ p.first = some (some a) ∨ p.first = some none ∧ q.first = some (some a) := by
  rw [first_or]
  match p.first with
  | none => simp
  | some none => simp
  | some (some a) => simp

/-- The first member of a list for which something holds. -/
lemma exists_first {p : A → Prop} {l : List A} (h : ∃ a ∈ l, p a) :
    ∃ pre a post, l = pre ++ a :: post ∧ (∀ x ∈ pre, ¬ p x) ∧ p a := by
  classical
  have hsome : (l.find? fun a => p a).isSome := List.find?_isSome.mpr (by simpa using h)
  obtain ⟨a, ha⟩ := Option.isSome_iff_exists.mp hsome
  obtain ⟨hp, pre, post, hl, hpre⟩ := List.find?_eq_some_iff_append.mp ha
  exact ⟨pre, a, post, hl, by simpa using hpre, by simpa using hp⟩

/-- A conjunction fails if it fails for every fact. -/
lemma first_bind_ofList_none_iff {l : List A} {f : A → Answers B} :
    (ofList l >>= f).first = some none ↔ ∀ a ∈ l, (f a).first = some none := by
  induction l with
  | nil => simp [ofList_nil_bind]
  | cons a l ih => rw [ofList_cons_bind, first_or_eq_none_iff, ih, List.forall_mem_cons]

/-- A conjunction succeeds for the first fact for which it does not fail, if it does. -/
lemma first_bind_ofList_some_iff {l : List A} {f : A → Answers B} {b : B} :
    (ofList l >>= f).first = some (some b)
      ↔ ∃ pre a post, l = pre ++ a :: post ∧ (∀ x ∈ pre, (f x).first = some none)
        ∧ (f a).first = some (some b) := by
  induction l with
  | nil => simp [ofList_nil_bind]
  | cons a l ih =>
      rw [ofList_cons_bind, first_or_eq_some_iff, ih]
      constructor
      · rintro (h | ⟨hfail, pre, x, post, rfl, hpre, hx⟩)
        · exact ⟨[], a, l, rfl, by simp, h⟩
        · exact ⟨a :: pre, x, post, rfl, by simpa [hfail] using hpre, hx⟩
      · rintro ⟨pre, x, post, heq, hpre, hx⟩
        cases pre with
        | nil =>
            obtain ⟨rfl, rfl⟩ := List.cons.inj heq
            exact .inl hx
        | cons y pre =>
            obtain ⟨rfl, rfl⟩ := List.cons.inj heq
            rw [List.forall_mem_cons] at hpre
            exact .inr ⟨hpre.1, pre, x, post, rfl, hpre.2, hx⟩

/-- A conjunction that ends with an answer made from those before. -/
lemma first_bind_pure (p : Answers A) (g : A → B) :
    (p >>= fun a => Pure.pure (g a)).first = p.first.map (Option.map g) := by
  rcases p with ⟨_ | ⟨a, l⟩, _ | _⟩ <;> rfl

/-- A negation ends where its goal does. -/
lemma first_naf (p : Answers A) :
    p.naf.first = p.first.map fun answer => if answer.isSome then none else some () := by
  rw [naf]
  match p.first with
  | none => rfl
  | some none => rfl
  | some (some _) => rfl

lemma first_naf_eq_none_iff {p : Answers A} :
    p.naf.first = some none ↔ ∃ a, p.first = some (some a) := by
  rw [first_naf]
  match p.first with
  | none => simp
  | some none => simp
  | some (some _) => simp

lemma first_naf_eq_some_iff {p : Answers A} :
    p.naf.first = some (some ()) ↔ p.first = some none := by
  rw [first_naf]
  match p.first with
  | none => simp
  | some none => simp
  | some (some _) => simp

/-- A conjunction behind a negation, which has one answer at most. -/
lemma first_naf_bind (p : Answers A) {B : Type} (q : Answers B) :
    (p.naf >>= fun _ => q).first = match p.naf.first with
      | none => none
      | some none => some none
      | some (some _) => q.first := by
  have hone : (Pure.pure () >>= fun _ => q) = q.or (ofList []) := rfl
  rw [naf]
  match p.first with
  | none => rfl
  | some (some _) => rfl
  | some none =>
      change (Pure.pure () >>= fun _ => q).first = q.first
      rw [hone, first_or]
      match q.first with
      | none => rfl
      | some none => rfl
      | some (some _) => rfl

/-- Such a conjunction fails if the negation does or the goal behind it. -/
lemma first_naf_bind_none_iff {p : Answers A} {B : Type} {q : Answers B} :
    (p.naf >>= fun _ => q).first = some none
      ↔ p.naf.first = some none ∨ p.naf.first = some (some ()) ∧ q.first = some none := by
  rw [first_naf_bind]
  match p.naf.first with
  | none => simp
  | some none => simp
  | some (some ()) => simp

lemma first_naf_bind_some_iff {p : Answers A} {B : Type} {q : Answers B} {b : B} :
    (p.naf >>= fun _ => q).first = some (some b)
      ↔ p.naf.first = some (some ()) ∧ q.first = some (some b) := by
  rw [first_naf_bind]
  match p.naf.first with
  | none => simp
  | some none => simp
  | some (some ()) => simp

section ForAll

variable {A B : Type} {l : List A} {f : A → Answers B}

/-- A `forall` over facts succeeds if the action does for each of them. -/
lemma first_forAll_some_iff :
    (forAll (ofList l) f).first = some (some ()) ↔ ∀ a ∈ l, ∃ b, (f a).first = some (some b) := by
  rw [forAll, first_naf_eq_some_iff, first_bind_ofList_none_iff]
  exact forall₂_congr fun a _ => first_naf_eq_none_iff

/-- It fails at the first fact for which the action does not succeed, if it fails there. -/
lemma first_forAll_none_iff :
    (forAll (ofList l) f).first = some none
      ↔ ∃ pre a post, l = pre ++ a :: post ∧ (∀ x ∈ pre, ∃ b, (f x).first = some (some b))
        ∧ (f a).first = some none := by
  rw [forAll, first_naf_eq_none_iff]
  simp only [first_bind_ofList_some_iff, first_naf_eq_none_iff]
  constructor
  · rintro ⟨⟨⟩, pre, a, post, hl, hpre, ha⟩
    exact ⟨pre, a, post, hl, hpre, first_naf_eq_some_iff.mp ha⟩
  · rintro ⟨pre, a, post, hl, hpre, ha⟩
    exact ⟨(), pre, a, post, hl, hpre, first_naf_eq_some_iff.mpr ha⟩

/-- Where every action ends, it fails if one of them does. -/
lemma first_forAll_none_iff_of_ends (hends : ∀ a ∈ l, (f a).first ≠ none) :
    (forAll (ofList l) f).first = some none ↔ ∃ a ∈ l, (f a).first = some none := by
  rw [first_forAll_none_iff]
  constructor
  · rintro ⟨pre, a, post, rfl, -, ha⟩
    exact ⟨a, List.mem_append_right _ List.mem_cons_self, ha⟩
  · intro hfail
    obtain ⟨pre, a, post, rfl, hpre, ha⟩ := exists_first hfail
    refine ⟨pre, a, post, rfl, fun x hx => ?_, ha⟩
    match hfirst : (f x).first with
    | none => exact absurd hfirst (hends x (List.mem_append_left _ hx))
    | some none => exact absurd hfirst (hpre x hx)
    | some (some b) => exact ⟨b, rfl⟩

end ForAll

/-! ### Goals that end -/

/-- The goal ends, with an answer exactly if `P` holds. -/
def Decides (p : Answers A) (P : Prop) : Prop :=
  ∃ answer : Option A, p.first = some answer ∧ (answer.isSome ↔ P)

/-- A goal without facts, which succeeds if something holds. -/
def test (P : Prop) [Decidable P] : Answers Unit := if P then Pure.pure () else ofList []

@[simp] lemma complete_ofList (l : List A) : (ofList l).complete := rfl

@[simp] lemma complete_test (P : Prop) [Decidable P] : (test P).complete := by
  rw [test]
  split_ifs <;> rfl

lemma complete_or {p q : Answers A} (hp : p.complete) (hq : q.complete) :
    (p.or q).complete := by
  rw [or, if_pos hp]
  exact hq

section Decides

variable {P Q : Prop} {p q : Answers A}

lemma decides_iff : Decides p P ↔
    (P → ∃ a, p.first = some (some a)) ∧ (¬ P → p.first = some none) := by
  constructor
  · rintro ⟨_ | a, hfirst, hiff⟩
    · exact ⟨fun hP => by simp [hP] at hiff, fun _ => hfirst⟩
    · exact ⟨fun _ => ⟨a, hfirst⟩, fun hP => by simp [hP] at hiff⟩
  · rintro ⟨hsome, hnone⟩
    by_cases hP : P
    · obtain ⟨a, hfirst⟩ := hsome hP
      exact ⟨some a, hfirst, by simp [hP]⟩
    · exact ⟨none, hnone hP, by simp [hP]⟩

lemma Decides.some_iff (h : Decides p P) : (∃ a, p.first = some (some a)) ↔ P := by
  obtain ⟨answer, hfirst, hiff⟩ := h
  rw [← hiff, hfirst]
  cases answer <;> simp

lemma Decides.congr (h : Decides p P) (hPQ : P ↔ Q) : Decides p Q := by
  rwa [Decides, ← hPQ]

lemma decides_pure (a : A) : Decides (Pure.pure a : Answers A) True :=
  ⟨some a, first_pure a, by simp⟩

lemma decides_test (P : Prop) [Decidable P] : Decides (test P) P := by
  rw [decides_iff, test]
  refine ⟨fun h => ⟨(), ?_⟩, fun h => ?_⟩
  · rw [if_pos h, first_pure]
  · rw [if_neg h, first_ofList, List.head?_nil]

/-- Facts of which some are asked for. -/
lemma decides_filter (l : List A) (f : A → Bool) :
    Decides (ofList (l.filter f)) (∃ a ∈ l, f a = true) := by
  have hiff : (l.filter f).head?.isSome ↔ ∃ a ∈ l, f a = true := by
    rw [List.isSome_head?, Ne, List.filter_eq_nil_iff]
    simp
  exact ⟨_, first_ofList _, hiff⟩

lemma Decides.or (hp : Decides p P) (hq : Decides q Q) : Decides (p.or q) (P ∨ Q) := by
  rw [decides_iff] at *
  refine ⟨fun h => ?_, fun h => ?_⟩
  · by_cases hP : P
    · obtain ⟨a, ha⟩ := hp.1 hP
      exact ⟨a, first_or_eq_some_iff.mpr (.inl ha)⟩
    · obtain ⟨a, ha⟩ := hq.1 (h.resolve_left hP)
      exact ⟨a, first_or_eq_some_iff.mpr (.inr ⟨hp.2 hP, ha⟩)⟩
  · rw [not_or] at h
    exact first_or_eq_none_iff.mpr ⟨hp.2 h.1, hq.2 h.2⟩

/-- A conjunction behind facts. -/
lemma decides_bind {l : List A} {f : A → Answers B} {R : A → Prop}
    (h : ∀ a ∈ l, Decides (f a) (R a)) : Decides (ofList l >>= f) (∃ a ∈ l, R a) := by
  refine decides_iff.mpr ⟨fun hex => ?_, fun hnone => ?_⟩
  · obtain ⟨pre, a, post, rfl, hpre, ha⟩ := exists_first hex
    obtain ⟨b, hb⟩ := (decides_iff.mp (h a (by simp))).1 ha
    exact ⟨b, first_bind_ofList_some_iff.mpr ⟨pre, a, post, rfl,
      fun x hx => (decides_iff.mp (h x (by simp [hx]))).2 (hpre x hx), hb⟩⟩
  · refine first_bind_ofList_none_iff.mpr fun a ha => (decides_iff.mp (h a ha)).2 fun hR => ?_
    exact hnone ⟨a, ha, hR⟩

/-- A conjunction behind a goal of which only the success counts. -/
lemma Decides.bind {q : Answers B} (hp : Decides p P) (hcomplete : p.complete)
    (hq : Decides q Q) : Decides (p >>= fun _ => q) (P ∧ Q) := by
  obtain ⟨l, rfl⟩ : ∃ l, p = ofList l := ⟨_, eq_ofList hcomplete⟩
  have hiff : l ≠ [] ↔ P := by
    obtain ⟨answer, hfirst, hiff⟩ := hp
    rw [first_ofList, Option.some_inj] at hfirst
    rw [← hiff, ← hfirst, List.isSome_head?]
  refine (decides_bind fun _ _ => hq).congr ?_
  rw [← hiff]
  constructor
  · rintro ⟨a, ha, hQ⟩
    exact ⟨List.ne_nil_of_mem ha, hQ⟩
  · rintro ⟨hne, hQ⟩
    obtain ⟨a, ha⟩ := List.exists_mem_of_ne_nil l hne
    exact ⟨a, ha, hQ⟩

lemma Decides.naf (h : Decides p P) : Decides p.naf (¬ P) := by
  obtain ⟨answer, hfirst, hiff⟩ := h
  refine ⟨if answer.isSome then none else some (), by rw [first_naf, hfirst, Option.map_some], ?_⟩
  rw [← hiff]
  cases answer <;> simp

lemma decides_forAll {A B : Type} {l : List A} {f : A → Answers B} {R : A → Prop}
    (h : ∀ a ∈ l, Decides (f a) (R a)) : Decides (forAll (ofList l) f) (∀ a ∈ l, R a) :=
  (decides_bind fun a ha => (h a ha).naf).naf.congr (by simp)

/-- What stands behind a `forall` that ends is only asked if it succeeds. -/
lemma Decides.first_forAll_bind {A B C : Type} {p : Answers A} {f : A → Answers B}
    (h : Decides (forAll p f) P) (q : Answers C) :
    (P → (forAll p f >>= fun _ => q).first = q.first)
      ∧ (¬ P → (forAll p f >>= fun _ => q).first = some none) := by
  have hbind := first_naf_bind (p >>= fun a => (f a).naf) q
  rw [← forAll] at hbind
  obtain ⟨hsome, hnone⟩ := decides_iff.mp h
  refine ⟨fun hP => ?_, fun hP => ?_⟩
  · obtain ⟨⟨⟩, hfirst⟩ := hsome hP
    rw [hbind, hfirst]
  · rw [hbind, hnone hP]

end Decides

end Answers
