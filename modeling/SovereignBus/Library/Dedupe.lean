import Mathlib

/-!
Logs that are worked off in passes.

A pass goes through a log from its start. It skips the entries whose keys are known
before the pass, takes the others, and ends at the first one that it cannot take. A later
pass also knows the keys of what was taken.

* `pass`: what a pass takes.
* `Settled`: no key is taken twice, and no pass gets behind an entry that ends one.
* `Settled.pass_after`, `settled_of_lengths`: a log that grows is worked off as the whole
  log is exactly when it is settled.
-/

namespace Dedupe

variable {E κ : Type*} (key : E → Option κ) (ok : E → Bool)

/-! ### Logs -/

/-- A pass gets through these entries. -/
def Through (K : List κ) (l : List E) : Prop :=
  ∀ e ∈ l, ∃ k, key e = some k ∧ (k ∈ K ∨ ok e = true)

/-- A pass ends at this entry. -/
def Blocks (K : List κ) (e : E) : Prop := ∀ k, key e = some k → k ∉ K ∧ ok e = false

/-- A pass takes nothing: the first entry without a known key, if there is one, ends
it. -/
def Idle (K : List κ) (l : List E) : Prop :=
  ∀ u e v, l = u ++ e :: v → (∀ x ∈ u, ∃ k ∈ K, key x = some k) →
    ∀ k, key e = some k → k ∈ K ∨ ok e = false

/-- No key is taken twice, and behind an entry that ends the pass no pass over a part of
the log leaves anything to take. -/
structure Settled (K : List κ) (l : List E) : Prop where
  distinct : ∀ p e q k, l = p ++ e :: q → Through key ok K p → key e = some k → k ∉ K →
    ok e = true → k ∉ p.filterMap key
  ended : ∀ p e q p', l = p ++ e :: q → Through key ok K p → Blocks key ok K e → p' <+: p →
    Idle key ok (K ++ p'.filterMap key) (e :: q)

variable {key ok} {K K' : List κ} {e : E} {k : κ} {l p q : List E}

lemma Through.nil : Through key ok K [] := fun _ h => absurd h List.not_mem_nil

lemma through_append :
    Through key ok K (p ++ q) ↔ Through key ok K p ∧ Through key ok K q := by
  simp only [Through, List.mem_append, or_imp, forall_and]

lemma through_singleton (he : key e = some k) (h : k ∈ K ∨ ok e = true) :
    Through key ok K [e] := fun x hx => by
  rw [List.mem_singleton] at hx
  exact ⟨k, by rw [hx, he], by rwa [hx]⟩

lemma Blocks.not_through (h : Blocks key ok K e) (hmem : e ∈ l) : ¬ Through key ok K l := by
  intro hl
  obtain ⟨k, he, hk⟩ := hl e hmem
  obtain ⟨hnot, hok⟩ := h k he
  rcases hk with hk | hk
  · exact hnot hk
  · simp [hok] at hk

lemma Settled.of_prefix (h : Settled key ok K l) (hp : p <+: l) : Settled key ok K p := by
  obtain ⟨q, rfl⟩ := hp
  refine ⟨fun p₁ e p₂ k hp => ?_, fun p₁ e p₂ p' hp hthrough hb hprefix => ?_⟩
  · exact h.distinct p₁ e (p₂ ++ q) k (by simp [hp])
  · have hidle := h.ended p₁ e (p₂ ++ q) p' (by simp [hp]) hthrough hb hprefix
    exact fun u x v huv => hidle u x (v ++ q) (by rw [← List.cons_append, huv]; simp)

/-- A log that can be gone through is settled if its new keys are distinct. -/
lemma Through.settled (h : Through key ok K l)
    (hdistinct : ∀ p e q k, l = p ++ e :: q → Through key ok K p → key e = some k → k ∉ K →
      ok e = true → k ∉ p.filterMap key) : Settled key ok K l := by
  refine ⟨hdistinct, fun p e q p' hl _ hb _ => absurd h (hb.not_through (hl ▸ ?_))⟩
  exact List.mem_append_right p List.mem_cons_self

/-! ### One pass -/

variable [DecidableEq κ]

variable (key ok) in
/-- What a pass takes, if the keys `K` are known. -/
def pass (K : List κ) : List E → List E
  | [] => []
  | e :: l =>
      match key e with
      | none => []
      | some k => if k ∈ K then pass K l else if ok e then e :: pass K l else []

lemma pass_of_none (he : key e = none) : pass key ok K (e :: l) = [] := by
  simp only [pass, he]

lemma pass_of_known (he : key e = some k) (hk : k ∈ K) :
    pass key ok K (e :: l) = pass key ok K l := by
  simp only [pass, he, if_pos hk]

lemma pass_of_new (he : key e = some k) (hk : k ∉ K) (hok : ok e = true) :
    pass key ok K (e :: l) = e :: pass key ok K l := by
  simp only [pass, he, if_neg hk, if_pos hok]

lemma Blocks.pass_eq_nil (h : Blocks key ok K e) (l : List E) : pass key ok K (e :: l) = [] := by
  cases he : key e with
  | none => exact pass_of_none he
  | some k => simp only [pass, he, if_neg (h k he).1, (h k he).2, Bool.false_eq_true, if_false]

variable (key ok) in
/-- An entry is known, it is taken, or it ends the pass. -/
lemma entry_cases (K : List κ) (e : E) :
    (∃ k ∈ K, key e = some k) ∨ (∃ k, key e = some k ∧ k ∉ K ∧ ok e = true)
      ∨ Blocks key ok K e := by
  cases he : key e with
  | none => exact .inr (.inr fun k hk => by simp [he] at hk)
  | some k =>
      by_cases hk : k ∈ K
      · exact .inl ⟨k, hk, rfl⟩
      · cases hok : ok e with
        | true => exact .inr (.inl ⟨k, rfl, hk, rfl⟩)
        | false =>
            refine .inr (.inr fun k' hk' => ?_)
            rw [he, Option.some.injEq] at hk'
            exact ⟨hk' ▸ hk, hok⟩

lemma Through.pass_append (h : Through key ok K p) (q : List E) :
    pass key ok K (p ++ q) = pass key ok K p ++ pass key ok K q := by
  induction p with
  | nil => rfl
  | cons e p ih =>
      obtain ⟨k, he, hk⟩ := h e List.mem_cons_self
      have hp := ih fun x hx => h x (List.mem_cons_of_mem e hx)
      rw [List.cons_append]
      by_cases hmem : k ∈ K
      · rw [pass_of_known he hmem, pass_of_known he hmem, hp]
      · have hok := hk.resolve_left hmem
        rw [pass_of_new he hmem hok, pass_of_new he hmem hok, hp, List.cons_append]

variable (key ok) in
/-- A log is gone through, or one of its entries ends the pass. -/
lemma through_cases (K : List κ) (l : List E) :
    Through key ok K l
      ∨ ∃ p e q, l = p ++ e :: q ∧ Through key ok K p ∧ Blocks key ok K e := by
  induction l with
  | nil => exact .inl Through.nil
  | cons e l ih =>
      have hcons : ∀ k, key e = some k → k ∈ K ∨ ok e = true → Through key ok K (e :: l)
          ∨ ∃ p x q, e :: l = p ++ x :: q ∧ Through key ok K p ∧ Blocks key ok K x := by
        intro k he hk
        have hone := through_singleton he hk
        rcases ih with hl | ⟨p, x, q, rfl, hp, hx⟩
        · exact .inl (through_append.mpr ⟨hone, hl⟩)
        · exact .inr ⟨e :: p, x, q, rfl, through_append.mpr ⟨hone, hp⟩, hx⟩
      rcases entry_cases key ok K e with ⟨k, hk, he⟩ | ⟨k, he, -, hok⟩ | hblocks
      · exact hcons k he (.inl hk)
      · exact hcons k he (.inr hok)
      · exact .inr ⟨[], e, l, rfl, Through.nil, hblocks⟩

lemma pass_congr (h : ∀ k, k ∈ K ↔ k ∈ K') (l : List E) : pass key ok K l = pass key ok K' l := by
  induction l with
  | nil => rfl
  | cons e l ih => simp only [pass, h, ih]

/-- Where a pass takes an entry. -/
lemma exists_of_mem_pass (h : e ∈ pass key ok K l) :
    ∃ p q k, l = p ++ e :: q ∧ Through key ok K p ∧ key e = some k ∧ k ∉ K ∧ ok e = true := by
  induction l with
  | nil => simp [pass] at h
  | cons x l ih =>
      rcases entry_cases key ok K x with ⟨k, hk, hx⟩ | ⟨k, hx, hk, hok⟩ | hblocks
      · rw [pass_of_known hx hk] at h
        obtain ⟨p, q, k', rfl, hp, he⟩ := ih h
        exact ⟨x :: p, q, k', rfl, through_append.mpr ⟨through_singleton hx (.inl hk), hp⟩, he⟩
      · rw [pass_of_new hx hk hok, List.mem_cons] at h
        rcases h with rfl | h
        · exact ⟨[], l, k, rfl, Through.nil, hx, hk, hok⟩
        · obtain ⟨p, q, k', rfl, hp, he⟩ := ih h
          exact ⟨x :: p, q, k', rfl, through_append.mpr ⟨through_singleton hx (.inr hok), hp⟩, he⟩
      · simp [hblocks.pass_eq_nil] at h

/-- Where a pass gets to, it takes the entries of new keys. -/
lemma Through.mem_pass_append (h : Through key ok K p) (he : key e = some k) (hk : k ∉ K)
    (hok : ok e = true) (q : List E) : e ∈ pass key ok K (p ++ e :: q) := by
  rw [h.pass_append, pass_of_new he hk hok]
  exact List.mem_append_right _ List.mem_cons_self

/-- The keys that are known behind a pass. -/
lemma Through.known_iff (h : Through key ok K p) (k : κ) :
    k ∈ K ++ (pass key ok K p).filterMap key ↔ k ∈ K ++ p.filterMap key := by
  simp only [List.mem_append, List.mem_filterMap]
  refine ⟨?_, ?_⟩
  · rintro (hk | ⟨e, hmem, he⟩)
    · exact .inl hk
    · obtain ⟨p₁, p₂, -, rfl, -⟩ := exists_of_mem_pass hmem
      exact .inr ⟨e, List.mem_append_right _ List.mem_cons_self, he⟩
  · rintro (hk | ⟨e, hmem, he⟩)
    · exact .inl hk
    · by_cases hk : k ∈ K
      · exact .inl hk
      · obtain ⟨p₁, p₂, rfl⟩ := List.append_of_mem hmem
        obtain ⟨k', he', hk'⟩ := h e hmem
        obtain rfl : k = k' := Option.some.inj (he.symm.trans he')
        exact .inr ⟨e, (through_append.mp h).1.mem_pass_append he hk (hk'.resolve_left hk) p₂, he⟩

lemma pass_of_all_known (h : ∀ e ∈ p, ∃ k ∈ K, key e = some k) (q : List E) :
    pass key ok K (p ++ q) = pass key ok K q := by
  induction p with
  | nil => rfl
  | cons e p ih =>
      obtain ⟨k, hk, he⟩ := h e List.mem_cons_self
      rw [List.cons_append, pass_of_known he hk]
      exact ih fun x hx => h x (List.mem_cons_of_mem e hx)

/-- A second pass begins behind the first one. -/
lemma Through.pass_again (h : Through key ok K p) (q : List E) :
    pass key ok (K ++ (pass key ok K p).filterMap key) (p ++ q)
      = pass key ok (K ++ p.filterMap key) q := by
  rw [pass_congr h.known_iff]
  refine pass_of_all_known (fun e hmem => ?_) q
  obtain ⟨k, he, -⟩ := h e hmem
  exact ⟨k, List.mem_append_right _ (List.mem_filterMap.mpr ⟨e, hmem, he⟩), he⟩

lemma pass_mono (hp : p <+: l) : pass key ok K p <+: pass key ok K l := by
  obtain ⟨q, rfl⟩ := hp
  rcases through_cases key ok K p with hgo | ⟨p₁, e, p₂, rfl, hgo, hb⟩
  · rw [hgo.pass_append]
    exact List.prefix_append _ _
  · rw [List.append_assoc, List.cons_append, hgo.pass_append, hgo.pass_append, hb.pass_eq_nil,
      hb.pass_eq_nil]

lemma idle_iff : Idle key ok K l ↔ pass key ok K l = [] := by
  refine ⟨fun h => ?_, ?_⟩
  · induction l with
    | nil => rfl
    | cons e l ih =>
        rcases entry_cases key ok K e with ⟨k, hk, he⟩ | ⟨k, he, hk, hok⟩ | hb
        · rw [pass_of_known he hk]
          refine ih fun u x v hl hu => h (e :: u) x v (by rw [hl]; rfl) fun y hy => ?_
          rcases List.mem_cons.mp hy with rfl | hy
          · exact ⟨k, hk, he⟩
          · exact hu y hy
        · have hnot := h [] e l rfl (fun x hx => absurd hx List.not_mem_nil) k he
          simp [hk, hok] at hnot
        · exact hb.pass_eq_nil l
  · rintro h u e v rfl hu k he
    rw [pass_of_all_known hu] at h
    by_contra hnot
    rw [not_or, Bool.not_eq_false] at hnot
    rw [pass_of_new he hnot.1 hnot.2] at h
    exact List.cons_ne_nil _ _ h

/-! ### Two passes -/

/-- The keys of one part of a settled log make no difference to the rest. -/
lemma Settled.pass_rest (h : Settled key ok K l) {r : List E} (hl : l = p ++ r ++ q)
    (hthrough : Through key ok K (p ++ r)) :
    pass key ok (K ++ p.filterMap key) q = pass key ok K q := by
  induction q generalizing r with
  | nil => rfl
  | cons e q ih =>
      have hsplit : l = p ++ (r ++ [e]) ++ q := by simp [hl]
      have hgo : ∀ k, key e = some k → k ∈ K ∨ ok e = true →
          pass key ok (K ++ p.filterMap key) q = pass key ok K q := fun k he hk =>
        ih hsplit (by
          rw [← List.append_assoc]
          exact through_append.mpr ⟨hthrough, through_singleton he hk⟩)
      rcases entry_cases key ok K e with ⟨k, hk, he⟩ | ⟨k, he, hk, hok⟩ | hb
      · rw [pass_of_known he hk, pass_of_known he (List.mem_append_left _ hk), hgo k he (.inl hk)]
      · have hnew := h.distinct (p ++ r) e q k hl hthrough he hk hok
        rw [List.filterMap_append, List.mem_append, not_or] at hnew
        have hk' : k ∉ K ++ p.filterMap key := by simpa [hk] using hnew.1
        rw [pass_of_new he hk hok, pass_of_new he hk' hok, hgo k he (.inr hok)]
      · rw [hb.pass_eq_nil]
        exact idle_iff.mp (h.ended (p ++ r) e q p hl hthrough hb (List.prefix_append p r))

/-- A pass over a part of a settled log and one over the log are one over the log. -/
theorem Settled.pass_after (h : Settled key ok K l) (hp : p <+: l) :
    pass key ok K p ++ pass key ok (K ++ (pass key ok K p).filterMap key) l = pass key ok K l := by
  have hthrough : ∀ p, p <+: l → Through key ok K p →
      pass key ok K p ++ pass key ok (K ++ (pass key ok K p).filterMap key) l
        = pass key ok K l := by
    rintro p ⟨q, rfl⟩ hthrough
    rw [hthrough.pass_again, hthrough.pass_append, h.pass_rest (r := []) (by simp) (by simpa)]
  rcases through_cases key ok K p with hgo | ⟨p₁, e, p₂, rfl, hgo, hb⟩
  · exact hthrough p hp hgo
  · have hend : pass key ok K (p₁ ++ e :: p₂) = pass key ok K p₁ := by
      rw [hgo.pass_append, hb.pass_eq_nil, List.append_nil]
    rw [hend]
    exact hthrough p₁ ((List.prefix_append _ _).trans hp) hgo

/-- A log is settled if two passes never take more or fewer entries than one. -/
theorem settled_of_lengths
    (h : ∀ p, p <+: l → (pass key ok K p).length
      + (pass key ok (K ++ (pass key ok K p).filterMap key) l).length
        = (pass key ok K l).length) : Settled key ok K l := by
  have hrest : ∀ p q, l = p ++ q → Through key ok K p →
      (pass key ok (K ++ p.filterMap key) q).length = (pass key ok K q).length := by
    rintro p q rfl hthrough
    have hp := h p (List.prefix_append p q)
    rw [hthrough.pass_again, hthrough.pass_append, List.length_append] at hp
    omega
  have hdistinct : ∀ p e q k, l = p ++ e :: q → Through key ok K p → key e = some k → k ∉ K →
      ok e = true → k ∉ p.filterMap key := by
    intro p e q k hl hthrough he hk hok hmem
    -- behind `e` the same keys are known as before it
    have hbefore := hrest p (e :: q) hl hthrough
    have hbehind := hrest (p ++ [e]) q (by simp [hl])
      (through_append.mpr ⟨hthrough, through_singleton he (.inr hok)⟩)
    have hsame : ∀ k', k' ∈ K ++ (p ++ [e]).filterMap key ↔ k' ∈ K ++ p.filterMap key := by
      intro k'
      simp only [List.filterMap_append, List.mem_append, List.filterMap_cons, he,
        List.filterMap_nil, List.mem_singleton]
      refine ⟨?_, ?_⟩
      · rintro (hk' | hk' | rfl)
        · exact .inl hk'
        · exact .inr hk'
        · exact .inr hmem
      · rintro (hk' | hk')
        · exact .inl hk'
        · exact .inr (.inl hk')
    rw [pass_of_known he (List.mem_append_right K hmem), pass_of_new he hk hok] at hbefore
    rw [pass_congr hsame] at hbehind
    simp only [List.length_cons] at hbefore
    omega
  refine ⟨hdistinct, fun p e q p' hl hthrough hb hprefix => ?_⟩
  obtain ⟨r, rfl⟩ := hprefix
  obtain ⟨hp', hr⟩ := through_append.mp hthrough
  have hsettled : Settled key ok K (p' ++ r) := by
    refine hthrough.settled fun p₁ x p₂ k hp => ?_
    exact hdistinct p₁ x (p₂ ++ e :: q) k (by rw [hl, hp]; simp)
  have hsame : pass key ok (K ++ p'.filterMap key) r = pass key ok K r :=
    hsettled.pass_rest (r := []) (by simp) (by simpa using hp')
  have hmore : Through key ok (K ++ p'.filterMap key) r := by
    intro x hx
    obtain ⟨k, hk, hor⟩ := hr x hx
    exact ⟨k, hk, hor.imp_left (List.mem_append_left _)⟩
  have hlength := hrest p' (r ++ e :: q) (by rw [hl, List.append_assoc]) hp'
  rw [hmore.pass_append, hr.pass_append, hb.pass_eq_nil, hsame, List.append_nil,
    List.length_append] at hlength
  exact idle_iff.mpr (List.length_eq_zero_iff.mp (by omega))

end Dedupe
