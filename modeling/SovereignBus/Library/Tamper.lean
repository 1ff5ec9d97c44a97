import SovereignBus.Library.Chain

/-!
Tamper evidence of commitment chains.

* `Evident`: two histories compared place by place. From the first place where
  the payloads differ on, every commitment of the one differs from that of the
  other, and so do the final tips.
* `Tampering`: one payload replaced by a different one, deleted or inserted, or
  two different neighbours exchanged.
* `evident_iff_detectable`: the exact condition on the payloads, for a chain
  that advances its tip by the exclusive or with a contribution `u p` of the
  payload. The contributions commute, so an exchange is never evident.
-/

namespace Chain

variable {T P : Type*}

/-! ### Comparing two histories -/

/-- The commitments of `qs` betray that it is not `ps`: from the first place
where the payloads differ on, all commitments differ, and so do the final
tips. -/
def Evident (step : T → P → T) (t : T) (ps qs : List P) : Prop :=
  (∀ j, j < ps.length → j < qs.length → ps.take (j + 1) ≠ qs.take (j + 1) →
      tipAfter step t ps (j + 1) ≠ tipAfter step t qs (j + 1))
    ∧ ps.foldl step t ≠ qs.foldl step t

lemma evident_comm {step : T → P → T} {t : T} {ps qs : List P} :
    Evident step t ps qs ↔ Evident step t qs ps := by
  have key : ∀ {ps qs : List P}, Evident step t ps qs → Evident step t qs ps :=
    fun h => ⟨fun j hq hp hne => (h.1 j hp hq hne.symm).symm, h.2.symm⟩
  exact ⟨key, key⟩

/-- A common prefix of the two histories only moves the starting tip. -/
lemma evident_append_left {step : T → P → T} {t : T} (pre : List P) {ps qs : List P} :
    Evident step t (pre ++ ps) (pre ++ qs) ↔ Evident step (pre.foldl step t) ps qs := by
  have htake : ∀ (l : List P) (j : ℕ),
      (pre ++ l).take (pre.length + j + 1) = pre ++ l.take (j + 1) :=
    fun l j => by rw [Nat.add_assoc, List.take_length_add_append]
  constructor
  · rintro ⟨hall, htip⟩
    refine ⟨?_, by simpa [List.foldl_append] using htip⟩
    intro j hp hq hne
    have h := hall (pre.length + j) (by simp; omega) (by simp; omega)
      (by rw [htake, htake]; exact fun h => hne (List.append_cancel_left h))
    rwa [Nat.add_assoc, tipAfter_append_add, tipAfter_append_add] at h
  · rintro ⟨hall, htip⟩
    refine ⟨?_, by simpa [List.foldl_append] using htip⟩
    intro j hp hq hne
    by_cases hj : j < pre.length
    · -- inside the common prefix the histories do not differ
      rw [List.take_append_of_le_length (by omega), List.take_append_of_le_length (by omega)] at hne
      exact absurd rfl hne
    · obtain ⟨k, rfl⟩ := Nat.exists_eq_add_of_le (Nat.not_lt.mp hj)
      rw [htake, htake] at hne
      rw [Nat.add_assoc, tipAfter_append_add, tipAfter_append_add]
      simp only [List.length_append] at hp hq
      exact hall k (by omega) (by omega) fun h => hne (by rw [h])

/-! ### The four ways to change one place -/

/-- One change of a history: what stood before it, what it changes, and what
stands after it. -/
inductive Tampering (P : Type*) where
  | replace (pre : List P) (p q : P) (post : List P) (hne : p ≠ q)
  | delete (pre : List P) (p : P) (post : List P)
  | insert (pre : List P) (q : P) (post : List P)
  | exchange (pre : List P) (p q : P) (post : List P) (hne : p ≠ q)

namespace Tampering

/-- The history before the change. -/
def original : Tampering P → List P
  | replace pre p _ post _ => pre ++ p :: post
  | delete pre p post => pre ++ p :: post
  | insert pre _ post => pre ++ post
  | exchange pre p q post _ => pre ++ p :: q :: post

/-- The history after the change. -/
def modified : Tampering P → List P
  | replace pre _ q post _ => pre ++ q :: post
  | delete pre _ post => pre ++ post
  | insert pre q post => pre ++ q :: post
  | exchange pre p q post _ => pre ++ q :: p :: post

variable {G : Type*} [XorOp G] [Zero G] [DecidableEq P]

/-- A payload whose presence in front of `post` can be told: its contribution
is not zero, and no payload of `post` past the run of copies of `p` it starts
with has the same contribution. -/
def Tells (u : P → G) (p : P) (post : List P) : Prop :=
  u p ≠ 0 ∧ ∀ x ∈ post.dropWhile (· = p), u x ≠ u p

/-- The changes that an additive chain with contributions `u` betrays. -/
def Detectable (u : P → G) : Tampering P → Prop
  | replace _ p q _ _ => u p ≠ u q
  | delete _ p post => Tells u p post
  | insert _ q post => Tells u q post
  | exchange _ _ _ _ _ => False

end Tampering

/-! ### Additive chains -/

section Additive

variable {G : Type*} [XorOp G] [Zero G] [LawfulXor G] (u : P → G)

/-- The step of an additive chain: the tip takes up the payload's
contribution. -/
def addStep (t : G) (p : P) : G := t ^^^ u p

lemma foldl_addStep (t : G) (ps : List P) :
    ps.foldl (addStep u) t = t ^^^ xorSum (ps.map u) :=
  foldl_xor_eq u ps t

lemma tipAfter_addStep (t : G) (ps : List P) (k : ℕ) :
    tipAfter (addStep u) t ps k = t ^^^ xorSum ((ps.take k).map u) :=
  foldl_addStep u t _

/-- Two histories that differ in the first payload alone. -/
lemma foldl_addStep_cons_inj {t : G} {p q : P} {post : List P} :
    (p :: post).foldl (addStep u) t = (q :: post).foldl (addStep u) t ↔ u p = u q := by
  rw [foldl_addStep, foldl_addStep, List.map_cons, List.map_cons, xorSum_cons, xorSum_cons,
    LawfulXor.xor_right_inj, LawfulXor.xor_left_inj]

lemma evident_replace {t : G} {p q : P} (post : List P) :
    Evident (addStep u) t (p :: post) (q :: post) ↔ u p ≠ u q := by
  constructor
  · rintro ⟨-, h⟩ hu
    exact h ((foldl_addStep_cons_inj u).mpr hu)
  · intro hu
    refine ⟨?_, fun h => hu ((foldl_addStep_cons_inj u).mp h)⟩
    intro j _ _ _ h
    rw [tipAfter, tipAfter, List.take_succ_cons, List.take_succ_cons] at h
    exact hu ((foldl_addStep_cons_inj u).mp h)

/-- Contributions commute: exchanging two neighbours leaves the final tip as it
was. -/
lemma not_evident_exchange {t : G} (p q : P) (post : List P) :
    ¬ Evident (addStep u) t (p :: q :: post) (q :: p :: post) := by
  rintro ⟨-, h⟩
  refine h ?_
  rw [foldl_addStep, foldl_addStep]
  simp only [List.map_cons, xorSum_cons]
  rw [LawfulXor.xor_left_comm (u p)]

variable [DecidableEq P]

/-- A deleted payload is betrayed exactly when it tells. The induction walks
the run of copies of `p` behind the deleted one, a common prefix. -/
lemma evident_delete {t : G} (p : P) (post : List P) :
    Evident (addStep u) t (p :: post) post ↔ Tampering.Tells u p post := by
  induction post generalizing t with
  | nil =>
      simp only [Evident, foldl_addStep, Tampering.Tells]
      simp
  | cons a post ih =>
      by_cases ha : a = p
      · subst ha
        have h : Evident (addStep u) t (a :: a :: post) (a :: post) ↔ _ :=
          evident_append_left [a]
        rw [h, ih]
        simp [Tampering.Tells]
      · -- the histories differ from here on, and every commitment has to differ
        have htake : ∀ j, (p :: a :: post).take (j + 1) ≠ (a :: post).take (j + 1) :=
          fun j h => ha (by simpa using (congrArg List.head? h).symm)
        have hcomm : ∀ j (hj : j < (a :: post).length),
            tipAfter (addStep u) t (p :: a :: post) (j + 1)
                = tipAfter (addStep u) t (a :: post) (j + 1)
              ↔ u (a :: post)[j] = u p := fun j hj => by
          rw [tipAfter_succ _ _ (a :: post) hj, tipAfter_addStep, tipAfter_addStep, addStep,
            List.take_succ_cons, List.map_cons, xorSum_cons, xor_assoc,
            xor_comm (u p), LawfulXor.xor_right_inj, LawfulXor.xor_right_inj, eq_comm]
        have hfin : (p :: a :: post).foldl (addStep u) t = (a :: post).foldl (addStep u) t
            ↔ u p = 0 := by
          rw [foldl_addStep, foldl_addStep, List.map_cons, xorSum_cons, LawfulXor.xor_right_inj,
            xor_right_eq_self_iff]
        have hdrop : (a :: post).dropWhile (· = p) = a :: post := by simp [ha]
        rw [Tampering.Tells, hdrop, Evident, Ne, hfin, List.forall_mem_iff_getElem, and_comm]
        refine and_congr_right fun _ => ⟨fun h j hj => ?_, fun h j _ hj _ => ?_⟩
        · exact fun hu => h j (by simp at hj ⊢; omega) hj (htake j) ((hcomm j hj).mpr hu)
        · exact fun he => h j hj ((hcomm j hj).mp he)

/-- **Tamper evidence of an additive chain**, exactly. -/
theorem evident_iff_detectable (t : G) (c : Tampering P) :
    Evident (addStep u) t c.original c.modified ↔ c.Detectable u := by
  cases c with
  | replace pre p q post hne =>
      exact (evident_append_left pre).trans (evident_replace u post)
  | delete pre p post =>
      exact (evident_append_left pre).trans (evident_delete u p post)
  | insert pre q post =>
      exact (evident_append_left pre).trans (evident_comm.trans (evident_delete u q post))
  | exchange pre p q post hne =>
      exact (evident_append_left pre).trans (iff_of_false (not_evident_exchange u p q post) id)

end Additive

end Chain
