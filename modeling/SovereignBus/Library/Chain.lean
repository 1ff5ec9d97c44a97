import SovereignBus.Library.Xor

/-!
Commitment chains: a tip of type `T` is advanced by one payload of type `P` at
a time, `step : T → P → T`, and every record stores its payload with the tip it
led to.

* `tipAfter`: the tip after the first `k` payloads, with `tipAfter_succ` for
  one more payload.
* `link` and `Linked`: the records a chain writes, and the rule a verifier
  checks; `linked_iff_eq_link` says the rule accepts what the chain writes and
  nothing else. `link_map_snd_inj` reads the payloads off the tips.
* `foldl_injective`: a chain injective in the tip at every step never lets two
  diverged tips meet again.
-/

namespace Chain

variable {T P : Type*} (step : T → P → T)

/-! ### Tips -/

/-- The tip after the first `k` payloads of `ps`, from the tip `t`. -/
def tipAfter (t : T) (ps : List P) (k : ℕ) : T := (ps.take k).foldl step t

lemma tipAfter_succ (t : T) (ps : List P) {k : ℕ} (hk : k < ps.length) :
    tipAfter step t ps (k + 1) = step (tipAfter step t ps k) ps[k] := by
  rw [tipAfter, ← List.take_append_getElem hk, List.foldl_append]
  rfl

lemma tipAfter_length (t : T) (ps : List P) :
    tipAfter step t ps ps.length = ps.foldl step t := by
  rw [tipAfter, List.take_length]

lemma tipAfter_append_add (t : T) (pre ps : List P) (k : ℕ) :
    tipAfter step t (pre ++ ps) (pre.length + k) = tipAfter step (pre.foldl step t) ps k := by
  rw [tipAfter, List.take_length_add_append, List.foldl_append, tipAfter]

/-- Injectivity in the tip passes from one step to a whole list of payloads. -/
theorem foldl_injective (hstep : ∀ p, Function.Injective fun t => step t p) (ps : List P) :
    Function.Injective fun t => ps.foldl step t := by
  induction ps with
  | nil => exact fun _ _ h => h
  | cons p ps ih => exact fun _ _ h => hstep p (ih h)

/-! ### Records and the chain rule -/

/-- The records a chain writes for `ps` from the tip `t`: each payload with the
tip it leads to. -/
def link (t : T) : List P → List (P × T)
  | [] => []
  | p :: ps => (p, step t p) :: link (step t p) ps

/-- The chain rule: every record's tip is the step of the tip before it. -/
def Linked (t : T) : List (P × T) → Prop
  | [] => True
  | r :: rs => r.2 = step t r.1 ∧ Linked r.2 rs

@[simp] lemma link_length (t : T) (ps : List P) : (link step t ps).length = ps.length := by
  induction ps generalizing t with
  | nil => rfl
  | cons p ps ih => simp [link, ih]

@[simp] lemma link_map_fst (t : T) (ps : List P) : (link step t ps).map Prod.fst = ps := by
  induction ps generalizing t with
  | nil => rfl
  | cons p ps ih => simp [link, ih]

/-- Where a step is injective in the payload, the tips of the records tell the payloads. -/
lemma link_map_snd_inj {Q : Set P} (hstep : ∀ t, Set.InjOn (step t) Q) (t : T) {ps qs : List P}
    (hps : ∀ p ∈ ps, p ∈ Q) (hqs : ∀ q ∈ qs, q ∈ Q) :
    (link step t ps).map Prod.snd = (link step t qs).map Prod.snd ↔ ps = qs := by
  refine ⟨fun h => ?_, fun h => by rw [h]⟩
  induction ps generalizing t qs with
  | nil =>
      cases qs with
      | nil => rfl
      | cons q qs => simp [link] at h
  | cons p ps ih =>
      cases qs with
      | nil => simp [link] at h
      | cons q qs =>
          obtain ⟨hp, hrest⟩ := List.forall_mem_cons.mp hps
          obtain ⟨hq, hrest'⟩ := List.forall_mem_cons.mp hqs
          obtain ⟨hhead, htail⟩ := List.cons.inj h
          obtain rfl := hstep t hp hq hhead
          exact congrArg (List.cons p) (ih (step t p) hrest hrest' htail)

lemma link_append (t : T) (ps qs : List P) :
    link step t (ps ++ qs) = link step t ps ++ link step (ps.foldl step t) qs := by
  induction ps generalizing t with
  | nil => rfl
  | cons p ps ih => simp [link, ih]

lemma link_getElem (t : T) (ps : List P) {k : ℕ} (hk : k < ps.length)
    (hk' : k < (link step t ps).length) :
    (link step t ps)[k] = (ps[k], tipAfter step t ps (k + 1)) := by
  induction ps generalizing t k with
  | nil => simp at hk
  | cons p ps ih =>
      cases k with
      | zero => simp [link, tipAfter]
      | succ k =>
          have hlt : k < ps.length := Nat.lt_of_succ_lt_succ hk
          simpa [link, tipAfter] using ih (step t p) hlt (by rwa [link_length])

/-- The chain rule accepts the records the chain writes and nothing else. -/
theorem linked_iff_eq_link (t : T) (rs : List (P × T)) :
    Linked step t rs ↔ rs = link step t (rs.map Prod.fst) := by
  induction rs generalizing t with
  | nil => simp [Linked, link]
  | cons r rs ih =>
      obtain ⟨p, c⟩ := r
      simp only [Linked, link, List.map_cons, List.cons.injEq, Prod.mk.injEq, true_and]
      constructor
      · rintro ⟨rfl, h⟩
        exact ⟨rfl, (ih _).mp h⟩
      · rintro ⟨rfl, h⟩
        exact ⟨rfl, (ih _).mpr h⟩

lemma linked_link (t : T) (ps : List P) : Linked step t (link step t ps) := by
  rw [linked_iff_eq_link, link_map_fst]

/-- The chain rule, place by place: behind `t` and the tips of the records
before it, every record carries the step of the tip it follows. -/
lemma linked_iff_forall (t : T) (rs : List (P × T)) :
    Linked step t rs ↔ ∀ i (h : i < rs.length),
      rs[i].2 = step ((t :: rs.map Prod.snd).get ⟨i, by simp; omega⟩) rs[i].1 := by
  induction rs generalizing t with
  | nil => simp [Linked]
  | cons r rs ih =>
      rw [Linked, ih]
      constructor
      · rintro ⟨h0, hall⟩ i hi
        cases i with
        | zero => exact h0
        | succ i => exact hall i (Nat.lt_of_succ_lt_succ hi)
      · intro hall
        exact ⟨hall 0 (Nat.succ_pos _), fun i hi => hall (i + 1) (Nat.succ_lt_succ hi)⟩

/-- A prefix of a linked chain is linked. -/
lemma Linked.take {t : T} {rs : List (P × T)} (h : Linked step t rs) (k : ℕ) :
    Linked step t (rs.take k) := by
  induction rs generalizing t k with
  | nil => simpa using h
  | cons r rs ih =>
      cases k with
      | zero => simp [Linked]
      | succ k => exact ⟨h.1, ih h.2 k⟩

end Chain
