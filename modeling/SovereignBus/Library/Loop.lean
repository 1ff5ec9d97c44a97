import SovereignBus.Library.Extents

/-!
Loops `while (cond s) s = body s` whose body may fail.

* `Loop`: a condition, a body, and a measure that every pass of the body lowers,
  so that every run ends. `run` is the result and `trace` the states a body was
  started in.
* `Pass`, `Reaches`: one pass, and any number of passes. `run_eq_ok_iff` and
  `run_eq_error_iff` say where a run ends, `mem_trace_iff` what it visits.
* `Reaches.invariant`, `Reaches.simulation`: what every pass preserves holds of
  every state a run reaches, and what one loop can follow in one pass it can
  follow in a whole run. `run_simulation` follows a run to its end where the passes need
  something of the states.
* `runFor`: the run that starts its body a number of times at most. `length_trace_le` and
  `runFor_eq` say that the measure is such a number.
* `packed_iff`: a cursor that every pass advances cuts what it runs over into
  packed ranges exactly when it advances by their sizes.
* `Follows`: a loop that does to the images of states what another one does to the
  states. Its runs and traces are the images of those of the other.
* `Except.bind_eq_ok`, `Except.bind_eq_error`: how a body of several steps ends.
-/

namespace Except

universe u v

variable {E : Type u} {A B : Type v} {x : Except E A} {f : A → Except E B}

lemma bind_eq_ok {b : B} : x >>= f = .ok b ↔ ∃ a, x = .ok a ∧ f a = .ok b := by
  cases x <;> simp [bind, Except.bind]

lemma bind_eq_error {e : E} :
    x >>= f = .error e ↔ x = .error e ∨ ∃ a, x = .ok a ∧ f a = .error e := by
  cases x <;> simp [bind, Except.bind]

end Except

/-- A loop that ends: every pass lowers the measure. -/
structure Loop (S E : Type*) where
  cond : S → Bool
  body : S → Except E S
  measure : S → ℕ
  decreases : ∀ {s t}, cond s = true → body s = .ok t → measure t < measure s

namespace Loop

variable {S E : Type*} (L : Loop S E)

/-- The run of a loop: the state it ends in, or the error of a body. -/
def run (L : Loop S E) (s : S) : Except E S :=
  if _h : L.cond s = true then
    match _hb : L.body s with
    | .error e => .error e
    | .ok t => run L t
  else .ok s
termination_by L.measure s
decreasing_by exact L.decreases ‹_› ‹_›

/-- The states in which a run starts the body. -/
def trace (L : Loop S E) (s : S) : List S :=
  if _h : L.cond s = true then
    match _hb : L.body s with
    | .error _ => [s]
    | .ok t => s :: trace L t
  else []
termination_by L.measure s
decreasing_by exact L.decreases ‹_› ‹_›

/-- The run of a loop that starts its body `n` times at most. -/
def runFor (L : Loop S E) : ℕ → S → Option (Except E S)
  | 0, s => if L.cond s then none else some (.ok s)
  | n + 1, s =>
      if L.cond s then
        match L.body s with
        | .error e => some (.error e)
        | .ok t => runFor L n t
      else some (.ok s)

/-- One pass that does not fail. -/
def Pass (s t : S) : Prop := L.cond s = true ∧ L.body s = .ok t

/-- Any number of passes. -/
def Reaches : S → S → Prop := Relation.ReflTransGen L.Pass

variable {L}

lemma run_of_not_cond {s : S} (h : L.cond s = false) : L.run s = .ok s := by
  rw [run, dif_neg (by simp [h])]

lemma run_of_error {s : S} {e : E} (h : L.cond s = true) (hb : L.body s = .error e) :
    L.run s = .error e := by
  rw [run, dif_pos h]
  split
  · next heq => rw [← heq, hb]
  · next heq => rw [hb] at heq; exact absurd heq (by simp)

lemma Pass.run_eq {s t : S} (h : L.Pass s t) : L.run s = L.run t := by
  rw [run, dif_pos h.1]
  split
  · next heq => rw [h.2] at heq; exact absurd heq (by simp)
  · next heq => rw [Except.ok.inj (h.2.symm.trans heq)]

lemma trace_of_not_cond {s : S} (h : L.cond s = false) : L.trace s = [] := by
  rw [trace, dif_neg (by simp [h])]

lemma trace_of_error {s : S} {e : E} (h : L.cond s = true) (hb : L.body s = .error e) :
    L.trace s = [s] := by
  rw [trace, dif_pos h]
  split
  · rfl
  · next heq => rw [hb] at heq; exact absurd heq (by simp)

lemma Pass.trace_eq {s t : S} (h : L.Pass s t) : L.trace s = s :: L.trace t := by
  rw [trace, dif_pos h.1]
  split
  · next heq => rw [h.2] at heq; exact absurd heq (by simp)
  · next heq => rw [Except.ok.inj (h.2.symm.trans heq)]

/-- The induction of a run: it ends, or a body fails, or a pass leads on. -/
theorem induction {P : S → Prop} (hend : ∀ s, L.cond s = false → P s)
    (herror : ∀ s e, L.cond s = true → L.body s = .error e → P s)
    (hpass : ∀ s t, L.Pass s t → P t → P s) (s : S) : P s := by
  generalize hm : L.measure s = m
  induction m using Nat.strong_induction_on generalizing s with
  | _ m ih =>
      cases hc : L.cond s with
      | false => exact hend s hc
      | true =>
          cases hb : L.body s with
          | error e => exact herror s e hc hb
          | ok t => exact hpass s t ⟨hc, hb⟩ (ih _ (hm ▸ L.decreases hc hb) t rfl)

/-! ### Where a run ends -/

namespace Reaches

lemma refl (s : S) : L.Reaches s s := Relation.ReflTransGen.refl

lemma head {s t u : S} (h : L.Pass s t) (h' : L.Reaches t u) : L.Reaches s u :=
  Relation.ReflTransGen.head h h'

lemma run_eq {s t : S} (h : L.Reaches s t) : L.run s = L.run t := by
  induction h with
  | refl => rfl
  | tail _ hpass ih => rw [ih, hpass.run_eq]

/-- What every pass preserves holds of every state a run reaches. -/
theorem invariant {P : S → Prop} (hpass : ∀ s t, P s → L.Pass s t → P t) {s t : S}
    (h : L.Reaches s t) (hs : P s) : P t := by
  induction h with
  | refl => exact hs
  | tail _ hp ih => exact hpass _ _ ih hp

/-- What one loop can follow in one pass it can follow in a whole run. -/
theorem simulation {S' E' : Type*} {M : Loop S' E'} {R : S → S' → Prop}
    (hpass : ∀ s t s', R s s' → L.Pass s t → ∃ t', M.Pass s' t' ∧ R t t') {s t : S} {s' : S'}
    (h : L.Reaches s t) (hs : R s s') : ∃ t', M.Reaches s' t' ∧ R t t' := by
  induction h with
  | refl => exact ⟨s', refl s', hs⟩
  | tail _ hp ih =>
      obtain ⟨u', hu', hR⟩ := ih
      obtain ⟨t', ht', hRt⟩ := hpass _ _ _ hR hp
      exact ⟨t', Relation.ReflTransGen.tail hu' ht', hRt⟩

end Reaches

/-- A run that does not fail ends in the state it reaches where the condition
does not hold. -/
theorem run_eq_ok_iff {s t : S} : L.run s = .ok t ↔ L.Reaches s t ∧ L.cond t = false := by
  constructor
  · intro h
    induction s using Loop.induction (L := L) with
    | hend s hc =>
        rw [run_of_not_cond hc] at h
        obtain rfl := Except.ok.inj h
        exact ⟨Reaches.refl s, hc⟩
    | herror s e hc hb =>
        rw [run_of_error hc hb] at h
        exact absurd h (by simp)
    | hpass s u hp ih =>
        rw [hp.run_eq] at h
        exact ⟨Reaches.head hp (ih h).1, (ih h).2⟩
  · rintro ⟨h, hc⟩
    rw [h.run_eq, run_of_not_cond hc]

/-- A run fails with the error of the body in a state it reaches. -/
theorem run_eq_error_iff {s : S} {e : E} :
    L.run s = .error e ↔ ∃ t, L.Reaches s t ∧ L.cond t = true ∧ L.body t = .error e := by
  constructor
  · intro h
    induction s using Loop.induction (L := L) with
    | hend s hc =>
        rw [run_of_not_cond hc] at h
        exact absurd h (by simp)
    | herror s e' hc hb =>
        rw [run_of_error hc hb] at h
        obtain rfl := Except.error.inj h
        exact ⟨s, Reaches.refl s, hc, hb⟩
    | hpass s u hp ih =>
        rw [hp.run_eq] at h
        obtain ⟨t, ht, hbody⟩ := ih h
        exact ⟨t, Reaches.head hp ht, hbody⟩
  · rintro ⟨t, h, hc, hb⟩
    rw [h.run_eq, run_of_error hc hb]

/-- The trace holds the states a run reaches where the condition holds. -/
theorem mem_trace_iff {s t : S} : t ∈ L.trace s ↔ L.Reaches s t ∧ L.cond t = true := by
  induction s using Loop.induction (L := L) with
  | hend s hc =>
      rw [trace_of_not_cond hc]
      refine iff_of_false (by simp) fun ⟨h, ht⟩ => ?_
      rcases Relation.ReflTransGen.cases_head h with rfl | ⟨u, hp, -⟩
      · simp [hc] at ht
      · simp [Pass, hc] at hp
  | herror s e hc hb =>
      rw [trace_of_error hc hb, List.mem_singleton]
      constructor
      · rintro rfl
        exact ⟨Reaches.refl t, hc⟩
      · rintro ⟨h, -⟩
        rcases Relation.ReflTransGen.cases_head h with rfl | ⟨u, hp, -⟩
        · rfl
        · simp [Pass, hb] at hp
  | hpass s u hp ih =>
      rw [hp.trace_eq, List.mem_cons, ih]
      constructor
      · rintro (rfl | ⟨h, ht⟩)
        · exact ⟨Reaches.refl t, hp.1⟩
        · exact ⟨Reaches.head hp h, ht⟩
      · rintro ⟨h, ht⟩
        rcases Relation.ReflTransGen.cases_head h with rfl | ⟨v, hp', h'⟩
        · exact Or.inl rfl
        · obtain rfl := Except.ok.inj (hp.2.symm.trans hp'.2)
          exact Or.inr ⟨h', ht⟩

/-- A run that ends reaches the states of its trace, and its end. -/
lemma Reaches.mem_trace_or_eq {s t u : S} (h : L.Reaches s u) (hrun : L.run s = .ok t) :
    u ∈ L.trace s ∨ u = t := by
  cases hc : L.cond u with
  | true => exact .inl (mem_trace_iff.mpr ⟨h, hc⟩)
  | false =>
      rw [h.run_eq, run_of_not_cond hc] at hrun
      exact .inr (Except.ok.inj hrun)

/-- In a run that ends no body fails. -/
lemma exists_pass_of_mem_trace {s t u : S} (hrun : L.run s = .ok t) (hu : u ∈ L.trace s) :
    ∃ v, L.Pass u v := by
  obtain ⟨hreach, hcond⟩ := mem_trace_iff.mp hu
  cases hb : L.body u with
  | ok v => exact ⟨v, hcond, hb⟩
  | error e =>
      rw [hreach.run_eq, run_of_error hcond hb] at hrun
      exact absurd hrun (by simp)

/-- A run that another loop can follow, pass by pass, in the states where `P` holds. It is
followed to its end if `P` holds in every state it starts the body in, and then `Q` holds in the
states where the other one does. -/
theorem run_simulation {S' E' : Type*} {M : Loop S' E'} {R : S → S' → Prop} {P : S → Prop}
    {Q : S' → Prop} (hend : ∀ s s', R s s' → L.cond s = false → M.cond s' = false)
    (hpass : ∀ s t s', R s s' → L.Pass s t → P s → ∃ t', M.Pass s' t' ∧ Q s' ∧ R t t')
    {s t : S} {s' : S'} (hrun : L.run s = .ok t) (hP : ∀ u ∈ L.trace s, P u) (hs : R s s') :
    ∃ t', M.run s' = .ok t' ∧ R t t' ∧ ∀ u' ∈ M.trace s', Q u' := by
  induction s using Loop.induction (L := L) generalizing s' with
  | hend s hc =>
      rw [run_of_not_cond hc] at hrun
      obtain rfl := Except.ok.inj hrun
      have hc' := hend s s' hs hc
      refine ⟨s', run_of_not_cond hc', hs, ?_⟩
      simp [trace_of_not_cond hc']
  | herror s e hc hb =>
      rw [run_of_error hc hb] at hrun
      exact absurd hrun (by simp)
  | hpass s u hp ih =>
      rw [hp.run_eq] at hrun
      rw [hp.trace_eq, List.forall_mem_cons] at hP
      obtain ⟨u', hp', hQ, hu⟩ := hpass s u s' hs hp hP.1
      obtain ⟨t', ht', hR, hQs⟩ := ih hrun hP.2 hu
      rw [hp'.run_eq, hp'.trace_eq, List.forall_mem_cons]
      exact ⟨t', ht', hR, hQ, hQs⟩

/-! ### How long a run is -/

/-- A trace is no longer than the measure, if that is positive where the body starts. -/
lemma length_trace_le (hpos : ∀ s, L.cond s = true → 0 < L.measure s) (s : S) :
    (L.trace s).length ≤ L.measure s := by
  induction s using Loop.induction (L := L) with
  | hend s hc => simp [trace_of_not_cond hc]
  | herror s e hc hb =>
      rw [trace_of_error hc hb]
      exact hpos s hc
  | hpass s t hp ih =>
      have hlt := L.decreases hp.1 hp.2
      rw [hp.trace_eq, List.length_cons]
      omega

/-- A run ends within the length of its trace. -/
lemma runFor_eq {n : ℕ} {s : S} (h : (L.trace s).length ≤ n) : L.runFor n s = some (L.run s) := by
  induction s using Loop.induction (L := L) generalizing n with
  | hend s hc =>
      rw [run_of_not_cond hc]
      cases n <;> simp [runFor, hc]
  | herror s e hc hb =>
      rw [trace_of_error hc hb] at h
      obtain ⟨n, rfl⟩ := Nat.exists_eq_add_of_le' h
      rw [run_of_error hc hb]
      simp [runFor, hc, hb]
  | hpass s t hp ih =>
      rw [hp.trace_eq, List.length_cons] at h
      obtain ⟨n, rfl⟩ := Nat.exists_eq_add_of_le' (show 1 ≤ n by omega)
      rw [hp.run_eq, ← ih (show (L.trace t).length ≤ n by omega)]
      simp [runFor, hp.1, hp.2]

/-! ### What a run runs over -/

lemma trace_of_cond {s : S} (h : L.cond s = true) : ∃ l, L.trace s = s :: l := by
  cases hb : L.body s with
  | error e => exact ⟨[], trace_of_error h hb⟩
  | ok t => exact ⟨_, Pass.trace_eq ⟨h, hb⟩⟩

/-- A run whose passes advance a cursor leaves packed ranges between its start
and its end exactly when every pass advances by the size of its range. -/
theorem packed_iff (start size advance : S → ℕ)
    (hadv : ∀ u v, L.Pass u v → start v = start u + advance u) {s t : S} (h : L.run s = .ok t) :
    (Extents.Packed start size (start s) (L.trace s)
        ∧ Extents.cursor (fun u => start u + size u) (start s) (L.trace s) = start t)
      ↔ ∀ u ∈ L.trace s, size u = advance u := by
  induction s using Loop.induction (L := L) with
  | hend s hc =>
      rw [run_of_not_cond hc] at h
      obtain rfl := Except.ok.inj h
      simp [trace_of_not_cond hc, Extents.Follows]
  | herror s e hc hb =>
      rw [run_of_error hc hb] at h
      exact absurd h (by simp)
  | hpass s u hp ih =>
      rw [hp.run_eq] at h
      have ih := ih h
      have hcons : (Extents.Packed start size (start s) (s :: L.trace u)
            ∧ Extents.cursor (fun v => start v + size v) (start s) (s :: L.trace u) = start t)
          ↔ Extents.Packed start size (start s + size s) (L.trace u)
            ∧ Extents.cursor (fun v => start v + size v) (start s + size s) (L.trace u)
              = start t :=
        and_congr_left fun _ => and_iff_right rfl
      rw [hp.trace_eq, List.forall_mem_cons, ← ih, hcons]
      have hsu := hadv s u hp
      constructor
      · rintro ⟨hf, hcur⟩
        -- the range of `s` ends where the next pass starts, or where the run ends
        have heq : start s + size s = start u := by
          cases hc : L.cond u with
          | false =>
              rw [run_of_not_cond hc] at h
              obtain rfl := Except.ok.inj h
              rw [trace_of_not_cond hc] at hcur
              exact hcur
          | true =>
              obtain ⟨l, hl⟩ := trace_of_cond hc
              rw [hl] at hf
              exact hf.1.symm
        rw [heq] at hf hcur
        exact ⟨by omega, hf, hcur⟩
      · rintro ⟨hsize, hf, hcur⟩
        rw [show start s + size s = start u by omega]
        exact ⟨hf, hcur⟩

/-! ### Loops that follow each other -/

/-- `M` does to the images under `f` what `L` does; `g` is the image of an error. -/
structure Follows {S' E' : Type*} (L : Loop S E) (M : Loop S' E') (f : S → S')
    (g : S → E → E') : Prop where
  cond : ∀ s, M.cond (f s) = L.cond s
  pass : ∀ s t, L.Pass s t → M.body (f s) = .ok (f t)
  error : ∀ s e, L.cond s = true → L.body s = .error e → M.body (f s) = .error (g s e)

namespace Follows

variable {S' E' : Type*} {M : Loop S' E'} {f : S → S'} {g : S → E → E'}

lemma pass_map (h : Follows L M f g) {s t : S} (hp : L.Pass s t) : M.Pass (f s) (f t) :=
  ⟨(h.cond s).trans hp.1, h.pass s t hp⟩

lemma run_ok (h : Follows L M f g) {s t : S} (hrun : L.run s = .ok t) :
    M.run (f s) = .ok (f t) := by
  obtain ⟨hreach, hcond⟩ := run_eq_ok_iff.mp hrun
  exact run_eq_ok_iff.mpr ⟨hreach.lift f fun _ _ hp => h.pass_map hp, (h.cond t).trans hcond⟩

lemma run_error (h : Follows L M f g) {s : S} {e : E} (hrun : L.run s = .error e) :
    ∃ t, M.run (f s) = .error (g t e) := by
  obtain ⟨t, hreach, hcond, hbody⟩ := run_eq_error_iff.mp hrun
  exact ⟨t, run_eq_error_iff.mpr ⟨f t, hreach.lift f fun _ _ hp => h.pass_map hp,
    (h.cond t).trans hcond, h.error t e hcond hbody⟩⟩

lemma trace_map (h : Follows L M f g) (s : S) : M.trace (f s) = (L.trace s).map f := by
  induction s using Loop.induction (L := L) with
  | hend s hc => rw [trace_of_not_cond hc, trace_of_not_cond ((h.cond s).trans hc), List.map_nil]
  | herror s e hc hb =>
      rw [trace_of_error hc hb, trace_of_error ((h.cond s).trans hc) (h.error s e hc hb)]
      rfl
  | hpass s t hp ih => rw [hp.trace_eq, (h.pass_map hp).trace_eq, ih, List.map_cons]

end Follows

end Loop
