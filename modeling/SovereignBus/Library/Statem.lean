import Mathlib

/-!
State machines whose states react to events, run by an event loop.

* `Callbacks`, `Reaction`: what a state makes of an event. It may change to
  another state, answer, and raise internal events.
* `Config`, `handle`, `Step`: the loop. The entry of a new state comes first, then
  the internal events, and an event from outside only behind all of them. An event
  that a state has no clause for ends the machine.
* `Reachable.invariant`: the rule that carries a property through a run.
* `Run`: a run with its rounds, for the properties that look back at them.
* `tick`: the loop without events from outside.
-/

namespace Statem

variable {S D Ev A G X : Type*}

/-- What a state makes of an event: the state it changes to if it does, the data it
leaves, an answer, internal events, and what it did on the way. -/
structure Reaction (S D Ev A G : Type*) where
  next : Option S
  data : D
  reply : Option A
  internal : List Ev
  effects : List G

/-- The reactions of all states, with the outcomes `X` of the calls they make. -/
structure Callbacks (S D Ev A G X : Type*) where
  react : S → X → D → Ev → Option (Reaction S D Ev A G)
  enter : S → Ev
  External : Ev → Prop

/-- An event that was handled: in which state, with which answer and effects. -/
structure Entry (S Ev A G : Type*) where
  state : S
  event : Ev
  reply : Option A
  effects : List G

structure Config (S D Ev A G : Type*) where
  state : S
  data : D
  pending : List Ev
  alive : Bool
  trace : List (Entry S Ev A G)

/-- The machine before any event. -/
def Config.start (s : S) (d : D) : Config S D Ev A G := ⟨s, d, [], true, []⟩

variable [DecidableEq S] (M : Callbacks S D Ev A G X)

/-- The event of the entry of a state, if the reaction changes the state. -/
def entered (s : S) (r : Reaction S D Ev A G) : List Ev :=
  match r.next with
  | some t => if t = s then [] else [M.enter s]
  | none => []

/-- The event `ev` is handled, and the events `rest` stay pending. -/
def handle (c : Config S D Ev A G) (x : X) (ev : Ev) (rest : List Ev) : Config S D Ev A G :=
  match M.react c.state x c.data ev with
  | none => { c with pending := [], alive := false }
  | some r =>
      { c with
        state := r.next.getD c.state
        data := r.data
        pending := entered M c.state r ++ r.internal ++ rest
        trace := c.trace ++ [⟨c.state, ev, r.reply, r.effects⟩] }

/-- The event `ev` is the next one, before the events `rest`: the first of the
pending ones, or one from outside if there is none. -/
def Due (c : Config S D Ev A G) (ev : Ev) (rest : List Ev) : Prop :=
  c.pending = ev :: rest ∨ c.alive = true ∧ M.External ev ∧ c.pending = [] ∧ rest = []

def Step (c c' : Config S D Ev A G) : Prop :=
  ∃ x ev rest, Due M c ev rest ∧ c' = handle M c x ev rest

def Reachable (s : S) (d : D) (c : Config S D Ev A G) : Prop :=
  Relation.ReflTransGen (Step M) (Config.start s d) c

/-- An event that was handled, with the configuration it came to and the outcomes
of the calls. -/
structure Round (S D Ev A G X : Type*) where
  before : Config S D Ev A G
  outcomes : X
  event : Ev

/-- A run from `c₀` with its rounds, in order. -/
inductive Run (c₀ : Config S D Ev A G) : List (Round S D Ev A G X) → Config S D Ev A G → Prop
  | nil : Run c₀ [] c₀
  | concat {rounds : List (Round S D Ev A G X)} {c : Config S D Ev A G} (h : Run c₀ rounds c)
      (x : X) (ev : Ev) {rest : List Ev} (hdue : Due M c ev rest) :
      Run c₀ (rounds ++ [⟨c, x, ev⟩]) (handle M c x ev rest)

/-- One round of the loop without an event from outside. -/
def tick (x : X) (c : Config S D Ev A G) : Config S D Ev A G :=
  match c.pending with
  | [] => c
  | ev :: rest => handle M c x ev rest

variable {M}

lemma handle_of_none {c : Config S D Ev A G} {x : X} {ev : Ev} (rest : List Ev)
    (h : M.react c.state x c.data ev = none) :
    handle M c x ev rest = { c with pending := [], alive := false } := by
  rw [handle, h]

lemma handle_of_some {c : Config S D Ev A G} {x : X} {ev : Ev} (rest : List Ev)
    {r : Reaction S D Ev A G} (h : M.react c.state x c.data ev = some r) :
    handle M c x ev rest
      = { c with
          state := r.next.getD c.state
          data := r.data
          pending := entered M c.state r ++ r.internal ++ rest
          trace := c.trace ++ [⟨c.state, ev, r.reply, r.effects⟩] } := by
  rw [handle, h]

lemma tick_cons {c : Config S D Ev A G} {ev : Ev} {rest : List Ev} (x : X)
    (h : c.pending = ev :: rest) : tick M x c = handle M c x ev rest := by
  rw [tick, h]

/-- A machine that is reached handles any event that is due. -/
lemma Reachable.due {s : S} {d : D} {c : Config S D Ev A G} (h : Reachable M s d c) (x : X)
    (ev : Ev) {rest : List Ev} (hdue : Due M c ev rest) :
    Reachable M s d (handle M c x ev rest) :=
  Relation.ReflTransGen.tail h ⟨x, ev, rest, hdue, rfl⟩

/-- What holds at the start and survives every event that is due holds of every
configuration that is reached. -/
theorem Reachable.invariant {s : S} {d : D} {P : Config S D Ev A G → Prop}
    (h0 : P (Config.start s d))
    (hstep : ∀ c x ev rest, P c → Due M c ev rest → P (handle M c x ev rest))
    {c : Config S D Ev A G} (h : Reachable M s d c) : P c := by
  induction h with
  | refl => exact h0
  | tail _ hs ih =>
      obtain ⟨x, ev, rest, hdue, rfl⟩ := hs
      exact hstep _ x ev rest ih hdue

lemma Run.reachable {s : S} {d : D} {c : Config S D Ev A G} {rounds : List (Round S D Ev A G X)}
    (h : Run M (Config.start s d) rounds c) : Reachable M s d c := by
  induction h with
  | nil => exact Relation.ReflTransGen.refl
  | concat _ x ev hdue ih => exact ih.due x ev hdue

end Statem
