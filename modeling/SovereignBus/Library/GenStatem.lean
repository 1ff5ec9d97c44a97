import Mathlib

/-!
The event loop of OTP's `gen_statem`, as a callback module meets it.

* `EventType`, `Action`, `Reaction`: what a callback is called with and what it
  may return. A call comes with the type `{call, From}`, and only an action that
  names `From` answers it.
* `Process`, `perform`, `handle`: a process and what becomes of it at one event. An
  event that no clause matches ends it, and so does an action that is none.
* `Run`, `Run.ended`: a process that no event leaves alive has answered nothing.
-/

namespace GenStatem

variable {S D F C A X : Type*}

/-- The types of events as the first argument of a callback. The loop never
delivers the bare atom `call`. -/
inductive EventType (F : Type*) where
  | call
  | callFrom (caller : F)
  | info
  | internal
  | enter

/-- The actions `{reply, From, Answer}`, `{reply, Answer}` and
`{next_event, internal, Content}`. The second is no action of the loop. -/
inductive Action (F C A : Type*) where
  | reply (caller : F) (answer : A)
  | bareReply (answer : A)
  | nextEvent (content : C)

structure Reaction (S D F C A : Type*) where
  next : Option S
  data : D
  actions : List (Action F C A)

/-- A callback module: the clauses of its states, with the outcomes `X` of the calls
they make, and whether `callback_mode/0` asks for `state_enter`. -/
structure Module (S D F C A X : Type*) where
  react : S → X → D → EventType F → C → Option (Reaction S D F C A)
  stateEnter : Bool
  prev : S → C

/-- A process, with the events that come before those from outside and the answers
it has sent. -/
structure Process (S D F C A : Type*) where
  state : S
  data : D
  pending : List (EventType F × C)
  alive : Bool
  replies : List (F × A)

/-- What comes from outside: a `gen_statem:call` or a message. -/
inductive Input (F C : Type*) where
  | call (caller : F) (request : C)
  | info (message : C)

def Input.type : Input F C → EventType F
  | .call caller _ => .callFrom caller
  | .info _ => .info

def Input.content : Input F C → C
  | .call _ request => request
  | .info message => message

/-- The caller of a call. -/
def Input.caller? : Input F C → Option F
  | .call caller _ => some caller
  | .info _ => none

/-- The process terminates. -/
def Process.exit (p : Process S D F C A) : Process S D F C A :=
  { p with pending := [], alive := false }

/-- The actions of a reaction, in order. -/
def perform (p : Process S D F C A) : List (Action F C A) → Process S D F C A
  | [] => p
  | .reply caller answer :: actions =>
      perform { p with replies := p.replies ++ [(caller, answer)] } actions
  | .bareReply _ :: _ => p.exit
  | .nextEvent content :: actions =>
      perform { p with pending := p.pending ++ [(.internal, content)] } actions

/-- The process as it was started. -/
def Process.start (s : S) (d : D) : Process S D F C A := ⟨s, d, [], true, []⟩

variable [DecidableEq S] (M : Module S D F C A X)

/-- One event, with the events `rest` behind it. -/
def handle (p : Process S D F C A) (x : X) (type : EventType F) (content : C)
    (rest : List (EventType F × C)) : Process S D F C A :=
  match M.react p.state x p.data type content with
  | none => p.exit
  | some r =>
      let state := r.next.getD p.state
      let enter :=
        if M.stateEnter = true ∧ state ≠ p.state then [(.enter, M.prev p.state)] else []
      let p' := perform { p with state := state, data := r.data, pending := enter } r.actions
      if p'.alive then { p' with pending := p'.pending ++ rest } else p'

/-- A run from `p₀` and what came to it from outside, in order. What is pending goes
first, and nothing reaches a process that has terminated. -/
inductive Run (p₀ : Process S D F C A) : List (Input F C) → Process S D F C A → Prop
  | nil : Run p₀ [] p₀
  | internal {inputs : List (Input F C)} {p : Process S D F C A} (h : Run p₀ inputs p) (x : X)
      {type : EventType F} {content : C} {rest : List (EventType F × C)}
      (hpending : p.pending = (type, content) :: rest) :
      Run p₀ inputs (handle M p x type content rest)
  | external {inputs : List (Input F C)} {p : Process S D F C A} (h : Run p₀ inputs p) (x : X)
      (input : Input F C) (hpending : p.pending = []) (halive : p.alive = true) :
      Run p₀ (inputs ++ [input]) (handle M p x input.type input.content [])
  | lost {inputs : List (Input F C)} {p : Process S D F C A} (h : Run p₀ inputs p)
      (input : Input F C) (halive : p.alive = false) : Run p₀ (inputs ++ [input]) p

variable {M}

lemma handle_of_none {p : Process S D F C A} {x : X} {type : EventType F} {content : C}
    (rest : List (EventType F × C)) (h : M.react p.state x p.data type content = none) :
    handle M p x type content rest = p.exit := by
  rw [handle, h]

/-- Where no clause matches anything that can come from outside, the first input
ends the process, and it answers none. -/
theorem Run.ended {s : S} {d : D} {p : Process S D F C A} {inputs : List (Input F C)}
    (hrun : Run M (Process.start s d) inputs p)
    (hnone : ∀ x (input : Input F C), M.react s x d input.type input.content = none) :
    p = if inputs = [] then Process.start s d else (Process.start s d).exit := by
  induction hrun with
  | nil => rfl
  | internal _ x hpending ih =>
      rw [ih] at hpending
      split_ifs at hpending <;> simp [Process.start, Process.exit] at hpending
  | @external inputs p _ x input _ halive ih =>
      rw [if_neg (by simp)]
      split_ifs at ih with hinputs
      · rw [ih]
        exact handle_of_none [] (hnone x input)
      · simp [ih, Process.exit] at halive
  | @lost inputs p _ input halive ih =>
      rw [if_neg (by simp)]
      split_ifs at ih with hinputs
      · simp [ih, Process.start] at halive
      · exact ih

end GenStatem
