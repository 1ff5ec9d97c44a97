import SovereignBus.Agent.Fsm
import SovereignBus.Library.GenStatem

/-!
The agent of `seb/runtime/src/seb_agent_fsm.erl` as a callback module of OTP.

* `matched`: the heads of the clauses, against what the event loop delivers. They
  match a call by the atom `call`.
* `seb_agent_fsm`: the callback module. Its clauses answer by `{reply, Answer}`, and
  `callback_mode/0` is `state_functions`.
* `agent_answers_iff`: which calls such an agent answers.
-/

namespace SovereignBus

namespace Agent

open GenStatem

variable {T F : Type*}

/-- The second argument of a clause: a request of the API, `{drain_timeout, Ref}`,
`process_queue`, or the state before. -/
inductive Content (T : Type*) where
  | request (request : Request T)
  | drainTimeout
  | processQueue
  | prev (s : State)

/-- The event of a clause whose head the arguments match, if there is one: the heads
are `call` with a request, `info` with the message of the timer, `internal` with
`process_queue`, and `enter`. -/
def matched : EventType F → Content T → Option (Event T)
  | .call, .request request => some (.call request)
  | .info, .drainTimeout => some .drainTimeout
  | .internal, .processQueue => some .processQueue
  | .enter, .prev s => some (.enter s)
  | _, _ => none

/-- An internal event as the content of `{next_event, internal, Content}`. -/
def contentOf : Event T → Content T
  | .call request => .request request
  | .drainTimeout => .drainTimeout
  | .processQueue => .processQueue
  | .enter s => .prev s

/-- The actions of a clause: `{reply, Answer}`, then the internal events. -/
def actionsOf (r : AgentReaction T) : List (Action F (Content T) (Answer T)) :=
  r.reply.toList.map .bareReply ++ r.internal.map fun ev => .nextEvent (contentOf ev)

/-- The callback module. `callback_mode/0` is `state_functions`, without
`state_enter`. -/
def sebAgentFsm (T F : Type*) : Module State (Data T) F (Content T) (Answer T) (Env T) where
  react s env data type content :=
    match matched type content with
    | none => none
    | some ev => ((fsm T).react s env data ev).map fun r => ⟨r.next, r.data, actionsOf r⟩
  stateEnter := false
  prev := .prev

/-- A process that was started with `init/1`. -/
abbrev AgentProcess (T F : Type*) := Process State (Data T) F (Content T) (Answer T)

/-- No event has ended the process, and every call has one answer: as many answers
name a caller as calls came from it. -/
def AnswersAll [DecidableEq F] (inputs : List (Input F (Content T))) (p : AgentProcess T F) :
    Prop :=
  p.alive = true
    ∧ ∀ caller,
        (p.replies.map Prod.fst).count caller = (inputs.filterMap Input.caller?).count caller

/-- No clause matches a call, in whatever state. -/
lemma sebAgentFsm_call (s : State) (env : Env T) (data : Data T) (caller : F)
    (content : Content T) :
    (sebAgentFsm T F).react s env data (.callFrom caller) content = none := by
  cases content <;> rfl

/-- Only `draining` has a clause for the message of the timer. -/
lemma sebAgentFsm_info {s : State} (hs : s ≠ .draining) (env : Env T) (data : Data T)
    (content : Content T) : (sebAgentFsm T F).react s env data .info content = none := by
  cases content <;> cases s <;> first | rfl | exact absurd rfl hs

/-- An agent keeps up with its calls exactly as long as nothing comes to it. -/
theorem agent_answers_iff [DecidableEq F] {inputs : List (Input F (Content T))}
    {p : AgentProcess T F} (h : Run (sebAgentFsm T F) (Process.start .active Data.init) inputs p) :
    AnswersAll inputs p ↔ inputs = [] := by
  have hp := h.ended fun env input => by
    cases input with
    | call caller content => exact sebAgentFsm_call _ _ _ _ _
    | info content => exact sebAgentFsm_info (by decide) _ _ _
  refine ⟨fun hanswers => ?_, fun hinputs => ?_⟩
  · by_contra hinputs
    rw [if_neg hinputs] at hp
    simp [AnswersAll, hp, Process.exit] at hanswers
  · subst hinputs
    rw [hp]
    exact ⟨rfl, fun caller => rfl⟩

/-- A call for the state, on a new agent. -/
lemma run_getState : Run (sebAgentFsm ℕ ℕ) (Process.start .active Data.init)
    [.call 7 (.request .getState)] (Process.start .active Data.init).exit := by
  have h0 : Run (sebAgentFsm ℕ ℕ) (Process.start .active Data.init) []
      (Process.start .active Data.init) := .nil
  exact h0.external ⟨0, .ok⟩ (.call 7 (.request .getState)) rfl rfl

/-- An agent that nothing comes to keeps up, and one that is asked for its state does
not. -/
theorem agent_answers_iff_getState :
    AnswersAll [] (Process.start .active Data.init : AgentProcess ℕ ℕ)
      ∧ ¬ AnswersAll [.call 7 (.request .getState)]
          (Process.start .active Data.init : AgentProcess ℕ ℕ).exit :=
  ⟨(agent_answers_iff .nil).mpr rfl,
    fun h => absurd ((agent_answers_iff run_getState).mp h) (by simp)⟩

/-- The first `get_state` ends the agent, unanswered. -/
theorem agent_get_state_ends :
    ¬ ∀ (inputs : List (Input ℕ (Content ℕ))) (p : AgentProcess ℕ ℕ),
      Run (sebAgentFsm ℕ ℕ) (Process.start .active Data.init) inputs p → AnswersAll inputs p := by
  intro hanswers
  have halive : false = true := (hanswers _ _ run_getState).1
  exact absurd halive (by decide)

end Agent

end SovereignBus
