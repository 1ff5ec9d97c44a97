import SovereignBus.Library.Statem

/-!
The agent of `seb/runtime/src/seb_agent_fsm.erl`.

* `Data`, `Event`: the record and the events of the clauses. A clause's event type
  `call` is a call of the API, and `enter` comes with every change of the state.
* `active`, `draining`, `checkpointed`, `stopped`: the clauses of the source. An
  event without a clause gives `none`.
* `agent_fsm_queue_safe`: accepted events are processed once and in order.
-/

namespace SovereignBus

namespace Agent

open Statem

variable {T : Type*}

/-! ### The clauses -/

inductive State where
  | active
  | draining
  | checkpointed
  | stopped
  deriving DecidableEq

/-- `#data{}` without the identifier and the configuration, which no clause
reads. A timer is there or not. -/
structure Data (T : Type*) where
  queue : List T
  currentOffset : ℕ
  priorOffset : ℕ
  drainTimer : Bool
  drainStart : Option ℤ

/-- The requests of the API. -/
inductive Request (T : Type*) where
  | shutdown
  | queueEvent (event : T)
  | commitOffset (offset : ℕ)
  | getState

/-- An API call, the message of the drain timer, the internal event
`process_queue`, and the entry of a state from the state before. -/
inductive Event (T : Type*) where
  | call (request : Request T)
  | drainTimeout
  | processQueue
  | enter (prev : State)

/-- What `seb_kernel_nif:commit_offset` does. -/
inductive NifOutcome (T : Type*) where
  | ok
  | returned (error : T)
  | raised (reason : T)

/-- The reasons behind `error` in an answer. -/
inductive Reason (T : Type*) where
  | queueFull
  | agentDraining
  | agentCheckpointed
  | alreadyCheckpointed
  | agentStopped
  | returned (error : T)
  | nifError (reason : T)

inductive Answer (T : Type*) where
  | ok
  | error (reason : Reason T)
  | state (s : State)

/-- The clock, and what the NIF does if it is called. -/
structure Env (T : Type*) where
  monotonicTime : ℤ
  nif : NifOutcome T

/-- `MAX_QUEUE_SIZE`. -/
def maxQueueSize : ℕ := 10000

/-- `init/1`. -/
def Data.init : Data T := ⟨[], 0, 0, false, none⟩

/-- What a clause makes of an event; the effects are the events given to
`process_event`. -/
abbrev AgentReaction (T : Type*) := Reaction State (Data T) (Event T) (Answer T) T

/-- `process_event/1`. -/
def processEvent (_ : T) : Except T Unit := .ok ()

/-- `commit_to_kernel/1`, which looks at nothing but the outcome of the NIF. -/
def commitToKernel (nif : NifOutcome T) (_offset : ℕ) : Except (Reason T) Unit :=
  match nif with
  | .ok => .ok ()
  | .returned error => .error (.returned error)
  | .raised reason => .error (.nifError reason)

/-- `keep_state`, with an answer. -/
def keep (data : Data T) (reply : Option (Answer T)) : AgentReaction T :=
  ⟨none, data, reply, [], []⟩

/-- The first two clauses of `process_queue`: the event at the head of the queue is
given to `process_event`. -/
def processHead (data : Data T) (event : T) (queue : List T) : AgentReaction T :=
  match processEvent event with
  | .ok _ => ⟨none, { data with queue := queue }, none, [.processQueue], [event]⟩
  | .error _ => ⟨none, { data with queue := queue }, none, [.processQueue], [event]⟩

/-- `active/3`. -/
def active (env : Env T) (data : Data T) : Event T → Option (AgentReaction T)
  | .call .shutdown =>
      some ⟨some .draining, { data with drainStart := some env.monotonicTime }, some .ok, [], []⟩
  | .call (.queueEvent event) =>
      if data.queue.length ≥ maxQueueSize then some (keep data (some (.error .queueFull)))
      else
        some ⟨none, { data with queue := data.queue ++ [event] }, some .ok, [.processQueue], []⟩
  | .call (.commitOffset offset) =>
      match commitToKernel env.nif offset with
      | .ok _ => some (keep { data with currentOffset := offset } (some .ok))
      | .error reason => some (keep data (some (.error reason)))
  | .call .getState => some (keep data (some (.state .active)))
  | .processQueue =>
      match data.queue with
      | event :: queue => some (processHead data event queue)
      | [] => some (keep data none)
  | .drainTimeout => none
  | .enter _ => none

/-- `draining/3`. -/
def draining (env : Env T) (data : Data T) : Event T → Option (AgentReaction T)
  | .drainTimeout => some ⟨some .checkpointed, { data with drainTimer := false }, none, [], []⟩
  | .call (.queueEvent _) => some (keep data (some (.error .agentDraining)))
  | .call .shutdown => some (keep data (some .ok))
  | .call (.commitOffset offset) =>
      match commitToKernel env.nif offset with
      | .ok _ =>
          let newData := { data with currentOffset := offset }
          if newData.queue.isEmpty then some ⟨some .checkpointed, newData, some .ok, [], []⟩
          else some (keep newData (some .ok))
      | .error reason => some (keep data (some (.error reason)))
  | .call .getState => some (keep data (some (.state .draining)))
  | .processQueue =>
      match data.queue with
      | event :: queue => some (processHead data event queue)
      | [] =>
          if data.drainTimer then some (keep data none)
          else some (keep { data with drainTimer := true } none)
  | .enter _ => some ⟨none, data, none, [.processQueue], []⟩

/-- `checkpointed/3`. -/
def checkpointed (data : Data T) : Event T → Option (AgentReaction T)
  | .call (.queueEvent _) => some (keep data (some (.error .agentCheckpointed)))
  | .call .shutdown => some (keep data (some .ok))
  | .call (.commitOffset _) => some (keep data (some (.error .alreadyCheckpointed)))
  | .call .getState => some (keep data (some (.state .checkpointed)))
  | .enter _ => some ⟨some .stopped, data, none, [], []⟩
  | .drainTimeout => none
  | .processQueue => none

/-- `stopped/3`. -/
def stopped (data : Data T) : Event T → Option (AgentReaction T)
  | .call .getState => some (keep data (some (.state .stopped)))
  | .call _ => some (keep data (some (.error .agentStopped)))
  | .drainTimeout => none
  | .processQueue => none
  | .enter _ => none

/-- The agent as callbacks of the event loop. -/
def fsm (T : Type*) : Callbacks State (Data T) (Event T) (Answer T) T (Env T) where
  react
    | .active => active
    | .draining => draining
    | .checkpointed => fun _ => checkpointed
    | .stopped => fun _ => stopped
  enter := .enter
  External
    | .call _ => True
    | .drainTimeout => True
    | .processQueue => False
    | .enter _ => False

abbrev AgentConfig (T : Type*) := Config State (Data T) (Event T) (Answer T) T

/-- The event that an entry of the trace accepted. -/
def acceptedEvent (entry : Entry State (Event T) (Answer T) T) : Option T :=
  match entry.event, entry.reply with
  | .call (.queueEvent event), some .ok => some event
  | _, _ => none

/-- The events accepted so far, in order. -/
def accepted (c : AgentConfig T) : List T := c.trace.filterMap acceptedEvent

/-- The events given to `process_event` so far, in order. -/
def processed (c : AgentConfig T) : List T := c.trace.flatMap Entry.effects

/-! ### One event -/

variable {s : State} {env : Env T} {data : Data T} {ev : Event T} {r : AgentReaction T}

/-- An event that is accepted: only `active` accepts, and it has the event
processed. -/
def Accepts (s : State) (data : Data T) (ev : Event T) (r : AgentReaction T) : Prop :=
  ∃ event, s = .active ∧ ev = .call (.queueEvent event) ∧ data.queue.length < maxQueueSize
    ∧ r = ⟨none, { data with queue := data.queue ++ [event] }, some .ok, [.processQueue], []⟩

/-- The event at the head of the queue is processed. -/
def Processes (data : Data T) (ev : Event T) (r : AgentReaction T) : Prop :=
  ∃ event queue, ev = .processQueue ∧ data.queue = event :: queue
    ∧ r = ⟨none, { data with queue := queue }, none, [.processQueue], [event]⟩

/-- The queue is left alone, and no event is accepted or processed. -/
structure LeavesQueue (s : State) (data : Data T) (ev : Event T) (r : AgentReaction T) : Prop where
  queue : r.data.queue = data.queue
  effects : r.effects = []
  refuses : ∀ event, ev = .call (.queueEvent event) → r.reply ≠ some .ok
  empty : s = .active → ev = .processQueue → data.queue = []
  internal : r.internal = [] ∨ r.next = none ∧ r.internal = [.processQueue]

lemma processHead_eq (data : Data T) (event : T) (queue : List T) :
    processHead data event queue
      = ⟨none, { data with queue := queue }, none, [.processQueue], [event]⟩ := rfl

lemma leavesQueue_keep {data' : Data T} {reply : Option (Answer T)}
    (hqueue : data'.queue = data.queue)
    (hrefuses : ∀ event, ev = .call (.queueEvent event) → reply ≠ some .ok)
    (hempty : s = .active → ev = .processQueue → data.queue = []) :
    LeavesQueue s data ev (keep data' reply) :=
  ⟨hqueue, rfl, hrefuses, hempty, .inl rfl⟩

lemma active_cases (h : active env data ev = some r) :
    Accepts .active data ev r ∨ Processes data ev r ∨ LeavesQueue .active data ev r := by
  cases ev with
  | call request =>
      cases request with
      | shutdown =>
          obtain rfl := Option.some.inj h
          exact .inr (.inr ⟨rfl, rfl, by simp, by simp, .inl rfl⟩)
      | queueEvent event =>
          rw [active] at h
          split_ifs at h with hfull
          · obtain rfl := Option.some.inj h
            exact .inr (.inr (leavesQueue_keep rfl (by simp) (by simp)))
          · exact .inl ⟨event, rfl, rfl, not_le.mp hfull, (Option.some.inj h).symm⟩
      | commitOffset offset =>
          rw [active] at h
          cases hcommit : commitToKernel env.nif offset with
          | ok _ | error _ =>
              rw [hcommit] at h
              obtain rfl := Option.some.inj h
              exact .inr (.inr (leavesQueue_keep rfl (by simp) (by simp)))
      | getState =>
          obtain rfl := Option.some.inj h
          exact .inr (.inr (leavesQueue_keep rfl (by simp) (by simp)))
  | processQueue =>
      cases hqueue : data.queue with
      | nil =>
          simp only [active, hqueue] at h
          obtain rfl := Option.some.inj h
          exact .inr (.inr (leavesQueue_keep rfl (by simp) fun _ _ => hqueue))
      | cons event queue =>
          simp only [active, hqueue, processHead_eq] at h
          exact .inr (.inl ⟨event, queue, rfl, hqueue, (Option.some.inj h).symm⟩)
  | drainTimeout => simp [active] at h
  | enter prev => simp [active] at h

lemma draining_cases (h : draining env data ev = some r) :
    Processes data ev r ∨ LeavesQueue .draining data ev r := by
  cases ev with
  | call request =>
      cases request with
      | shutdown =>
          obtain rfl := Option.some.inj h
          exact .inr (leavesQueue_keep rfl (by simp) (by simp))
      | queueEvent event =>
          obtain rfl := Option.some.inj h
          exact .inr (leavesQueue_keep rfl (by simp) (by simp))
      | commitOffset offset =>
          rw [draining] at h
          cases hcommit : commitToKernel env.nif offset with
          | ok _ =>
              simp only [hcommit] at h
              split_ifs at h with hempty
              · obtain rfl := Option.some.inj h
                exact .inr ⟨rfl, rfl, by simp, by simp, .inl rfl⟩
              · obtain rfl := Option.some.inj h
                exact .inr (leavesQueue_keep rfl (by simp) (by simp))
          | error reason =>
              rw [hcommit] at h
              obtain rfl := Option.some.inj h
              exact .inr (leavesQueue_keep rfl (by simp) (by simp))
      | getState =>
          obtain rfl := Option.some.inj h
          exact .inr (leavesQueue_keep rfl (by simp) (by simp))
  | processQueue =>
      cases hqueue : data.queue with
      | nil =>
          simp only [draining, hqueue] at h
          split_ifs at h with htimer
          · obtain rfl := Option.some.inj h
            exact .inr (leavesQueue_keep rfl (by simp) (by simp))
          · obtain rfl := Option.some.inj h
            exact .inr (leavesQueue_keep hqueue.symm (by simp) (by simp))
      | cons event queue =>
          simp only [draining, hqueue, processHead_eq] at h
          exact .inl ⟨event, queue, rfl, hqueue, (Option.some.inj h).symm⟩
  | drainTimeout =>
      obtain rfl := Option.some.inj h
      exact .inr ⟨rfl, rfl, by simp, by simp, .inl rfl⟩
  | enter prev =>
      obtain rfl := Option.some.inj h
      exact .inr ⟨rfl, rfl, by simp, by simp, .inr ⟨rfl, rfl⟩⟩

lemma checkpointed_leavesQueue (h : checkpointed data ev = some r) :
    LeavesQueue .checkpointed data ev r := by
  cases ev with
  | call request =>
      cases request <;> obtain rfl := Option.some.inj h <;>
        exact leavesQueue_keep rfl (by simp) (by simp)
  | enter prev =>
      obtain rfl := Option.some.inj h
      exact ⟨rfl, rfl, by simp, by simp, .inl rfl⟩
  | drainTimeout => simp [checkpointed] at h
  | processQueue => simp [checkpointed] at h

lemma stopped_leavesQueue (h : stopped data ev = some r) : LeavesQueue .stopped data ev r := by
  cases ev with
  | call request =>
      cases request <;> obtain rfl := Option.some.inj h <;>
        exact leavesQueue_keep rfl (by simp) (by simp)
  | drainTimeout => simp [stopped] at h
  | processQueue => simp [stopped] at h
  | enter prev => simp [stopped] at h

/-- What a clause can do to the queue. -/
lemma react_cases (h : (fsm T).react s env data ev = some r) :
    Accepts s data ev r ∨ Processes data ev r ∨ LeavesQueue s data ev r := by
  cases s with
  | active => exact active_cases h
  | draining => exact .inr (draining_cases h)
  | checkpointed => exact .inr (.inr (checkpointed_leavesQueue h))
  | stopped => exact .inr (.inr (stopped_leavesQueue h))

/-! ### Runs -/

/-- The queue is empty between two events from outside. An event that was accepted
waits only for the internal event that processes it. -/
structure Quiet (c : AgentConfig T) : Prop where
  accounts : accepted c = processed c ++ c.data.queue
  settled : c.data.queue = []
    ∨ c.state = .active ∧ c.pending = [.processQueue] ∧ c.data.queue.length = 1
  pending : c.pending = [] ∨ c.pending = [.processQueue] ∨ ∃ prev, c.pending = [.enter prev]

/-- The accounts of a trace with one more entry. -/
lemma accounts_concat {c c' : AgentConfig T} {entry : Entry State (Event T) (Answer T) T}
    (h : c'.trace = c.trace ++ [entry]) :
    accepted c' = accepted c ++ (acceptedEvent entry).toList
      ∧ processed c' = processed c ++ entry.effects := by
  rw [accepted, processed, h, List.filterMap_append, List.flatMap_append]
  cases hentry : acceptedEvent entry <;> simp [accepted, processed, hentry]

lemma acceptedEvent_eq_none {entry : Entry State (Event T) (Answer T) T}
    (h : ∀ event, entry.event = .call (.queueEvent event) → entry.reply ≠ some .ok) :
    acceptedEvent entry = none := by
  rw [acceptedEvent]
  split
  · next event hevent hreply => exact absurd hreply (h event hevent)
  · rfl

variable {c : AgentConfig T} {rest : List (Event T)}

/-- Behind the event that is due nothing else is. -/
lemma Quiet.rest_eq_nil (hq : Quiet c) (hdue : Due (fsm T) c ev rest) : rest = [] := by
  rcases hdue with hp | ⟨-, -, -, hrest⟩
  · have hpending := hq.pending
    simp only [hp, List.cons.injEq, reduceCtorEq, false_or] at hpending
    rcases hpending with ⟨-, hrest⟩ | ⟨-, -, hrest⟩
    · exact hrest
    · exact hrest
  · exact hrest

/-- The queue is empty unless the event that is due processes it. -/
lemma Quiet.queue_eq_nil (hq : Quiet c) (hdue : Due (fsm T) c ev rest)
    (hev : ¬ (c.state = .active ∧ ev = .processQueue)) : c.data.queue = [] := by
  rcases hq.settled with h | ⟨hstate, hpending, -⟩
  · exact h
  · rcases hdue with hp | ⟨-, -, hp, -⟩
    · rw [hpending, List.cons.injEq] at hp
      exact absurd ⟨hstate, hp.1.symm⟩ hev
    · simp [hpending] at hp

/-- An event that is due keeps the queue so. -/
lemma Quiet.handle (hq : Quiet c) (env : Env T) (hdue : Due (fsm T) c ev rest) :
    Quiet (Statem.handle (fsm T) c env ev rest) := by
  obtain rfl := hq.rest_eq_nil hdue
  cases hr : (fsm T).react c.state env c.data ev with
  | none =>
      rw [handle_of_none [] hr]
      refine ⟨hq.accounts, .inl (hq.queue_eq_nil hdue ?_), .inl rfl⟩
      rintro ⟨hstate, rfl⟩
      rw [hstate] at hr
      cases hqueue : c.data.queue <;> simp [fsm, active, hqueue] at hr
  | some r =>
      obtain ⟨haccepted, hprocessed⟩ :=
        accounts_concat (congrArg Config.trace (handle_of_some [] hr))
      rw [handle_of_some [] hr] at haccepted hprocessed ⊢
      have haccounts := hq.accounts
      rcases react_cases hr with ⟨event, hstate, rfl, hroom, rfl⟩ | ⟨event, queue, rfl, hqueue, rfl⟩
        | hleaves
      · have hnil := hq.queue_eq_nil hdue (by simp)
        refine ⟨?_, .inr ⟨hstate, rfl, by simp [hnil]⟩, .inr (.inl rfl)⟩
        rw [haccepted, hprocessed, haccounts, hnil]
        simp [acceptedEvent]
      · have hone : queue = [] := by
          rcases hq.settled with h | ⟨-, -, h⟩
          · simp [h] at hqueue
          · rw [hqueue, List.length_cons] at h
            exact List.length_eq_zero_iff.mp (by omega)
        refine ⟨?_, .inl hone, .inr (.inl rfl)⟩
        rw [haccepted, hprocessed, haccounts, hqueue]
        simp [acceptedEvent]
      · have hnil : c.data.queue = [] := by
          by_cases hev : c.state = .active ∧ ev = .processQueue
          · exact hleaves.empty hev.1 hev.2
          · exact hq.queue_eq_nil hdue hev
        refine ⟨?_, .inl (hleaves.queue.trans hnil), ?_⟩
        · rw [haccepted, hprocessed, haccounts, acceptedEvent_eq_none hleaves.refuses,
            hleaves.effects, hleaves.queue, hnil]
          rfl
        · rcases hleaves.internal with hint | ⟨hnext, hint⟩
          · rw [hint, List.append_nil, List.append_nil, entered]
            split
            · split_ifs
              · exact .inl rfl
              · exact .inr (.inr ⟨c.state, rfl⟩)
            · exact .inl rfl
          · exact .inr (.inl (by simp [entered, hnext, hint]))

/-- The queue of every agent is so. -/
lemma quiet_of_reachable (h : Reachable (fsm T) .active Data.init c) : Quiet c :=
  h.invariant ⟨rfl, .inl rfl, .inl rfl⟩ fun _ env _ _ hq hdue => hq.handle env hdue

/-- A round without an event from outside accepts nothing. -/
lemma Quiet.tick (hq : Quiet c) (env : Env T) :
    Quiet (Statem.tick (fsm T) env c) ∧ accepted (Statem.tick (fsm T) env c) = accepted c := by
  have hround : ∀ ev : Event T, c.pending = [ev] → (∀ request, ev ≠ .call request) →
      Quiet (Statem.tick (fsm T) env c) ∧ accepted (Statem.tick (fsm T) env c) = accepted c := by
    intro ev hp hcall
    rw [tick_cons env hp]
    refine ⟨hq.handle env (.inl hp), ?_⟩
    cases hr : (fsm T).react c.state env c.data ev with
    | none => rw [handle_of_none [] hr, accepted, accepted]
    | some r =>
        have hnone : acceptedEvent ⟨c.state, ev, r.reply, r.effects⟩ = none :=
          acceptedEvent_eq_none fun event hev => absurd hev (hcall _)
        rw [(accounts_concat (congrArg Config.trace (handle_of_some [] hr))).1, hnone]
        simp
  rcases hq.pending with hp | hp | ⟨prev, hp⟩
  · rw [Statem.tick, hp]
    exact ⟨hq, rfl⟩
  · exact hround _ hp (by simp)
  · exact hround _ hp (by simp)

/-- What is pending is handled in two rounds. -/
lemma Quiet.pending_tick_tick (hq : Quiet c) (env : Env T) :
    (Statem.tick (fsm T) env (Statem.tick (fsm T) env c)).pending = [] := by
  obtain ⟨state, ⟨queue, current, prior, timer, start⟩, pending, alive, trace⟩ := c
  rcases hq.pending with hp | hp | ⟨prev, hp⟩
  · obtain rfl : pending = [] := hp
    rfl
  · obtain rfl : pending = [.processQueue] := hp
    rcases hq.settled with hqueue | ⟨hstate, -, hlen⟩
    · obtain rfl : queue = [] := hqueue
      cases state <;> cases timer <;> rfl
    · obtain rfl : state = .active := hstate
      obtain ⟨event, rfl⟩ : ∃ event, queue = [event] := List.length_eq_one_iff.mp hlen
      rfl
  · obtain rfl : pending = [.enter prev] := hp
    have hqueue : queue = [] := by
      rcases hq.settled with h | ⟨-, h, -⟩
      · exact h
      · simp at h
    subst hqueue
    cases state <;> cases timer <;> rfl

/-- An event is accepted in the state `active` only. -/
lemma step_accepts {c' : AgentConfig T} (h : Step (fsm T) c c') (hne : accepted c' ≠ accepted c) :
    c.state = .active := by
  obtain ⟨env, ev, rest, -, rfl⟩ := h
  cases hr : (fsm T).react c.state env c.data ev with
  | none =>
      rw [handle_of_none rest hr, accepted, accepted] at hne
      exact absurd rfl hne
  | some r =>
      have hnone : acceptedEvent ⟨c.state, ev, r.reply, r.effects⟩ = none → c.state = .active := by
        intro hnone
        rw [(accounts_concat (congrArg Config.trace (handle_of_some rest hr))).1, hnone] at hne
        exact absurd (List.append_nil _) hne
      rcases react_cases hr with ⟨event, hstate, -⟩ | ⟨event, queue, rfl, -, rfl⟩ | hleaves
      · exact hstate
      · exact hnone rfl
      · exact hnone (acceptedEvent_eq_none hleaves.refuses)

/-- The queue of the agent. An event is accepted in the state `active` only, the
queue never holds more than its limit, and the events given to `process_event` are
the accepted ones, in order and each once: all of them in `checkpointed` and
`stopped`, and all of them as soon as the internal events are handled. -/
theorem agent_fsm_queue_safe (h : Reachable (fsm T) .active Data.init c) :
    (∀ c', Step (fsm T) c c' → accepted c' ≠ accepted c → c.state = .active)
      ∧ c.data.queue.length ≤ maxQueueSize
      ∧ accepted c = processed c ++ c.data.queue
      ∧ (c.state = .checkpointed ∨ c.state = .stopped → processed c = accepted c)
      ∧ ∀ env, ∃ n, ((tick (fsm T) env)^[n] c).pending = []
          ∧ processed ((tick (fsm T) env)^[n] c) = accepted c := by
  have hq := quiet_of_reachable h
  refine ⟨fun c' => step_accepts, ?_, hq.accounts, fun hstate => ?_, fun env => ⟨2, ?_, ?_⟩⟩
  · have hlen : c.data.queue.length ≤ 1 := by
      rcases hq.settled with h | ⟨-, -, h⟩
      · simp [h]
      · exact h.le
    exact hlen.trans (by decide)
  · have hnil : c.data.queue = [] := by
      rcases hq.settled with h | ⟨hactive, -, -⟩
      · exact h
      · rcases hstate with hstate | hstate <;> simp [hactive] at hstate
    rw [hq.accounts, hnil, List.append_nil]
  · exact hq.pending_tick_tick env
  · obtain ⟨hq1, haccepted1⟩ := hq.tick env
    obtain ⟨hq2, haccepted2⟩ := hq1.tick env
    have hpending := hq.pending_tick_tick env
    have hnil : (tick (fsm T) env (tick (fsm T) env c)).data.queue = [] := by
      rcases hq2.settled with h | ⟨-, h, -⟩
      · exact h
      · simp [hpending] at h
    have haccounts := hq2.accounts
    rw [hnil, List.append_nil, haccepted2, haccepted1] at haccounts
    exact haccounts.symm

/-- An agent that accepts the event 7 and is shut down has processed it when the
drain timer makes it `checkpointed`. -/
theorem agent_fsm_queue_safe_drained :
    ∃ c : AgentConfig ℕ, c.state = .checkpointed ∧ accepted c = [7] ∧ processed c = accepted c := by
  have h0 : Reachable (fsm ℕ) .active Data.init (Config.start .active Data.init) :=
    Relation.ReflTransGen.refl
  have h1 := h0.due ⟨0, .ok⟩ (.call (.queueEvent 7)) (.inr ⟨rfl, trivial, rfl, rfl⟩)
  have h2 := h1.due ⟨0, .ok⟩ .processQueue (.inl rfl)
  have h3 := h2.due ⟨0, .ok⟩ .processQueue (.inl rfl)
  have h4 := h3.due ⟨0, .ok⟩ (.call .shutdown) (.inr ⟨rfl, trivial, rfl, rfl⟩)
  have h5 := h4.due ⟨0, .ok⟩ (.enter .active) (.inl rfl)
  have h6 := h5.due ⟨0, .ok⟩ .processQueue (.inl rfl)
  have h7 := h6.due ⟨0, .ok⟩ .drainTimeout (.inr ⟨rfl, trivial, rfl, rfl⟩)
  exact ⟨_, rfl, rfl, (agent_fsm_queue_safe h7).2.2.2.1 (.inl rfl)⟩

end Agent

end SovereignBus
