import SovereignBus.Agent.Delivery
import SovereignBus.Library.Machine
import SovereignBus.Library.Supervisor

/-!
The agents under `seb/runtime/src/seb_agent_sup.erl`, which starts them as temporary children.

* `SupEvent`, `supStep`: the requests that the supervisor gets, what comes to the agents, and the
  exit signals, in whatever order.
* `terminateAgent`: what `terminate_agent/1` returns, which makes two requests.
* `Unended`: an agent was started, and nothing in the history behind that ends it.
* `agents_run`: which agents a run leaves, and what its callers get.
-/

namespace SovereignBus

namespace Agent

open GenStatem Supervisor

variable {I T F : Type*}

/-! ### The supervisor and its agents -/

variable (T F) in
/-- An agent that `start_link/2` has started. -/
def newAgent : AgentProcess T F := Process.start .active Data.init

/-- A call or a message comes to an agent. As long as there are internal events, it waits. -/
def deliver (env : Env T) (input : Input F (Content T)) (p : AgentProcess T F) :
    AgentProcess T F :=
  match p.pending with
  | [] => handle (sebAgentFsm T F) p env input.type input.content []
  | _ :: _ => p

/-- The agent goes on with an internal event, if there is one. -/
def goOn (env : Env T) (p : AgentProcess T F) : AgentProcess T F :=
  match p.pending with
  | [] => p
  | (type, content) :: rest => handle (sebAgentFsm T F) p env type content rest

/-- The supervisor with the agents it has started. -/
abbrev Agents (I T F : Type*) := Supervised I (AgentProcess T F)

/-- `get_agent_pids/0`. -/
def getAgentPids (s : Agents I T F) : List ℕ := s.children.map Prod.snd

/-- The requests of `spawn_agent/2`, `terminate_agent/1` and `get_agent_pids/0`, what comes to an
agent and its internal events, an end for any other reason, and its exit signal. -/
inductive SupEvent (I T F : Type*) where
  | spawnAgent (id : I)
  | terminateChild (id : I)
  | deleteChild (id : I)
  | getAgentPids
  | input (n : ℕ) (env : Env T) (input : Input F (Content T))
  | goOn (n : ℕ) (env : Env T)
  | exit (n : ℕ)
  | exitArrives (n : ℕ)

inductive SupAnswer where
  | started (r : Started)
  | terminated (r : Terminated)
  | deleted (r : Deleted)
  | pids (pids : List ℕ)
  | none

section Requests

variable [DecidableEq I]

def supStep (s : Agents I T F) : SupEvent I T F → SupAnswer × Agents I T F
  | .spawnAgent id =>
      let r := startChild (newAgent T F) s id
      (.started r.1, r.2)
  | .terminateChild id =>
      let r := terminateChild Process.exit s id
      (.terminated r.1, r.2)
  | .deleteChild id => (.deleted (deleteChild s id), s)
  | .getAgentPids => (.pids (getAgentPids s), s)
  | .input n env input => (.none, advance Process.alive s n (deliver env input))
  | .goOn n env => (.none, advance Process.alive s n (goOn env))
  | .exit n => (.none, advance Process.alive s n Process.exit)
  | .exitArrives n => (.none, exitArrives s n)

/-- `terminate_agent/1`, from the answers to its requests: the child is deleted only if it was
terminated. -/
def terminateAgent (first : Terminated) (second : Deleted) : Deleted :=
  match first with
  | .ok => second
  | .notFound => .notFound

abbrev SupHistory (I T F : Type*) := List (SupEvent I T F × SupAnswer)

/-- A run from the start of the supervisor. -/
abbrev supRun (events : List (SupEvent I T F)) : SupHistory I T F × Agents I T F :=
  Machine.exec supStep .empty events

end Requests

/-- The process that an entry of the history started. -/
def startedPid : SupEvent I T F × SupAnswer → Option ℕ
  | (_, .started (.ok n)) => some n
  | _ => none

/-- What ends the agent `n` with the id `id`: a request to terminate it, and all that comes to
it. -/
def Ends (id : I) (n : ℕ) : SupEvent I T F → Prop
  | .terminateChild id' => id' = id
  | .input m _ _ => m = n
  | .exit m => m = n
  | _ => False

/-- The agent `n` was started under the id `id`, and nothing behind that ends it. -/
def Unended (hist : SupHistory I T F) (id : I) (n : ℕ) : Prop :=
  ∃ before after, hist = before ++ (.spawnAgent id, .started (.ok n)) :: after
    ∧ ∀ e ∈ after, ¬ Ends id n e.1

lemma unended_concat {hist : SupHistory I T F} {x : SupEvent I T F × SupAnswer} {id : I} {n : ℕ} :
    Unended (hist ++ [x]) id n
      ↔ x = (.spawnAgent id, .started (.ok n)) ∨ Unended hist id n ∧ ¬ Ends id n x.1 := by
  constructor
  · rintro ⟨before, after, heq, hafter⟩
    rcases List.eq_nil_or_concat after with rfl | ⟨after', y, rfl⟩
    · exact .inl (List.append_singleton_inj.mp heq).2
    · rw [List.concat_eq_append, ← List.cons_append, ← List.append_assoc] at heq
      obtain ⟨rfl, rfl⟩ := List.append_singleton_inj.mp heq
      refine .inr ⟨⟨before, after', rfl, fun e he => hafter e ?_⟩, hafter x ?_⟩ <;> simp [*]
  · rintro (rfl | ⟨⟨before, after, rfl, hafter⟩, hx⟩)
    · exact ⟨hist, [], rfl, by simp⟩
    · refine ⟨before, after ++ [x], by simp, fun e he => ?_⟩
      rcases List.mem_append.mp he with he | he
      · exact hafter e he
      · rwa [List.mem_singleton.mp he]

/-! ### What a run keeps -/

/-- An agent that has not ended is as it was started: whatever comes to it ends it. -/
lemma deliver_newAgent (env : Env T) (input : Input F (Content T)) :
    deliver env input (newAgent T F) = (newAgent T F).exit := by
  have hnone : (sebAgentFsm T F).react .active env Data.init input.type input.content = none := by
    cases input with
    | call caller content => exact sebAgentFsm_call _ _ _ _ _
    | info content => exact sebAgentFsm_info (by decide) _ _ _
  exact handle_of_none [] hnone

/-- What the history says of the supervisor and its agents. -/
structure SupInv (hist : SupHistory I T F) (s : Agents I T F) : Prop where
  kept : Kept Process.alive s
  settled : ∀ p ∈ s.processes, p = newAgent T F ∨ p = (newAgent T F).exit
  unended : ∀ id n, Unended hist id n ↔ (id, n) ∈ s.children ∧ s.Alive Process.alive n
  pids : hist.filterMap startedPid = List.range s.processes.length

variable {hist : SupHistory I T F} {s : Agents I T F}

lemma SupInv.eq_newAgent (h : SupInv hist s) {p : AgentProcess T F} (hp : p ∈ s.processes)
    (halive : p.alive = true) : p = newAgent T F := by
  rcases h.settled p hp with rfl | rfl
  · rfl
  · exact absurd halive Bool.false_ne_true

/-- An entry that starts no agent ends those of which it is said. -/
lemma SupInv.concat (h : SupInv hist s) {s' : Agents I T F} {x : SupEvent I T F × SupAnswer}
    (hstart : startedPid x = none) (kept : Kept Process.alive s')
    (settled : ∀ p ∈ s'.processes, p = newAgent T F ∨ p = (newAgent T F).exit)
    (hlen : s'.processes.length = s.processes.length)
    (hends : ∀ id n, (id, n) ∈ s'.children ∧ s'.Alive Process.alive n
      ↔ ((id, n) ∈ s.children ∧ s.Alive Process.alive n) ∧ ¬ Ends id n x.1) :
    SupInv (hist ++ [x]) s' where
  kept := kept
  settled := settled
  unended id n := by
    have hne : x ≠ (.spawnAgent id, .started (.ok n)) := by
      rintro rfl
      exact absurd hstart (by simp [startedPid])
    rw [unended_concat, hends, h.unended]
    exact or_iff_right hne
  pids := by rw [List.filterMap_append, h.pids, hlen, List.filterMap_cons_none hstart,
    List.filterMap_nil, List.append_nil]

/-- An entry that only looks. -/
lemma SupInv.look (h : SupInv hist s) {x : SupEvent I T F × SupAnswer}
    (hstart : startedPid x = none) (hends : ∀ id n, ¬ Ends id n x.1) : SupInv (hist ++ [x]) s :=
  h.concat hstart h.kept h.settled rfl fun id n => by simp [hends]

lemma SupInv.ends (h : SupInv hist s) {f : AgentProcess T F → AgentProcess T F}
    (hf : f (newAgent T F) = (newAgent T F).exit) (m : ℕ) :
    ∀ p, s.processes[m]? = some p → p.alive = true → (f p).alive = false := by
  intro p hp halive
  rw [h.eq_newAgent (List.mem_of_getElem? hp) halive, hf]
  rfl

/-- An agent without internal events does not go on by itself. -/
lemma SupInv.advance_goOn (h : SupInv hist s) (m : ℕ) (env : Env T) :
    Supervisor.advance Process.alive s m (goOn env) = s := by
  refine advance_of_stays fun p hp halive => ?_
  rw [h.eq_newAgent (List.mem_of_getElem? hp) halive]
  rfl

/-- An entry that ends an agent. -/
lemma SupInv.advance (h : SupInv hist s) {x : SupEvent I T F × SupAnswer} {m : ℕ}
    {f : AgentProcess T F → AgentProcess T F} (hstart : startedPid x = none)
    (hends : ∀ id n, Ends id n x.1 ↔ m = n) (hf : f (newAgent T F) = (newAgent T F).exit) :
    SupInv (hist ++ [x]) (Supervisor.advance Process.alive s m f) := by
  have hend := h.ends hf m
  refine h.concat hstart (h.kept.advance hend) (fun p hp => ?_) (length_advance ..) fun id n => ?_
  · rcases mem_advance hp with hp | ⟨q, hq, halive, rfl⟩
    · exact h.settled p hp
    · exact .inr (h.eq_newAgent hq halive ▸ hf)
  · rw [advance_children, alive_advance hend, hends, ← and_assoc]
    exact and_congr_right fun _ => ne_comm

lemma SupInv.exitArrives (h : SupInv hist s) (m : ℕ) :
    SupInv (hist ++ [(.exitArrives m, .none)]) (exitArrives s m) := by
  have hkept := h.kept.exitArrives m
  rw [Supervisor.exitArrives] at hkept ⊢
  split_ifs at hkept ⊢ with hexit
  · refine h.concat rfl hkept h.settled rfl fun id n => ?_
    have hdead := (h.kept.ended m hexit).2
    rw [List.mem_filter, decide_eq_true_eq]
    constructor
    · rintro ⟨⟨hmem, -⟩, halive⟩
      exact ⟨⟨hmem, halive⟩, fun hno => hno⟩
    · rintro ⟨⟨hmem, halive⟩, -⟩
      refine ⟨⟨hmem, ?_⟩, halive⟩
      rintro rfl
      exact hdead halive
  · exact h.look rfl fun _ _ => not_false

variable [DecidableEq I]

lemma SupInv.spawnAgent (h : SupInv hist s) (id : I) :
    SupInv (hist ++ [(.spawnAgent id, (supStep s (.spawnAgent id)).1)])
      (supStep s (.spawnAgent id)).2 := by
  have hinit : (newAgent T F).alive = true := rfl
  have hkept := h.kept.startChild hinit id
  rw [supStep]
  cases hfind : s.find id with
  | some pid =>
      rw [startChild_of_some hfind]
      exact h.look rfl fun _ _ => not_false
  | none =>
      rw [startChild_of_none hfind] at hkept ⊢
      refine ⟨hkept, fun p hp => ?_, fun id' n => ?_, ?_⟩
      · rcases List.mem_append.mp hp with hp | hp
        · exact h.settled p hp
        · exact .inl (List.mem_singleton.mp hp)
      · rw [unended_concat, alive_append rfl, h.unended, List.mem_cons]
        have hlt : (id', n) ∈ s.children → n ≠ s.processes.length :=
          fun hmem => (h.kept.lt_length hmem).ne
        simp only [Prod.mk.injEq, SupEvent.spawnAgent.injEq, SupAnswer.started.injEq,
          Started.ok.injEq, Ends, not_false_eq_true, and_true]
        constructor
        · rintro (⟨rfl, rfl⟩ | ⟨hmem, halive⟩)
          · exact ⟨.inl ⟨rfl, rfl⟩, .inr rfl⟩
          · exact ⟨.inr hmem, .inl halive⟩
        · rintro ⟨⟨rfl, rfl⟩ | hmem, halive⟩
          · exact .inl ⟨rfl, rfl⟩
          · exact .inr ⟨hmem, halive.resolve_right (hlt hmem)⟩
      · rw [List.filterMap_append, h.pids, List.length_append, List.length_singleton,
          List.range_succ]
        rfl

lemma SupInv.terminateChild (h : SupInv hist s) (id : I) :
    SupInv (hist ++ [(.terminateChild id, (supStep s (.terminateChild id)).1)])
      (supStep s (.terminateChild id)).2 := by
  have hstop : ∀ p : AgentProcess T F, p.exit.alive = false := fun _ => rfl
  have hkept := h.kept.terminateChild hstop id
  rw [supStep]
  cases hfind : s.find id with
  | none =>
      rw [terminateChild_of_none hfind]
      refine h.concat rfl h.kept h.settled rfl fun id' n => (and_iff_left_of_imp ?_).symm
      rintro ⟨hmem, -⟩ (rfl : id = id')
      exact find_eq_none.mp hfind n hmem
  | some pid =>
      rw [terminateChild_of_some hfind] at hkept ⊢
      have hchild := h.kept.find_eq_some.mp hfind
      refine h.concat rfl hkept (fun p hp => ?_) (List.length_modify ..) fun id' n => ?_
      · obtain ⟨k, hk, rfl⟩ := List.getElem_of_mem hp
        rw [List.getElem_modify]
        have hsettled := h.settled _ (List.getElem_mem (by simpa using hk))
        split_ifs
        · rcases hsettled with heq | heq
          · exact .inr (congrArg Process.exit heq)
          · exact .inr ((congrArg Process.exit heq).trans rfl)
        · exact hsettled
      · rw [alive_modify hstop, List.mem_filter, decide_eq_true_eq]
        constructor
        · rintro ⟨⟨hmem, hid⟩, halive, -⟩
          exact ⟨⟨hmem, halive⟩, fun heq : id = id' => hid heq.symm⟩
        · rintro ⟨⟨hmem, halive⟩, hid⟩
          refine ⟨⟨hmem, fun heq => hid (Eq.symm heq)⟩, halive, ?_⟩
          rintro rfl
          exact hid (h.kept.id_unique hchild hmem)

lemma SupInv.step (h : SupInv hist s) (e : SupEvent I T F) :
    SupInv (hist ++ [(e, (supStep s e).1)]) (supStep s e).2 := by
  cases e with
  | spawnAgent id => exact h.spawnAgent id
  | terminateChild id => exact h.terminateChild id
  | deleteChild id => exact h.look rfl fun _ _ => not_false
  | getAgentPids => exact h.look rfl fun _ _ => not_false
  | input n env input => exact h.advance rfl (fun _ _ => Iff.rfl) (deliver_newAgent env input)
  | goOn n env =>
      rw [supStep, h.advance_goOn]
      exact h.look rfl fun _ _ => not_false
  | exit n => exact h.advance rfl (fun _ _ => Iff.rfl) rfl
  | exitArrives n => exact h.exitArrives n

/-! ### Runs -/

/-- An agent that has ended stays so. -/
lemma SupInv.dead_step (h : SupInv hist s) {n : ℕ} (hlt : n < s.processes.length)
    (hdead : ¬ s.Alive Process.alive n) (e : SupEvent I T F) :
    n < (supStep s e).2.processes.length ∧ ¬ (supStep s e).2.Alive Process.alive n := by
  cases e with
  | spawnAgent id =>
      rw [supStep]
      cases hfind : s.find id with
      | some pid => exact startChild_of_some hfind ▸ ⟨hlt, hdead⟩
      | none =>
          rw [startChild_of_none hfind, List.length_append, alive_append rfl]
          exact ⟨by omega, fun hor => hor.elim hdead hlt.ne⟩
  | terminateChild id =>
      rw [supStep]
      cases hfind : s.find id with
      | none => exact terminateChild_of_none hfind ▸ ⟨hlt, hdead⟩
      | some pid =>
          rw [terminateChild_of_some hfind, List.length_modify, alive_modify fun _ => rfl]
          exact ⟨hlt, fun hand => hdead hand.1⟩
  | deleteChild id => exact ⟨hlt, hdead⟩
  | getAgentPids => exact ⟨hlt, hdead⟩
  | input m env input =>
      rw [supStep, length_advance, alive_advance (h.ends (deliver_newAgent env input) m)]
      exact ⟨hlt, fun hand => hdead hand.1⟩
  | goOn m env =>
      rw [supStep, h.advance_goOn]
      exact ⟨hlt, hdead⟩
  | exit m =>
      rw [supStep, length_advance, alive_advance (h.ends rfl m)]
      exact ⟨hlt, fun hand => hdead hand.1⟩
  | exitArrives m =>
      rw [supStep, Supervisor.exitArrives]
      split_ifs <;> exact ⟨hlt, hdead⟩

/-- Only the start of an agent makes a child. -/
lemma mem_children_supStep {id : I} {n : ℕ} {e : SupEvent I T F}
    (hmem : (id, n) ∈ (supStep s e).2.children) :
    (id, n) ∈ s.children ∨ (e, (supStep s e).1) = (.spawnAgent id, .started (.ok n)) := by
  cases e with
  | spawnAgent id' =>
      rw [supStep] at hmem ⊢
      cases hfind : s.find id' with
      | some pid =>
          rw [startChild_of_some hfind] at hmem
          exact .inl hmem
      | none =>
          rw [startChild_of_none hfind] at hmem ⊢
          rcases List.mem_cons.mp hmem with heq | hmem
          · obtain ⟨rfl, rfl⟩ := Prod.mk.inj heq
            exact .inr rfl
          · exact .inl hmem
  | terminateChild id' =>
      rw [supStep] at hmem
      cases hfind : s.find id' with
      | none =>
          rw [terminateChild_of_none hfind] at hmem
          exact .inl hmem
      | some pid =>
          rw [terminateChild_of_some hfind] at hmem
          exact .inl (List.mem_of_mem_filter hmem)
  | deleteChild id' => exact .inl hmem
  | getAgentPids => exact .inl hmem
  | input m env input => exact .inl (advance_children s m _ ▸ hmem)
  | goOn m env => exact .inl (advance_children s m _ ▸ hmem)
  | exit m => exact .inl (advance_children s m _ ▸ hmem)
  | exitArrives m =>
      rw [supStep, exitArrives] at hmem
      split_ifs at hmem
      · exact .inl (List.mem_of_mem_filter hmem)
      · exact .inl hmem

lemma supInv_run (events : List (SupEvent I T F)) :
    SupInv (supRun events).1 (supRun events).2 := by
  refine Machine.exec_induction supStep (C := fun _ => True)
    (P := fun hist s => SupInv hist s) ?_
    (fun _ _ e _ h => SupInv.step h e) events fun _ _ => trivial
  refine ⟨Kept.empty, fun p hp => absurd hp List.not_mem_nil, fun id n => ⟨?_, ?_⟩, rfl⟩
  · rintro ⟨before, after, heq, -⟩
    exact absurd heq (by simp)
  · rintro ⟨hmem, -⟩
    exact absurd hmem List.not_mem_nil

/-- A run has started the children that were not there before it. -/
lemma spawned_of_mem_children {id : I} (hnone : ∀ n, (id, n) ∉ s.children)
    (events : List (SupEvent I T F)) {n : ℕ}
    (hmem : (id, n) ∈ (Machine.exec supStep s events).2.children) :
    ∃ n, (.spawnAgent id, .started (.ok n)) ∈ (Machine.exec supStep s events).1 := by
  have hrun := Machine.exec_induction supStep (C := fun _ => True)
    (P := fun hist s => ∀ n, (id, n) ∈ s.children →
      ∃ n, (.spawnAgent id, .started (.ok n)) ∈ hist)
    (fun n hmem => absurd hmem (hnone n))
    (fun hist s e _ ih n hmem => by
      rcases mem_children_supStep hmem with hmem | heq
      · obtain ⟨m, hm⟩ := ih n hmem
        exact ⟨m, List.mem_append_left _ hm⟩
      · exact ⟨n, List.mem_append_right _ (List.mem_singleton.mpr heq.symm)⟩)
    events fun _ _ => trivial
  exact hrun n hmem

lemma SupInv.dead_run (h : SupInv hist s) {n : ℕ} (hlt : n < s.processes.length)
    (hdead : ¬ s.Alive Process.alive n) (events : List (SupEvent I T F)) :
    ¬ (Machine.exec supStep s events).2.Alive Process.alive n := by
  -- what the agents are tells that whatever comes to one ends it
  have hrun := Machine.exec_induction supStep (C := fun _ => True)
    (P := fun hist s => (∃ before, SupInv (before ++ hist) s) ∧ n < s.processes.length
      ∧ ¬ s.Alive Process.alive n)
    ⟨⟨hist, (List.append_nil hist).symm ▸ h⟩, hlt, hdead⟩
    (fun hist s e _ ih => by
      obtain ⟨⟨before, hinv⟩, hlt, hdead⟩ := ih
      refine ⟨⟨before, ?_⟩, hinv.dead_step hlt hdead e⟩
      rw [← List.append_assoc]
      exact hinv.step e)
    events fun _ _ => trivial
  exact hrun.2.2

/-- The state in which the second request of `terminate_agent/1` finds the supervisor, if
`between` comes in between. -/
abbrev afterTerminate (events : List (SupEvent I T F)) (id : I)
    (between : List (SupEvent I T F)) : SupHistory I T F × Agents I T F :=
  Machine.exec supStep (supStep (supRun events).2 (.terminateChild id)).2 between

/-- What `terminate_agent/1` does behind a run: it never returns `ok`, and `{error, running}` only
if an agent has been started under the id between its requests, but the agent it was called for
has ended. -/
structure TerminateAgent (events : List (SupEvent I T F)) (id : I)
    (between : List (SupEvent I T F)) : Prop where
  answer :
    let answer := terminateAgent (terminateChild Process.exit (supRun events).2 id).1
      (deleteChild (afterTerminate events id between).2 id)
    answer = .notFound ∨ answer = .running
      ∧ ∃ n, (.spawnAgent id, .started (.ok n)) ∈ (afterTerminate events id between).1
  ended : ∀ n, (id, n) ∈ (supRun events).2.children →
    ¬ (afterTerminate events id between).2.Alive Process.alive n

/-- What a run leaves. Every process is one that `spawn_agent/2` has started, and none is started
again. Those agents live that nothing has come to, no call has been answered, and
`get_agent_pids/0` lists the agents that live and some whose exit signal is on its way. -/
structure AgentsRun (events : List (SupEvent I T F)) : Prop where
  started : (supRun events).1.filterMap startedPid
    = List.range (supRun events).2.processes.length
  alive : ∀ n, (supRun events).2.Alive Process.alive n ↔ ∃ id, Unended (supRun events).1 id n
  unanswered : ∀ p ∈ (supRun events).2.processes, p.replies = []
  nodup : (getAgentPids (supRun events).2).Nodup
  complete : ∀ n, (supRun events).2.Alive Process.alive n → n ∈ getAgentPids (supRun events).2
  noticed : ∀ n ∈ getAgentPids (supRun events).2,
    (supRun events).2.Alive Process.alive n ∨ n ∈ (supRun events).2.exits

lemma agentsRun (events : List (SupEvent I T F)) : AgentsRun events := by
  have h := supInv_run events
  refine ⟨h.pids, fun n => ⟨fun halive => ?_, ?_⟩, fun p hp => ?_, h.kept.pids,
    fun n halive => ?_, fun n hn => ?_⟩
  · obtain ⟨id, hmem⟩ := h.kept.known n halive
    exact ⟨id, (h.unended id n).mpr ⟨hmem, halive⟩⟩
  · rintro ⟨id, hunended⟩
    exact ((h.unended id n).mp hunended).2
  · rcases h.settled p hp with rfl | rfl <;> rfl
  · obtain ⟨id, hmem⟩ := h.kept.known n halive
    exact List.mem_map_of_mem hmem
  · obtain ⟨⟨id, _⟩, hmem, rfl⟩ := List.mem_map.mp hn
    exact h.kept.noticed id _ hmem

/-- The request leaves no child with the id. -/
lemma not_mem_children_terminateChild (id : I) (n : ℕ) :
    (id, n) ∉ (supStep s (.terminateChild id)).2.children := by
  rw [supStep]
  cases hfind : s.find id with
  | none => exact terminateChild_of_none hfind ▸ find_eq_none.mp hfind n
  | some pid =>
      rw [terminateChild_of_some hfind]
      intro hmem
      exact of_decide_eq_true (List.mem_filter.mp hmem).2 rfl

/-- The request ends the agent with the id. -/
lemma SupInv.dead_terminateChild (h : SupInv hist s) {id : I} {n : ℕ}
    (hmem : (id, n) ∈ s.children) :
    n < (supStep s (.terminateChild id)).2.processes.length
      ∧ ¬ (supStep s (.terminateChild id)).2.Alive Process.alive n := by
  rw [supStep, terminateChild_of_some (h.kept.find_eq_some.mpr hmem), List.length_modify,
    alive_modify fun _ => rfl]
  exact ⟨h.kept.lt_length hmem, fun hand => hand.2 rfl⟩

lemma terminateAgent_run (events : List (SupEvent I T F)) (id : I)
    (between : List (SupEvent I T F)) : TerminateAgent events id between := by
  have h := supInv_run events
  constructor
  · intro answer
    cases hfirst : (terminateChild Process.exit (supRun events).2 id).1 with
    | notFound => exact .inl (by simp only [answer, hfirst, terminateAgent])
    | ok =>
        cases hfind : (afterTerminate events id between).2.find id with
        | none => exact .inl (by simp only [answer, hfirst, terminateAgent, deleteChild, hfind])
        | some pid =>
            refine .inr ⟨by simp only [answer, hfirst, terminateAgent, deleteChild, hfind], ?_⟩
            exact spawned_of_mem_children (not_mem_children_terminateChild id) between
              (mem_children_of_find hfind)
  · intro n hmem
    obtain ⟨hlt, hdead⟩ := h.dead_terminateChild hmem
    exact (h.step (.terminateChild id)).dead_run hlt hdead between

/-- The agents under their supervisor, whatever requests, calls, messages, ends and exit signals
come in, and in whatever order. -/
theorem agents_run (events : List (SupEvent I T F)) :
    AgentsRun events ∧ ∀ id between, TerminateAgent events id between :=
  ⟨agentsRun events, terminateAgent_run events⟩

end Agent

end SovereignBus
