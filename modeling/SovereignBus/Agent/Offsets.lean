import SovereignBus.Agent.Fsm

/-!
The offsets of the agent of `seb/runtime/src/seb_agent_fsm.erl`.

* `commits`: the offset that a clause hands to `seb_kernel_nif:commit_offset` and
  that the kernel accepts.
* `agent_checkpoints_drained`: what an agent that is `checkpointed` has behind it.
* `agent_offsets_monotone_iff`: when the committed offsets never go back.
-/

namespace SovereignBus

namespace Agent

open Statem

variable {T : Type*}

abbrev AgentRound (T : Type*) := Round State (Data T) (Event T) (Answer T) T (Env T)

/-- A run of a new agent. -/
abbrev AgentRun (rounds : List (AgentRound T)) (c : AgentConfig T) : Prop :=
  Run (fsm T) (Config.start .active Data.init) rounds c

/-- The offset that is handed to the kernel and accepted, if one is: the clauses of
`active` and of `draining` commit. -/
def commits (s : State) (env : Env T) (ev : Event T) : Option ℕ :=
  match s, ev, env.nif with
  | .active, .call (.commitOffset offset), .ok => some offset
  | .draining, .call (.commitOffset offset), .ok => some offset
  | _, _, _ => none

/-- The offset that a round commits. -/
def committed (round : AgentRound T) : Option ℕ :=
  commits round.before.state round.outcomes round.event

/-- The offsets that the kernel accepted, in order. -/
def acceptedOffsets (rounds : List (AgentRound T)) : List ℕ := rounds.filterMap committed

/-- The values of `current_offset`, in order. -/
def offsets (rounds : List (AgentRound T)) (c : AgentConfig T) : List ℕ :=
  rounds.map (fun round => round.before.data.currentOffset) ++ [c.data.currentOffset]

/-! ### One event -/

variable {s : State} {env : Env T} {data : Data T} {ev : Event T} {r : AgentReaction T}

/-- The changes of state that the clauses make. -/
inductive Moves (env : Env T) (ev : Event T) : State → State → Prop
  | drain : Moves env ev .active .draining
  | commit {offset : ℕ} (h : commits .draining env ev = some offset) :
      Moves env ev .draining .checkpointed
  | timeout (h : ev = .drainTimeout) : Moves env ev .draining .checkpointed
  | stop : Moves env ev .checkpointed .stopped

/-- What a clause makes of `current_offset` and of the state: the offset becomes
what is committed, and stays as it is otherwise. -/
structure Advances (s : State) (env : Env T) (data : Data T) (ev : Event T)
    (r : AgentReaction T) : Prop where
  offset : r.data.currentOffset = (commits s env ev).getD data.currentOffset
  moves : ∀ t, r.next = some t → Moves env ev s t

/-- A clause that stays in its state and commits nothing. -/
lemma advances_stay (hnext : r.next = none) (hoffset : r.data.currentOffset = data.currentOffset)
    (hcommits : commits s env ev = none) : Advances s env data ev r :=
  ⟨by rw [hcommits, Option.getD_none, hoffset], by simp [hnext]⟩

lemma active_advances (h : active env data ev = some r) : Advances .active env data ev r := by
  cases ev with
  | call request =>
      cases request with
      | shutdown =>
          obtain rfl := Option.some.inj h
          refine ⟨rfl, fun t ht => ?_⟩
          obtain rfl := Option.some.inj ht
          exact .drain
      | queueEvent event =>
          rw [active] at h
          split_ifs at h <;> obtain rfl := Option.some.inj h <;> exact advances_stay rfl rfl rfl
      | commitOffset offset =>
          rw [active] at h
          cases hnif : env.nif with
          | ok =>
              rw [hnif] at h
              obtain rfl := Option.some.inj h
              exact ⟨by simp [commits, hnif, keep], by simp [keep]⟩
          | returned _ | raised _ =>
              rw [hnif] at h
              obtain rfl := Option.some.inj h
              exact advances_stay rfl rfl (by simp [commits, hnif])
      | getState =>
          obtain rfl := Option.some.inj h
          exact advances_stay rfl rfl rfl
  | processQueue =>
      cases hqueue : data.queue with
      | nil =>
          simp only [active, hqueue] at h
          obtain rfl := Option.some.inj h
          exact advances_stay rfl rfl rfl
      | cons event queue =>
          simp only [active, hqueue, processHead_eq] at h
          obtain rfl := Option.some.inj h
          exact advances_stay rfl rfl rfl
  | drainTimeout => simp [active] at h
  | enter prev => simp [active] at h

lemma draining_advances (h : draining env data ev = some r) :
    Advances .draining env data ev r := by
  cases ev with
  | call request =>
      cases request with
      | shutdown =>
          obtain rfl := Option.some.inj h
          exact advances_stay rfl rfl rfl
      | queueEvent event =>
          obtain rfl := Option.some.inj h
          exact advances_stay rfl rfl rfl
      | commitOffset offset =>
          rw [draining] at h
          cases hnif : env.nif with
          | ok =>
              have hcommits :
                  commits .draining env (.call (.commitOffset offset)) = some offset := by
                simp [commits, hnif]
              simp only [hnif, commitToKernel] at h
              split_ifs at h
              · obtain rfl := Option.some.inj h
                refine ⟨by rw [hcommits, Option.getD_some], fun t ht => ?_⟩
                obtain rfl := Option.some.inj ht
                exact .commit hcommits
              · obtain rfl := Option.some.inj h
                exact ⟨by rw [hcommits, Option.getD_some]; rfl, by simp [keep]⟩
          | returned _ | raised _ =>
              rw [hnif] at h
              obtain rfl := Option.some.inj h
              exact advances_stay rfl rfl (by simp [commits, hnif])
      | getState =>
          obtain rfl := Option.some.inj h
          exact advances_stay rfl rfl rfl
  | processQueue =>
      cases hqueue : data.queue with
      | nil =>
          simp only [draining, hqueue] at h
          split_ifs at h <;> obtain rfl := Option.some.inj h <;> exact advances_stay rfl rfl rfl
      | cons event queue =>
          simp only [draining, hqueue, processHead_eq] at h
          obtain rfl := Option.some.inj h
          exact advances_stay rfl rfl rfl
  | drainTimeout =>
      obtain rfl := Option.some.inj h
      refine ⟨rfl, fun t ht => ?_⟩
      obtain rfl := Option.some.inj ht
      exact .timeout rfl
  | enter prev =>
      obtain rfl := Option.some.inj h
      exact advances_stay rfl rfl rfl

lemma checkpointed_advances (h : checkpointed data ev = some r) :
    Advances .checkpointed env data ev r := by
  cases ev with
  | call request =>
      cases request <;> obtain rfl := Option.some.inj h <;> exact advances_stay rfl rfl rfl
  | enter prev =>
      obtain rfl := Option.some.inj h
      refine ⟨rfl, fun t ht => ?_⟩
      obtain rfl := Option.some.inj ht
      exact .stop
  | drainTimeout => simp [checkpointed] at h
  | processQueue => simp [checkpointed] at h

lemma stopped_advances (h : stopped data ev = some r) : Advances .stopped env data ev r := by
  cases ev with
  | call request =>
      cases request <;> obtain rfl := Option.some.inj h <;> exact advances_stay rfl rfl rfl
  | drainTimeout => simp [stopped] at h
  | processQueue => simp [stopped] at h
  | enter prev => simp [stopped] at h

lemma react_advances (h : (fsm T).react s env data ev = some r) : Advances s env data ev r := by
  cases s with
  | active => exact active_advances h
  | draining => exact draining_advances h
  | checkpointed => exact checkpointed_advances h
  | stopped => exact stopped_advances h

/-! ### The way to `checkpointed` -/

variable {c : AgentConfig T} {rounds : List (AgentRound T)}

/-- A round that can make a draining agent `checkpointed`: the kernel accepts an
offset, or the message of the drain timer comes. -/
def Checkpoints (round : AgentRound T) : Prop :=
  round.before.state = .draining
    ∧ ((committed round).isSome = true ∨ round.event = .drainTimeout)

lemma exists_checkpoints (h : AgentRun rounds c)
    (hstate : c.state = .checkpointed ∨ c.state = .stopped) :
    ∃ round ∈ rounds, Checkpoints round := by
  induction h with
  | nil => simp [Config.start] at hstate
  | @concat rounds c hrun env ev rest hdue ih =>
      have hbefore : c.state = .checkpointed ∨ c.state = .stopped →
          ∃ round ∈ rounds ++ [⟨c, env, ev⟩], Checkpoints round := by
        intro hc
        obtain ⟨round, hmem, hround⟩ := ih hc
        exact ⟨round, List.mem_append_left _ hmem, hround⟩
      cases hr : (fsm T).react c.state env c.data ev with
      | none =>
          rw [handle_of_none rest hr] at hstate
          exact hbefore hstate
      | some r =>
          rw [handle_of_some rest hr] at hstate
          cases hnext : r.next with
          | none =>
              rw [hnext] at hstate
              exact hbefore hstate
          | some t =>
              rw [hnext, Option.getD_some] at hstate
              have hmoves := (react_advances hr).moves t hnext
              generalize hs : c.state = s at hmoves
              cases hmoves with
              | drain => simp at hstate
              | commit hcommits =>
                  refine ⟨⟨c, env, ev⟩, by simp, hs, .inl ?_⟩
                  rw [committed, hs, hcommits, Option.isSome_some]
              | timeout hev => exact ⟨⟨c, env, ev⟩, by simp, hs, .inr hev⟩
              | stop => exact hbefore (.inl hs)

/-- An agent that is `checkpointed` or `stopped` has an empty queue, and while it
drained the kernel accepted an offset or the drain timer fired. -/
theorem agent_checkpoints_drained (h : AgentRun rounds c)
    (hstate : c.state = .checkpointed ∨ c.state = .stopped) :
    c.data.queue = [] ∧ ∃ round ∈ rounds, Checkpoints round := by
  refine ⟨?_, exists_checkpoints h hstate⟩
  rcases (quiet_of_reachable h.reachable).settled with hnil | ⟨hactive, -, -⟩
  · exact hnil
  · rcases hstate with hs | hs <;> simp [hactive] at hs

/-- A draining agent whose offset 5 the kernel accepts. -/
theorem agent_checkpoints_drained_commit :
    ∃ (c : AgentConfig ℕ) (rounds : List (AgentRound ℕ)), c.state = .checkpointed
      ∧ c.data.queue = [] ∧ ∃ round ∈ rounds, Checkpoints round := by
  have h0 : AgentRun [] (Config.start .active (Data.init : Data ℕ)) := .nil
  have h1 := h0.concat ⟨0, .ok⟩ (.call .shutdown) (.inr ⟨rfl, trivial, rfl, rfl⟩)
  have h2 := h1.concat ⟨0, .ok⟩ (.enter .active) (.inl rfl)
  have h3 := h2.concat ⟨0, .ok⟩ .processQueue (.inl rfl)
  have h4 := h3.concat ⟨0, .ok⟩ (.call (.commitOffset 5)) (.inr ⟨rfl, trivial, rfl, rfl⟩)
  exact ⟨_, _, rfl, agent_checkpoints_drained h4 (.inl rfl)⟩

/-- The drain timer alone makes an agent `checkpointed` that never committed. -/
theorem agent_checkpointed_uncommitted :
    ¬ ∀ (c : AgentConfig ℕ) (rounds : List (AgentRound ℕ)), AgentRun rounds c →
      c.state = .checkpointed ∨ c.state = .stopped →
        c.data.queue = [] ∧ ∃ round ∈ rounds,
          round.before.state = .draining ∧ (committed round).isSome = true := by
  intro hguard
  have h0 : AgentRun [] (Config.start .active (Data.init : Data ℕ)) := .nil
  have h1 := h0.concat ⟨0, .ok⟩ (.call .shutdown) (.inr ⟨rfl, trivial, rfl, rfl⟩)
  have h2 := h1.concat ⟨0, .ok⟩ (.enter .active) (.inl rfl)
  have h3 := h2.concat ⟨0, .ok⟩ .processQueue (.inl rfl)
  have h4 := h3.concat ⟨30000, .ok⟩ .drainTimeout (.inr ⟨rfl, trivial, rfl, rfl⟩)
  obtain ⟨-, round, hmem, -, hcommitted⟩ := hguard _ _ h4 (.inl rfl)
  simp only [List.nil_append, List.cons_append, List.mem_cons, List.not_mem_nil, or_false] at hmem
  rcases hmem with rfl | rfl | rfl | rfl <;> exact absurd hcommitted (by decide)

/-! ### Offsets never go back -/

/-- A round that commits commits no offset below the current one. -/
def Forward (round : AgentRound T) : Prop :=
  ∀ offset, committed round = some offset → round.before.data.currentOffset ≤ offset

/-- An event without a clause commits nothing. -/
lemma commits_of_none (h : (fsm T).react s env data ev = none) : commits s env ev = none := by
  unfold commits
  split
  · next hev hnif => simp [fsm, active, hnif, commitToKernel] at h
  · next hev hnif =>
      simp only [fsm, draining, hnif, commitToKernel] at h
      split_ifs at h
  · rfl

/-- One event moves `current_offset` to what it commits. -/
lemma handle_currentOffset (c : AgentConfig T) (env : Env T) (ev : Event T)
    (rest : List (Event T)) :
    (handle (fsm T) c env ev rest).data.currentOffset
      = (committed ⟨c, env, ev⟩).getD c.data.currentOffset := by
  cases hr : (fsm T).react c.state env c.data ev with
  | none => rw [handle_of_none rest hr, committed, commits_of_none hr, Option.getD_none]
  | some r =>
      rw [handle_of_some rest hr]
      exact (react_advances hr).offset

lemma offsets_concat (c c' : AgentConfig T) (env : Env T) (ev : Event T) :
    offsets (rounds ++ [⟨c, env, ev⟩]) c' = offsets rounds c ++ [c'.data.currentOffset] := by
  simp [offsets]

/-- The values of `current_offset` go up exactly on the rounds that commit forward. -/
lemma isChain_offsets_iff (h : AgentRun rounds c) :
    (offsets rounds c).IsChain (· ≤ ·) ↔ ∀ round ∈ rounds, Forward round := by
  induction h with
  | nil => simp [offsets]
  | @concat rounds c hrun env ev rest hdue ih =>
      have hlast : c.data.currentOffset ≤ (committed ⟨c, env, ev⟩).getD c.data.currentOffset
          ↔ Forward ⟨c, env, ev⟩ := by
        rw [Forward]
        cases committed (⟨c, env, ev⟩ : AgentRound T) <;> simp
      rw [offsets_concat, handle_currentOffset, List.isChain_append, ih]
      simp [offsets, hlast, or_imp, forall_and]

/-- On such rounds the accepted offsets go up to the current one. -/
lemma pairwise_acceptedOffsets (h : AgentRun rounds c)
    (hforward : ∀ round ∈ rounds, Forward round) :
    (acceptedOffsets rounds).Pairwise (· ≤ ·)
      ∧ ∀ offset ∈ acceptedOffsets rounds, offset ≤ c.data.currentOffset := by
  induction h with
  | nil => simp [acceptedOffsets]
  | @concat rounds c hrun env ev rest hdue ih =>
      obtain ⟨hpairwise, hle⟩ := ih fun round hmem => hforward round (List.mem_append_left _ hmem)
      have hlast := hforward ⟨c, env, ev⟩ (by simp)
      rw [acceptedOffsets, List.filterMap_append, ← acceptedOffsets, handle_currentOffset]
      cases hcommitted : committed (⟨c, env, ev⟩ : AgentRound T) with
      | none => simpa [hcommitted] using ⟨hpairwise, hle⟩
      | some offset =>
          have hup : ∀ o ∈ acceptedOffsets rounds, o ≤ offset :=
            fun o ho => (hle o ho).trans (hlast offset hcommitted)
          simp only [List.filterMap_cons, hcommitted, List.filterMap_nil, Option.getD_some]
          refine ⟨List.pairwise_append.mpr ⟨hpairwise, List.pairwise_singleton _ _, ?_⟩, ?_⟩
          · simpa using hup
          · intro o ho
            rcases List.mem_append.mp ho with ho | ho
            · exact hup o ho
            · exact (List.mem_singleton.mp ho).le

/-- The values of `current_offset` and the offsets that the kernel accepts never go
back, exactly in the runs in which no offset below the current one is committed. -/
theorem agent_offsets_monotone_iff (h : AgentRun rounds c) :
    ((offsets rounds c).Pairwise (· ≤ ·) ∧ (acceptedOffsets rounds).Pairwise (· ≤ ·))
      ↔ ∀ round ∈ rounds, Forward round := by
  rw [← List.isChain_iff_pairwise]
  refine ⟨fun hmono => (isChain_offsets_iff h).mp hmono.1, fun hforward => ⟨?_, ?_⟩⟩
  · exact (isChain_offsets_iff h).mpr hforward
  · exact (pairwise_acceptedOffsets h hforward).1

/-- Commits of 100 and then of 120 go forward. -/
theorem agent_offsets_monotone_iff_forward :
    ∃ (c : AgentConfig ℕ) (rounds : List (AgentRound ℕ)), acceptedOffsets rounds = [100, 120]
      ∧ (offsets rounds c).Pairwise (· ≤ ·) := by
  have h0 : AgentRun [] (Config.start .active (Data.init : Data ℕ)) := .nil
  have h1 := h0.concat ⟨0, .ok⟩ (.call (.commitOffset 100)) (.inr ⟨rfl, trivial, rfl, rfl⟩)
  have h2 := h1.concat ⟨0, .ok⟩ (.call (.commitOffset 120)) (.inr ⟨rfl, trivial, rfl, rfl⟩)
  refine ⟨_, _, rfl, ((agent_offsets_monotone_iff h2).mpr ?_).1⟩
  intro round hmem offset hcommitted
  simp only [List.nil_append, List.cons_append, List.mem_cons, List.not_mem_nil, or_false] at hmem
  rcases hmem with rfl | rfl
  · exact Nat.zero_le _
  · obtain rfl := Option.some.inj hcommitted
    show 100 ≤ 120
    omega

/-- The kernel accepts 100 and then 50, and `current_offset` goes back. -/
theorem agent_offset_goes_back :
    ¬ ∀ (c : AgentConfig ℕ) (rounds : List (AgentRound ℕ)), AgentRun rounds c →
      (offsets rounds c).Pairwise (· ≤ ·) ∧ (acceptedOffsets rounds).Pairwise (· ≤ ·) := by
  intro hmono
  have h0 : AgentRun [] (Config.start .active (Data.init : Data ℕ)) := .nil
  have h1 := h0.concat ⟨0, .ok⟩ (.call (.commitOffset 100)) (.inr ⟨rfl, trivial, rfl, rfl⟩)
  have h2 := h1.concat ⟨0, .ok⟩ (.call (.commitOffset 50)) (.inr ⟨rfl, trivial, rfl, rfl⟩)
  obtain ⟨-, haccepted⟩ := hmono _ _ h2
  have hback : [100, 50].Pairwise (· ≤ ·) := haccepted
  simp at hback

end Agent

end SovereignBus
