import SovereignBus.Library.Index

/-!
The streams of reasoning events, of `seb/reasoning/src/a2a_protocol.rs` and `streaming.rs`.

* `ReasoningPartition.path`, `fromPath`: a stream and its path.
* `A2AProtocolHandler`, `ReasoningStreamManager`: the log of an agent and the buffers of all
  streams, over a `Serde` that stands for serde_json and blake3.
* `Partitioned`: paths stand for one stream each, and what is read from a stream is what was
  emitted to it. `partitioned_iff` says for which agent ids this is so.
-/

namespace SovereignBus

namespace Reasoning

/-- `String`. -/
abbrev Text := List Char

/-! ### Partitions -/

inductive ReasoningEventType where
  | traceStart
  | step
  | traceComplete
  | challenge
  | composition
  | query
  | response
deriving DecidableEq

/-- `as_u16`. -/
def ReasoningEventType.asU16 : ReasoningEventType → UInt16
  | .traceStart => 0x0300
  | .step => 0x0301
  | .traceComplete => 0x0302
  | .challenge => 0x0303
  | .composition => 0x0304
  | .query => 0x0305
  | .response => 0x0306

inductive ReasoningPartition where
  | agentTraces (agentId : Text)
  | challenges
  | compositions
  | queries
deriving DecidableEq

def reasoning : Text := "reasoning/".toList

/-- `path`. -/
def ReasoningPartition.path : ReasoningPartition → Text
  | .agentTraces agentId => reasoning ++ agentId
  | .challenges => "reasoning/challenges".toList
  | .compositions => "reasoning/compositions".toList
  | .queries => "reasoning/queries".toList

/-- `str::strip_prefix`. -/
def stripPrefix (pat s : Text) : Option Text :=
  if pat <+: s then some (s.drop pat.length) else none

/-- `from_path`. -/
def ReasoningPartition.fromPath (path : Text) : Option ReasoningPartition :=
  if path = "reasoning/challenges".toList then some .challenges
  else if path = "reasoning/compositions".toList then some .compositions
  else if path = "reasoning/queries".toList then some .queries
  else if reasoning <+: path then
    (stripPrefix reasoning path).bind fun agentId =>
      if agentId ≠ [] ∧ agentId ≠ "challenges".toList ∧ agentId ≠ "compositions".toList
          ∧ agentId ≠ "queries".toList then
        some (.agentTraces agentId)
      else none
  else none

/-! ### Events -/

structure TraceStartPayload where
  traceId : Text
  agentId : Text
  competency : Text
  query : Option Text

structure StepPayload (Value : Type) where
  traceId : Text
  stepIndex : ℕ
  stepJson : Value
  stepHash : Text

structure TraceCompletePayload (Float : Type) where
  traceId : Text
  durationMs : UInt64
  stepCount : ℕ
  confidence : Option Float

structure ChallengePayload where
  challengeTraceId : Text
  targetTraceId : Text
  targetStepIndex : Option ℕ
  counterEvidence : Text

structure CompositionPayload where
  compositionTraceId : Text
  subTraceIds : List Text
  compositionRule : Text

/-- What the events use of serde_json and blake3. -/
structure Serde where
  Value : Type
  Float : Type
  /-- `json!({})`. -/
  empty : Value
  /-- `to_value`, or the null value. -/
  traceStart : TraceStartPayload → Value
  step : StepPayload Value → Value
  traceComplete : TraceCompletePayload Float → Value
  challenge : ChallengePayload → Value
  composition : CompositionPayload → Value
  /-- The hash of the text of a value. -/
  hash : Value → Text

structure A2AReasoningEvent (s : Serde) where
  eventType : UInt16
  timestamp : ℤ
  partition : Text
  payload : s.Value

variable (s : Serde)

namespace A2AReasoningEvent

/-- `new`. -/
def new (eventType : ReasoningEventType) (partition : ReasoningPartition) (now : ℤ) :
    A2AReasoningEvent s :=
  ⟨eventType.asU16, now, partition.path, s.empty⟩

def withTraceStart (agentId competency traceId : Text) (query : Option Text) (now : ℤ) :
    A2AReasoningEvent s :=
  { new s .traceStart (.agentTraces agentId) now with
    payload := s.traceStart ⟨traceId, agentId, competency, query⟩ }

/-- `with_step`, which broadcasts on the stream of queries. -/
def withStep (traceId : Text) (stepIndex : ℕ) (stepJson : s.Value) (now : ℤ) :
    A2AReasoningEvent s :=
  { new s .step .queries now with
    payload := s.step ⟨traceId, stepIndex, stepJson, s.hash stepJson⟩ }

/-- The completion of a trace, as `emit_trace_complete` makes it. -/
def withTraceComplete (agentId traceId : Text) (durationMs : UInt64) (stepCount : ℕ)
    (confidence : Option s.Float) (now : ℤ) : A2AReasoningEvent s :=
  { new s .traceComplete (.agentTraces agentId) now with
    payload := s.traceComplete ⟨traceId, durationMs, stepCount, confidence⟩ }

/-- `with_challenge`, with the fresh `uuid`. -/
def withChallenge (uuid targetTraceId counterEvidence : Text) (targetStepIndex : Option ℕ)
    (now : ℤ) : A2AReasoningEvent s :=
  { new s .challenge .challenges now with
    payload := s.challenge ⟨uuid, targetTraceId, targetStepIndex, counterEvidence⟩ }

def withComposition (compositionTraceId : Text) (subTraceIds : List Text)
    (compositionRule : Text) (now : ℤ) : A2AReasoningEvent s :=
  { new s .composition .compositions now with
    payload := s.composition ⟨compositionTraceId, subTraceIds, compositionRule⟩ }

end A2AReasoningEvent

/-- An event with the stream it was made for. -/
structure Emission where
  partition : ReasoningPartition
  event : A2AReasoningEvent s
  path : event.partition = partition.path

variable {s}

/-- The events of a run that were emitted to a stream. -/
def emitted (es : List (Emission s)) (p : ReasoningPartition) : List (A2AReasoningEvent s) :=
  (es.filter fun e => e.partition = p).map Emission.event

/-! ### The log of an agent -/

variable (s) in
structure A2AProtocolHandler where
  agentId : Text
  eventLog : List (A2AReasoningEvent s)

/-- The calls that emit, each with its reading of the clock. -/
inductive Emit (s : Serde) where
  | traceStart (competency traceId : Text) (query : Option Text) (now : ℤ)
  | step (traceId : Text) (stepIndex : ℕ) (stepJson : s.Value) (now : ℤ)
  | traceComplete (traceId : Text) (durationMs : UInt64) (stepCount : ℕ)
      (confidence : Option s.Float) (now : ℤ)
  | challenge (uuid targetTraceId counterEvidence : Text) (targetStepIndex : Option ℕ) (now : ℤ)
  | composition (compositionTraceId : Text) (subTraceIds : List Text) (compositionRule : Text)
      (now : ℤ)

/-- What a call of an agent emits. -/
def Emit.emission (agentId : Text) : Emit s → Emission s
  | .traceStart competency traceId query now =>
      ⟨.agentTraces agentId, .withTraceStart s agentId competency traceId query now, rfl⟩
  | .step traceId stepIndex stepJson now =>
      ⟨.queries, .withStep s traceId stepIndex stepJson now, rfl⟩
  | .traceComplete traceId durationMs stepCount confidence now =>
      ⟨.agentTraces agentId,
        .withTraceComplete s agentId traceId durationMs stepCount confidence now, rfl⟩
  | .challenge uuid targetTraceId counterEvidence targetStepIndex now =>
      ⟨.challenges, .withChallenge s uuid targetTraceId counterEvidence targetStepIndex now, rfl⟩
  | .composition compositionTraceId subTraceIds compositionRule now =>
      ⟨.compositions, .withComposition s compositionTraceId subTraceIds compositionRule now, rfl⟩

namespace A2AProtocolHandler

variable (s) in
/-- `new`. -/
def new (agentId : Text) : A2AProtocolHandler s := ⟨agentId, []⟩

/-- `emit_trace_start`, `emit_step`, `emit_trace_complete`, `emit_challenge` and
`emit_composition`. -/
def emit (h : A2AProtocolHandler s) (call : Emit s) : A2AProtocolHandler s :=
  { h with eventLog := h.eventLog ++ [(call.emission h.agentId).event] }

/-- `get_events_by_partition`. -/
def getEventsByPartition (h : A2AProtocolHandler s) (p : ReasoningPartition) :
    List (A2AReasoningEvent s) :=
  h.eventLog.filter fun e => e.partition = p.path

variable (s) in
/-- The handler of an agent after a run of calls. -/
def after (agentId : Text) (calls : List (Emit s)) : A2AProtocolHandler s :=
  calls.foldl emit (new s agentId)

end A2AProtocolHandler

/-! ### The buffers of all streams -/

variable (s) in
/-- `ReasoningStreamManager`, with its `event_buffer`. -/
structure ReasoningStreamManager where
  eventBuffer : AList fun _ : Text => List (A2AReasoningEvent s)

namespace ReasoningStreamManager

variable (s) in
/-- `new`. -/
def new : ReasoningStreamManager s := ⟨∅⟩

/-- `emit_event`. -/
def emitEvent (m : ReasoningStreamManager s) (event : A2AReasoningEvent s) :
    ReasoningStreamManager s :=
  ⟨Index.push event m.eventBuffer event.partition⟩

/-- `get_partition_events`. -/
def getPartitionEvents (m : ReasoningStreamManager s) (partition : Text) :
    List (A2AReasoningEvent s) :=
  Index.entry m.eventBuffer partition

/-- The manager after a run of events. -/
def after (events : List (A2AReasoningEvent s)) : ReasoningStreamManager s :=
  events.foldl emitEvent (new s)

end ReasoningStreamManager

/-! ### Streams kept apart -/

/-- The streams of a system whose agents have the given ids. -/
def InUse (agents : Set Text) : Set ReasoningPartition :=
  {p | ∀ agentId, p = .agentTraces agentId → agentId ∈ agents}

variable (s) in
/-- Every stream of the system comes back from its path, no two have one path, and what the
log of an agent and the buffers return for a stream is what was emitted to it. -/
structure Partitioned (agents : Set Text) : Prop where
  roundTrip : ∀ p ∈ InUse agents, ReasoningPartition.fromPath p.path = some p
  injective : Set.InjOn ReasoningPartition.path (InUse agents)
  log : ∀ agentId ∈ agents, ∀ calls, ∀ p ∈ InUse agents,
    (A2AProtocolHandler.after s agentId calls).getEventsByPartition p
      = emitted (calls.map (Emit.emission agentId)) p
  buffers : ∀ es : List (Emission s), (∀ e ∈ es, e.partition ∈ InUse agents) →
    ∀ p ∈ InUse agents,
      (ReasoningStreamManager.after (es.map Emission.event)).getPartitionEvents p.path
        = emitted es p

/-- The ids that `from_path` does not read as those of an agent. -/
def Reserved (agentId : Text) : Prop :=
  agentId = [] ∨ agentId = "challenges".toList ∨ agentId = "compositions".toList
    ∨ agentId = "queries".toList

/-- A path below `reasoning/` is read by its name. -/
lemma fromPath_reasoning (name : Text) :
    ReasoningPartition.fromPath (reasoning ++ name)
      = if name = "challenges".toList then some .challenges
        else if name = "compositions".toList then some .compositions
        else if name = "queries".toList then some .queries
        else if name ≠ [] ∧ name ≠ "challenges".toList ∧ name ≠ "compositions".toList
            ∧ name ≠ "queries".toList then some (.agentTraces name)
        else none := by
  have hname : ∀ {path name' : Text}, path = reasoning ++ name' →
      (reasoning ++ name = path ↔ name = name') := fun h => h ▸ List.append_right_inj reasoning
  have hpre : reasoning <+: reasoning ++ name := List.prefix_append _ _
  have hstrip : stripPrefix reasoning (reasoning ++ name) = some name := by
    rw [stripPrefix, if_pos hpre, List.drop_left]
  refine if_congr (hname rfl) rfl (if_congr (hname rfl) rfl (if_congr (hname rfl) rfl ?_))
  rw [if_pos hpre, hstrip, Option.bind_some]

lemma fromPath_agentTraces_iff (agentId : Text) :
    ReasoningPartition.fromPath (ReasoningPartition.agentTraces agentId).path
        = some (.agentTraces agentId) ↔ ¬ Reserved agentId := by
  have hpath : (ReasoningPartition.agentTraces agentId).path = reasoning ++ agentId := rfl
  rw [hpath, fromPath_reasoning, Reserved]
  split_ifs with hc hm hq hid
  · exact iff_of_false nofun fun h => h (.inr (.inl hc))
  · exact iff_of_false nofun fun h => h (.inr (.inr (.inl hm)))
  · exact iff_of_false nofun fun h => h (.inr (.inr (.inr hq)))
  · exact iff_of_true rfl (by tauto)
  · exact iff_of_false nofun (by tauto)

lemma fromPath_path_iff (p : ReasoningPartition) :
    ReasoningPartition.fromPath p.path = some p
      ↔ ∀ agentId, p = .agentTraces agentId → ¬ Reserved agentId := by
  cases p with
  | agentTraces agentId => simpa using fromPath_agentTraces_iff agentId
  | challenges => exact iff_of_true rfl (by simp)
  | compositions => exact iff_of_true rfl (by simp)
  | queries => exact iff_of_true rfl (by simp)

lemma eventLog_after (agentId : Text) (calls : List (Emit s)) :
    (A2AProtocolHandler.after s agentId calls).agentId = agentId
      ∧ (A2AProtocolHandler.after s agentId calls).eventLog
        = (calls.map (Emit.emission agentId)).map Emission.event := by
  induction calls using List.reverseRecOn with
  | nil => exact ⟨rfl, rfl⟩
  | append_singleton calls call ih =>
      obtain ⟨hid, hlog⟩ := ih
      rw [A2AProtocolHandler.after, List.foldl_concat, ← A2AProtocolHandler.after]
      refine ⟨hid, ?_⟩
      rw [A2AProtocolHandler.emit, hid, hlog, List.map_append, List.map_append]
      rfl

lemma eventBuffer_after (events : List (A2AReasoningEvent s)) :
    (ReasoningStreamManager.after events).eventBuffer
      = Index.collected A2AReasoningEvent.partition events := by
  induction events using List.reverseRecOn with
  | nil => rfl
  | append_singleton events event ih =>
      rw [ReasoningStreamManager.after, List.foldl_concat, ← ReasoningStreamManager.after,
        ReasoningStreamManager.emitEvent, ih, Index.collected, Index.collected, List.foldl_concat]

/-- Where streams have different paths, the events with the path of a stream are those that
were emitted to it. -/
lemma filter_path {agents : Set Text} (hinj : Set.InjOn ReasoningPartition.path (InUse agents))
    {es : List (Emission s)} (hes : ∀ e ∈ es, e.partition ∈ InUse agents)
    {p : ReasoningPartition} (hp : p ∈ InUse agents) :
    (es.map Emission.event).filter (fun e => e.partition = p.path) = emitted es p := by
  rw [List.filter_map, emitted]
  refine congrArg _ (List.filter_congr fun e he => ?_)
  have hpath : e.event.partition = p.path ↔ e.partition = p := by
    rw [e.path]
    exact hinj.eq_iff (hes e he) hp
  simp [hpath]

lemma emission_inUse {agents : Set Text} {agentId : Text} (h : agentId ∈ agents)
    (call : Emit s) : (call.emission agentId).partition ∈ InUse agents := by
  rintro agentId' hpartition
  cases call <;> cases hpartition <;> exact h

/-- The streams of a system are kept apart exactly if no agent has a reserved id. -/
theorem partitioned_iff (s : Serde) (agents : Set Text) :
    Partitioned s agents ↔ ∀ agentId ∈ agents, ¬ Reserved agentId := by
  constructor
  · intro h agentId hmem
    have huse : ReasoningPartition.agentTraces agentId ∈ InUse agents := by
      rintro _ ⟨⟩
      exact hmem
    exact (fromPath_agentTraces_iff agentId).mp (h.roundTrip _ huse)
  · intro h
    have hround : ∀ p ∈ InUse agents, ReasoningPartition.fromPath p.path = some p :=
      fun p hp => (fromPath_path_iff p).mpr fun agentId hid => h agentId (hp agentId hid)
    have hinj : Set.InjOn ReasoningPartition.path (InUse agents) := fun p hp q hq hpath =>
      Option.some.inj ((hround p hp).symm.trans (hpath ▸ hround q hq))
    refine ⟨hround, hinj, fun agentId hid calls p hp => ?_, fun es hes p hp => ?_⟩
    · rw [A2AProtocolHandler.getEventsByPartition, (eventLog_after agentId calls).2]
      refine filter_path hinj (fun e he => ?_) hp
      obtain ⟨call, -, rfl⟩ := List.mem_map.mp he
      exact emission_inUse hid call
    · rw [ReasoningStreamManager.getPartitionEvents, eventBuffer_after, Index.entry_collected]
      exact filter_path hinj hes hp

/-- The traces of an agent with the id `challenges` have the path of the challenges, and those
of one without an id have none that is read back. -/
theorem paths_collide :
    (ReasoningPartition.agentTraces "challenges".toList).path = ReasoningPartition.challenges.path
      ∧ ReasoningPartition.fromPath (ReasoningPartition.agentTraces "challenges".toList).path
        = some .challenges
      ∧ ReasoningPartition.fromPath (ReasoningPartition.agentTraces []).path = none := by
  decide

end Reasoning

end SovereignBus
