import SovereignBus.Reasoning.Rendering

/-!
The stream manager of `seb/reasoning/src/streaming.rs`, over runs of its calls.

* `MermaidSequenceDiagram`, `generateSequenceDiagram`: the diagrams, built call by call.
  `WellFormed`: the participants differ, and every arrow goes from one of them to another or
  the same. `Depicts`: a diagram of the traces of one competency, with an arrow to each of them
  from the one before it.
* `ReasoningStreamManager`, `StreamCall`: the manager with its three tables, and the calls that
  change them.
* `streams_consistent`: what the queries answer after any run, in whatever order the hash maps
  list their entries.
-/

namespace SovereignBus

namespace Reasoning

namespace Rendering

open List

/-! ### Diagrams -/

structure MermaidSequenceDiagram where
  title : Text
  actors : List Text
  interactions : List Text

namespace MermaidSequenceDiagram

/-- `new`. -/
def new (title : Text) : MermaidSequenceDiagram := ⟨title, [], []⟩

/-- `add_actor`. -/
def addActor (d : MermaidSequenceDiagram) (actor : Text) : MermaidSequenceDiagram :=
  if d.actors.contains actor then d else { d with actors := d.actors ++ [actor] }

/-- The text of an arrow. -/
def arrow (source target label : Text) : Text :=
  source ++ "->>".toList ++ target ++ ":".toList ++ label

/-- `add_interaction`. -/
def addInteraction (d : MermaidSequenceDiagram) (source target label : Text) :
    MermaidSequenceDiagram :=
  { d with interactions := d.interactions ++ [arrow source target label] }

/-- The participants differ, and every arrow is between participants. -/
structure WellFormed (d : MermaidSequenceDiagram) : Prop where
  actors : d.actors.Nodup
  interactions : ∀ x ∈ d.interactions, ∃ source ∈ d.actors, ∃ target ∈ d.actors, ∃ label,
    x = arrow source target label

end MermaidSequenceDiagram

open MermaidSequenceDiagram

variable {Value : Type}

/-- The label of an arrow to a trace. -/
def arrowLabel (t : ReasoningTrace Value) : Text :=
  "reasoning(".toList ++ t.competency ++ ")".toList

/-- The second loop of `generate_sequence_diagram`, behind the trace `prev`. -/
def addInteractions (d : MermaidSequenceDiagram) :
    Option (ReasoningTrace Value) → List (ReasoningTrace Value) → MermaidSequenceDiagram
  | _, [] => d
  | none, t :: ts => addInteractions d (some t) ts
  | some prev, t :: ts =>
      addInteractions (d.addInteraction prev.agentId t.agentId (arrowLabel t)) (some t) ts

/-- The diagram of the traces of a competency: their agents, and an arrow to every trace behind
the first one, from the agent of the trace before it. -/
structure Depicts (competency : Text) (traces : List (ReasoningTrace Value))
    (d : MermaidSequenceDiagram) : Prop where
  title : d.title = "Multi-Agent Reasoning".toList
  actors : ∀ a, a ∈ d.actors ↔ ∃ t ∈ traces, t.agentId = a
  arrows : d.interactions = List.zipWith
    (fun prev t : ReasoningTrace Value => arrow prev.agentId t.agentId
      ("reasoning(".toList ++ competency ++ ")".toList)) traces traces.tail

/-- `generate_sequence_diagram`. -/
def generateSequenceDiagram (traces : List (ReasoningTrace Value)) : MermaidSequenceDiagram :=
  let d := traces.foldl (fun d t => d.addActor t.agentId) (.new "Multi-Agent Reasoning".toList)
  addInteractions d none traces

/-! ### The manager -/

variable (Value) (s : Serde)

/-- `ReasoningSubscription`, whose mode is always the live one. -/
structure ReasoningSubscription where
  partition : Text
  agentId : Option Text
  createdAt : ℤ

/-- `ReasoningStreamManager`, with all its tables. -/
structure ReasoningStreamManager where
  subscriptions : List ReasoningSubscription
  events : Reasoning.ReasoningStreamManager s
  traces : AList fun _ : Text => ReasoningTrace Value

/-- The calls that change the tables. -/
inductive StreamCall where
  | subscribeLive (partition : Text) (now : ℤ)
  | emitEvent (event : A2AReasoningEvent s)
  | storeTrace (trace : ReasoningTrace Value)

/-- The agent of a path, where `from_path` reads one. -/
def agentOfPath (path : Text) : Option Text :=
  (ReasoningPartition.fromPath path).bind fun p =>
    match p with
    | .agentTraces id => some id
    | _ => none

/-- `get_summary`. -/
structure Summary where
  totalTraces : ℕ
  totalEvents : ℕ
  totalSteps : ℕ
  uniqueAgents : ℕ
  competencies : List Text

namespace ReasoningStreamManager

/-- `new`. -/
def new : ReasoningStreamManager Value s := ⟨[], .new s, ∅⟩

variable {Value s}

/-- `subscribe_live`, `emit_event` and `store_trace`. -/
def call (m : ReasoningStreamManager Value s) : StreamCall Value s → ReasoningStreamManager Value s
  | .subscribeLive partition now =>
      { m with subscriptions := m.subscriptions ++ [⟨partition, agentOfPath partition, now⟩] }
  | .emitEvent event => { m with events := m.events.emitEvent event }
  | .storeTrace trace => { m with traces := m.traces.insert trace.traceId trace }

/-- `get_trace`. -/
def getTrace (m : ReasoningStreamManager Value s) (traceId : Text) :
    Option (ReasoningTrace Value) :=
  m.traces.lookup traceId

/-- `get_traces`, in the order of the table. -/
def getTraces (m : ReasoningStreamManager Value s) : List (ReasoningTrace Value) :=
  Index.values m.traces

/-- `get_summary`, of the traces that `get_traces` lists. -/
def getSummary (m : ReasoningStreamManager Value s) (traces : List (ReasoningTrace Value)) :
    Summary where
  totalTraces := traces.length
  totalEvents := ((Index.values m.events.eventBuffer).map length).sum
  totalSteps := (traces.map fun t => t.steps.length).sum
  uniqueAgents := (traces.map ReasoningTrace.agentId).dedup.length
  competencies := (traces.map ReasoningTrace.competency).dedup

end ReasoningStreamManager

variable {Value s}

/-- `generate_diagrams`, of the traces that `get_traces` lists: one for each competency. -/
def generateDiagrams (traces : List (ReasoningTrace Value)) : List MermaidSequenceDiagram :=
  (Index.values (Index.collected ReasoningTrace.competency traces)).map generateSequenceDiagram

/-- The manager after a run of calls. -/
def after (calls : List (StreamCall Value s)) : ReasoningStreamManager Value s :=
  calls.foldl .call (.new Value s)

/-- The traces that the calls store. -/
def StreamCall.trace? : StreamCall Value s → Option (ReasoningTrace Value)
  | .storeTrace trace => some trace
  | _ => none

/-- The events that the calls emit. -/
def StreamCall.event? : StreamCall Value s → Option (A2AReasoningEvent s)
  | .emitEvent event => some event
  | _ => none

/-! ### A diagram -/

lemma actors_foldl_addActor (ts : List (ReasoningTrace Value)) (d : MermaidSequenceDiagram)
    (hd : d.actors.Nodup) :
    let d' := ts.foldl (fun d t => d.addActor t.agentId) d
    d'.actors.Nodup ∧ d'.interactions = d.interactions ∧ d'.title = d.title
      ∧ ∀ a, a ∈ d'.actors ↔ a ∈ d.actors ∨ ∃ t ∈ ts, t.agentId = a := by
  induction ts generalizing d with
  | nil => simp [hd]
  | cons t ts ih =>
      have hadd : (d.addActor t.agentId).actors.Nodup
          ∧ (d.addActor t.agentId).interactions = d.interactions
          ∧ (d.addActor t.agentId).title = d.title
          ∧ ∀ a, a ∈ (d.addActor t.agentId).actors ↔ a ∈ d.actors ∨ t.agentId = a := by
        rw [addActor]
        split_ifs with hin
        · rw [List.contains_iff_mem] at hin
          refine ⟨hd, rfl, rfl, fun a => (or_iff_left_of_imp ?_).symm⟩
          rintro rfl
          exact hin
        · rw [List.contains_iff_mem] at hin
          refine ⟨hd.append (nodup_singleton _) (by simpa using hin), rfl, rfl, fun a => ?_⟩
          rw [mem_append, mem_singleton, eq_comm]
      obtain ⟨hnodup, hinter, htitle, hmem⟩ := ih (d.addActor t.agentId) hadd.1
      refine ⟨hnodup, hinter.trans hadd.2.1, htitle.trans hadd.2.2.1, fun a => ?_⟩
      rw [foldl_cons, hmem, hadd.2.2.2, or_assoc, List.exists_mem_cons_iff]

/-- Every trace behind the first one adds an arrow, from the agent of the trace before it. -/
lemma addInteractions_some (ts : List (ReasoningTrace Value)) (d : MermaidSequenceDiagram)
    (prev : ReasoningTrace Value) :
    addInteractions d (some prev) ts
      = ⟨d.title, d.actors, d.interactions ++ List.zipWith
          (fun p t : ReasoningTrace Value => arrow p.agentId t.agentId (arrowLabel t))
          (prev :: ts) ts⟩ := by
  induction ts generalizing d prev with
  | nil => simp [addInteractions]
  | cons t ts ih => simp [addInteractions, ih, addInteraction]

/-- What a diagram is made of. -/
lemma generateSequenceDiagram_spec (ts : List (ReasoningTrace Value)) :
    (generateSequenceDiagram ts).title = "Multi-Agent Reasoning".toList
      ∧ (generateSequenceDiagram ts).actors.Nodup
      ∧ (∀ a, a ∈ (generateSequenceDiagram ts).actors ↔ ∃ t ∈ ts, t.agentId = a)
      ∧ (generateSequenceDiagram ts).interactions = List.zipWith
        (fun p t : ReasoningTrace Value => arrow p.agentId t.agentId (arrowLabel t))
        ts ts.tail := by
  obtain ⟨hnodup, hinter, htitle, hmem⟩ := actors_foldl_addActor ts
    (.new "Multi-Agent Reasoning".toList) nodup_nil
  cases ts with
  | nil => exact ⟨rfl, nodup_nil, by simp [generateSequenceDiagram, addInteractions, new], rfl⟩
  | cons t ts =>
      rw [generateSequenceDiagram, addInteractions, addInteractions_some]
      refine ⟨htitle, hnodup, fun a => ?_, ?_⟩
      · rw [hmem]
        simp [new]
      · rw [hinter]
        rfl

/-- A diagram is well formed. -/
lemma generateSequenceDiagram_wellFormed (ts : List (ReasoningTrace Value)) :
    (generateSequenceDiagram ts).WellFormed := by
  obtain ⟨-, hnodup, hmem, harrows⟩ := generateSequenceDiagram_spec ts
  refine ⟨hnodup, fun x hx => ?_⟩
  rw [harrows] at hx
  obtain ⟨i, hi, rfl⟩ := List.getElem_of_mem hx
  rw [length_zipWith] at hi
  rw [getElem_zipWith]
  exact ⟨_, (hmem _).mpr ⟨_, getElem_mem _, rfl⟩,
    _, (hmem _).mpr ⟨_, mem_of_mem_tail (getElem_mem _), rfl⟩, _, rfl⟩

/-- The diagram of traces of one competency depicts them. -/
lemma depicts_of_forall {competency : Text} {ts : List (ReasoningTrace Value)}
    (h : ∀ t ∈ ts, t.competency = competency) :
    Depicts competency ts (generateSequenceDiagram ts) := by
  obtain ⟨htitle, -, hactors, harrows⟩ := generateSequenceDiagram_spec ts
  have hlabels : List.zipWith
      (fun p t : ReasoningTrace Value => arrow p.agentId t.agentId (arrowLabel t)) ts ts.tail
        = List.zipWith (fun p t : ReasoningTrace Value => arrow p.agentId t.agentId
          ("reasoning(".toList ++ competency ++ ")".toList)) ts ts.tail := by
    have hlabel : ∀ p ∈ ts.zip ts.tail,
        arrowLabel p.2 = "reasoning(".toList ++ competency ++ ")".toList := by
      rintro ⟨prev, t⟩ hp
      have ht : t.competency = competency := h t (mem_of_mem_tail (of_mem_zip hp).2)
      rw [← ht]
      rfl
    rw [← map_uncurry_zip_eq_zipWith, ← map_uncurry_zip_eq_zipWith]
    exact map_congr_left fun p hp => congrArg (arrow p.1.agentId p.2.agentId) (hlabel p hp)
  exact ⟨htitle, hactors, harrows.trans hlabels⟩

lemma depicts_competency (traces : List (ReasoningTrace Value)) (competency : Text) :
    Depicts competency (traces.filter (ReasoningTrace.competency · = competency))
      (generateSequenceDiagram (traces.filter (ReasoningTrace.competency · = competency))) :=
  depicts_of_forall fun _ ht => of_decide_eq_true (mem_filter.mp ht).2

/-! ### Runs -/

/-- The tables after a run: the last trace under each identifier, and the events under their
partitions. -/
lemma after_eq (calls : List (StreamCall Value s)) :
    (after calls).traces
        = Index.stored ReasoningTrace.traceId (calls.filterMap StreamCall.trace?)
      ∧ (after calls).events
        = Reasoning.ReasoningStreamManager.after (calls.filterMap StreamCall.event?) := by
  induction calls using List.reverseRecOn with
  | nil => exact ⟨rfl, rfl⟩
  | append_singleton calls c ih =>
      obtain ⟨htraces, hevents⟩ := ih
      rw [after, foldl_concat, ← after, filterMap_append, filterMap_append]
      cases c with
      | subscribeLive partition now =>
          rw [filterMap_cons_none rfl, filterMap_cons_none rfl, filterMap_nil, filterMap_nil,
            append_nil, append_nil]
          exact ⟨htraces, hevents⟩
      | emitEvent event =>
          have hone : [(.emitEvent event : StreamCall Value s)].filterMap StreamCall.event?
              = [event] := rfl
          rw [filterMap_cons_none rfl, hone, filterMap_nil, append_nil]
          refine ⟨htraces, ?_⟩
          rw [ReasoningStreamManager.call, hevents, Reasoning.ReasoningStreamManager.after,
            Reasoning.ReasoningStreamManager.after, foldl_concat]
      | storeTrace trace =>
          have hone : [(.storeTrace trace : StreamCall Value s)].filterMap StreamCall.trace?
              = [trace] := rfl
          rw [hone, filterMap_cons_none rfl, filterMap_nil, append_nil]
          refine ⟨?_, hevents⟩
          rw [ReasoningStreamManager.call, htraces, Index.stored_concat]

/-- There is one diagram for each competency. -/
lemma generateDiagrams_perm (traces : List (ReasoningTrace Value)) :
    generateDiagrams traces ~ (traces.map ReasoningTrace.competency).dedup.map fun k =>
      generateSequenceDiagram (traces.filter (ReasoningTrace.competency · = k)) := by
  have hperm := (Index.values_collected_perm ReasoningTrace.competency traces).map
    generateSequenceDiagram
  rwa [map_map] at hperm

lemma mem_actors_generateDiagrams (traces : List (ReasoningTrace Value)) (a : Text) :
    (∃ d ∈ generateDiagrams traces, a ∈ d.actors) ↔ ∃ t ∈ traces, t.agentId = a := by
  simp only [(generateDiagrams_perm traces).mem_iff]
  constructor
  · rintro ⟨d, hd, ha⟩
    obtain ⟨k, -, rfl⟩ := mem_map.mp hd
    obtain ⟨t, ht, rfl⟩ := ((depicts_competency traces k).actors a).mp ha
    exact ⟨t, (mem_filter.mp ht).1, rfl⟩
  · rintro ⟨t, ht, rfl⟩
    have hk := mem_dedup.mpr (mem_map_of_mem (f := ReasoningTrace.competency) ht)
    exact ⟨_, mem_map_of_mem hk, ((depicts_competency traces _).actors _).mpr
      ⟨t, mem_filter.mpr ⟨ht, by simp⟩, rfl⟩⟩

/-- Every trace but the first one of its competency has an arrow. -/
lemma sum_interactions (traces : List (ReasoningTrace Value)) :
    ((generateDiagrams traces).map fun d => d.interactions.length).sum
      + (generateDiagrams traces).length = traces.length := by
  rw [generateDiagrams, map_map, length_map]
  conv_rhs => rw [← Index.sum_length_collected ReasoningTrace.competency traces]
  have hgroups : ∀ vs ∈ Index.values (Index.collected ReasoningTrace.competency traces),
      vs ≠ [] := fun vs hvs => by
    obtain ⟨k, hk, rfl⟩ := (Index.mem_values_collected _ _ _).mp hvs
    obtain ⟨t, ht, rfl⟩ := mem_map.mp hk
    exact ne_nil_of_mem (mem_filter.mpr ⟨ht, by simp⟩)
  generalize Index.values (Index.collected ReasoningTrace.competency traces) = groups at hgroups
  induction groups with
  | nil => rfl
  | cons vs groups ih =>
      rw [forall_mem_cons] at hgroups
      have hpos := length_pos_of_ne_nil hgroups.1
      have harrows := congrArg length (generateSequenceDiagram_spec vs).2.2.2
      rw [length_zipWith, length_tail] at harrows
      have hrest := ih hgroups.2
      simp only [map_cons, sum_cons, length_cons, Function.comp_apply, harrows] at hrest ⊢
      omega

/-- The queries of the stream manager after any run of its calls, in whatever order the hash
maps list their entries. A trace is found under its identifier as it was stored last; the
summary counts the identifiers stored and the events emitted; and the diagrams are those of the
competencies that it lists, each of the traces of its own: well formed, with the agents of the
traces as participants, and an arrow to every trace but the first. -/
theorem streams_consistent (calls : List (StreamCall Value s)) :
    (∀ id, (after calls).getTrace id
        = (calls.filterMap StreamCall.trace?).reverse.find? fun t => t.traceId = id)
      ∧ ∀ traces, traces ~ (after calls).getTraces → ∀ ds, ds ~ generateDiagrams traces →
          let summary := (after calls).getSummary traces
          summary.totalTraces
              = ((calls.filterMap StreamCall.trace?).map ReasoningTrace.traceId).dedup.length
            ∧ summary.totalEvents = (calls.filterMap StreamCall.event?).length
            ∧ (∃ diagram : Text → MermaidSequenceDiagram, ds ~ summary.competencies.map diagram
              ∧ ∀ k ∈ summary.competencies, (diagram k).WellFormed
                ∧ Depicts k (traces.filter (ReasoningTrace.competency · = k)) (diagram k))
            ∧ (∀ a, (∃ d ∈ ds, a ∈ d.actors) ↔ ∃ t ∈ traces, t.agentId = a)
            ∧ (ds.map fun d => d.interactions.length).sum + ds.length = summary.totalTraces := by
  obtain ⟨htraces, hevents⟩ := after_eq calls
  refine ⟨fun id => ?_, fun traces hiter ds hds => ⟨?_, ?_, ?_, fun a => ?_, ?_⟩⟩
  · rw [ReasoningStreamManager.getTrace, htraces, Index.lookup_stored_eq_find]
  · rw [ReasoningStreamManager.getSummary, hiter.length_eq, ReasoningStreamManager.getTraces,
      htraces, Index.length_values_stored]
  · rw [ReasoningStreamManager.getSummary, hevents, eventBuffer_after, Index.sum_length_collected]
  · exact ⟨_, hds.trans (generateDiagrams_perm traces), fun k _ =>
      ⟨generateSequenceDiagram_wellFormed _, depicts_competency traces k⟩⟩
  · rw [← mem_actors_generateDiagrams]
    exact exists_congr fun d => and_congr_left fun _ => hds.mem_iff
  · rw [hds.length_eq, (hds.map _).sum_eq, sum_interactions, ReasoningStreamManager.getSummary]

end Rendering

end Reasoning

end SovereignBus
