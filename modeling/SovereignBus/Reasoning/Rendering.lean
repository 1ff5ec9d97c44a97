import SovereignBus.Library.Binary64
import SovereignBus.Library.Hex
import SovereignBus.Library.Utf8
import SovereignBus.Reasoning.Partitions
import SovereignBus.Reasoning.Trace

/-!
Rendering and storing reasoning traces, of `seb/reasoning/src/trace.rs`, `streaming.rs` and
`integration.rs`.

* `ReasoningStep`, `ReasoningTrace`: the records of the source; `built`: a trace made by
  `new`, `add_step`, `add_parent` and `finalize`, over a `Codec` that stands for serde_json,
  blake3 and chrono.
* `toSExpr`, `toJsonLd`, `fromTrace`, `renderAscii`, `storeReasoningTrace`: the functions of the
  source. A panic is `none`.
* `Completes`: none of them panics. `completes_iff` says of which traces this holds.
-/

namespace SovereignBus

namespace Reasoning

namespace Rendering

/-! ### Traces -/

inductive ReasoningStep (Value : Type) where
  | retrieve (source symbol : Text) (result : Value)
  | verify (target method : Text) (valid : Bool) (error : Option Text)
  | applyRule (ruleId : Text) (premises : List Text) (conclusion : Text)
  | checkAuthorization (principal action resource : Text) (allowed : Bool) (reason : Text)
  | challenge (targetTraceId : Text) (targetStepIndex : ℕ) (counterEvidence : Text)
  | rebuttal (challengeTraceId response : Text)
  | conclude (conclusion : Text) (confidence : Float)
  | compose (subTraceIds : List Text) (compositionRule : Text)

structure TracedStep (Value : Type) where
  index : ℕ
  /-- In nanoseconds. -/
  timestamp : ℤ
  step : ReasoningStep Value
  stepHash : Text

structure ReasoningTrace (Value : Type) where
  traceId : Text
  agentId : Text
  competency : Text
  steps : List (TracedStep Value)
  parentRelations : List TraceRelation
  initiatingQuery : Option Text
  mode : Text
  durationMs : UInt64
  createdAt : ℤ
  signature : Option (List UInt8)
  sequenceNo : UInt64

/-- What a trace uses of serde_json, blake3 and chrono. -/
structure Codec where
  Value : Type
  /-- `to_string`, or the empty text. -/
  stepJson : ReasoningStep Value → Text
  traceJson : ReasoningTrace Value → Text
  blake3 : List UInt8 → Vector UInt8 32
  rfc3339 : ℤ → Text

variable (c : Codec) {Value : Type}

/-- `blake3::hash` of a text, in hexadecimal. -/
def hashHex (text : Text) : Text := Hex.encode (c.blake3 (Utf8.encode text)).toList

/-- `new`. -/
def ReasoningTrace.new (agentId competency : Text) (sequenceNo : UInt64) (now : ℤ) :
    ReasoningTrace Value where
  traceId := []
  agentId := agentId
  competency := competency
  steps := []
  parentRelations := []
  initiatingQuery := none
  mode := "live".toList
  durationMs := 0
  createdAt := now
  signature := none
  sequenceNo := sequenceNo

/-- `add_step`. -/
def ReasoningTrace.addStep (t : ReasoningTrace c.Value) (step : ReasoningStep c.Value) (now : ℤ) :
    ReasoningTrace c.Value :=
  { t with steps := t.steps ++ [⟨t.steps.length, now, step, hashHex c (c.stepJson step)⟩] }

/-- `add_parent`. -/
def ReasoningTrace.addParent (t : ReasoningTrace Value) (relation : TraceRelation) :
    ReasoningTrace Value :=
  { t with parentRelations := t.parentRelations ++ [relation] }

/-- `finalize`, whose hash is without the identifier and the signature. -/
def ReasoningTrace.finalize (t : ReasoningTrace c.Value) : ReasoningTrace c.Value :=
  { t with traceId := hashHex c (c.traceJson { t with traceId := [], signature := none }) }

/-- The calls that build a trace. -/
inductive BuildOp (Value : Type) where
  | addStep (step : ReasoningStep Value) (now : ℤ)
  | addParent (relation : TraceRelation)
  | finalize

def BuildOp.apply (t : ReasoningTrace c.Value) : BuildOp c.Value → ReasoningTrace c.Value
  | .addStep step now => t.addStep c step now
  | .addParent relation => t.addParent relation
  | .finalize => t.finalize c

/-- A trace that was built. -/
def built (agentId competency : Text) (sequenceNo : UInt64) (now : ℤ)
    (ops : List (BuildOp c.Value)) : ReasoningTrace c.Value :=
  ops.foldl (BuildOp.apply c) (.new agentId competency sequenceNo now)

/-! ### Rendering -/

def decimal (n : ℕ) : Text := Nat.toDigits 10 n

/-- `description`. -/
def ReasoningStep.description : ReasoningStep Value → Option Text
  | .retrieve _ symbol _ => some ("Retrieve(".toList ++ symbol ++ ")".toList)
  | .verify _ method _ _ => some ("Verify(".toList ++ method ++ ")".toList)
  | .applyRule ruleId _ _ => some ("ApplyRule(".toList ++ ruleId ++ ")".toList)
  | .checkAuthorization _ action _ _ _ => some ("CheckAuth(".toList ++ action ++ ")".toList)
  | .challenge targetTraceId _ _ =>
      (Utf8.slice 8 targetTraceId).map fun short => "Challenge(".toList ++ short ++ ")".toList
  | .rebuttal _ _ => some "Rebuttal".toList
  | .conclude _ confidence =>
      some ("Conclude(conf=".toList ++ (toString (confidence * 100.0).toInt32).toList
        ++ ")".toList)
  | .compose _ _ => some "Compose".toList

/-- A step in `to_s_expr`. -/
def TracedStep.sExpr (s : TracedStep Value) : Option Text :=
  s.step.description.map fun description =>
    "(step ".toList ++ decimal s.index ++ " \"".toList ++ description ++ "\" ".toList
      ++ s.stepHash ++ ")".toList

/-- `to_s_expr`. -/
def toSExpr (t : ReasoningTrace Value) : Option Text :=
  (t.steps.mapM TracedStep.sExpr).map fun steps =>
    let parts := ["(trace-id \"".toList ++ t.traceId ++ "\")".toList,
      "(agent \"".toList ++ t.agentId ++ "\")".toList,
      "(competency \"".toList ++ t.competency ++ "\")".toList] ++ steps
    "(reasoning ".toList ++ " ".toList.intercalate parts ++ ")".toList

/-- The JSON values of `to_json_ld`. -/
inductive Ld where
  | number (n : ℕ)
  | string (s : Text)
  | array (values : List Ld)
  | object (fields : List (Text × Ld))

/-- A step in `to_json_ld`. -/
def TracedStep.jsonLd (s : TracedStep c.Value) : Option Ld :=
  s.step.description.map fun description =>
    .object [("@type".toList, .string "ReasoningStep".toList), ("index".toList, .number s.index),
      ("timestamp".toList, .string (c.rfc3339 s.timestamp)),
      ("description".toList, .string description), ("hash".toList, .string s.stepHash)]

/-- `to_json_ld`. -/
def toJsonLd (t : ReasoningTrace c.Value) : Option Ld :=
  (t.steps.mapM (TracedStep.jsonLd c)).map fun steps =>
    .object [("@context".toList, .string "https://www.w3.org/ns/activitystreams".toList),
      ("@id".toList, .string ("trace:".toList ++ t.traceId)),
      ("@type".toList, .string "ReasoningTrace".toList), ("agent".toList, .string t.agentId),
      ("competency".toList, .string t.competency), ("steps".toList, .array steps),
      ("duration".toList, .string ("PT".toList ++ decimal t.durationMs.toNat ++ "MS".toList)),
      ("created".toList, .string (c.rfc3339 t.createdAt))]

structure TimelineEntry where
  stepIndex : ℕ
  timestamp : ℤ
  description : Text
  durationMs : ℕ

structure TraceTimeline where
  traceId : Text
  entries : List TimelineEntry

/-- `(now - prev_time).num_milliseconds().max(0)`. -/
def elapsed (prevTime now : ℤ) : ℕ := ((now - prevTime).tdiv 1000000).toNat

/-- The loop of `from_trace`. -/
def timelineEntries : ℤ → ℕ → List (TracedStep Value) → Option (List TimelineEntry)
  | _, _, [] => some []
  | prevTime, i, s :: steps =>
      s.step.description.bind fun description =>
        (timelineEntries s.timestamp (i + 1) steps).map fun entries =>
          ⟨i, s.timestamp, description, elapsed prevTime s.timestamp⟩ :: entries

/-- `TraceTimeline::from_trace`. -/
def fromTrace (t : ReasoningTrace Value) : Option TraceTimeline :=
  (timelineEntries t.createdAt 0 t.steps).map fun entries => ⟨t.traceId, entries⟩

/-- `((duration_ms as f64 / max_duration as f64) * 40.0) as usize`. -/
def barWidth (durationMs maxDuration : ℕ) : ℕ :=
  if maxDuration > 0 then
    ⌊Binary64.round
      (Binary64.round (Binary64.round durationMs / Binary64.round maxDuration) * 40)⌋₊
  else 1

def isizeMax : ℕ := 2 ^ 63 - 1

/-- `str::repeat`, which panics if the text takes too many bytes. -/
def strRepeat (s : Text) (n : ℕ) : Option Text :=
  if (Utf8.encode s).length * n ≤ isizeMax then some (List.replicate n s).flatten else none

/-- A line of the chart. -/
def renderEntry (maxDuration : ℕ) (entry : TimelineEntry) : Option Text :=
  (strRepeat "█".toList (barWidth entry.durationMs maxDuration)).map fun bar =>
    "[".toList ++ (decimal entry.stepIndex).leftpad 2 '0' ++ "] ".toList
      ++ entry.description.rightpad 50 ' ' ++ " ".toList ++ bar ++ " ms ".toList
      ++ decimal entry.durationMs ++ "ms\n".toList

/-- `trace_id_short`. -/
def shortId (traceId : Text) : Option Text :=
  if 16 ≤ (Utf8.encode traceId).length then Utf8.slice 16 traceId else some traceId

/-- `render_ascii`. -/
def renderAscii (timeline : TraceTimeline) : Option Text :=
  (shortId timeline.traceId).bind fun short =>
    let maxDuration := (timeline.entries.map TimelineEntry.durationMs).max?.getD 1
    (timeline.entries.mapM (renderEntry maxDuration)).map fun lines =>
      "Trace: ".toList ++ short ++ "\n".toList ++ "─────────────────────────────\n".toList
        ++ lines.flatten

/-! ### Storing -/

/-- The symbols of a step. -/
def ReasoningStep.symbols : ReasoningStep Value → List Text
  | .retrieve _ symbol _ => [symbol]
  | .checkAuthorization principal action resource _ _ => [principal, action, resource]
  | _ => []

/-- `extract_symbols`, sorted and without repetitions. -/
def extractSymbols (t : ReasoningTrace Value) : List Text :=
  ((t.steps.flatMap fun s => s.step.symbols).mergeSort fun a b => a ≤ b).destutter (· ≠ ·)

/-- The line of the log for a symbol, if a subscriber takes it. -/
def indexSymbol (infoEnabled : Bool) (t : ReasoningTrace Value) (symbol : Text) :
    Option (List Text) :=
  if infoEnabled then
    (Utf8.slice 16 t.traceId).map fun short =>
      ["Indexed symbol '".toList ++ symbol ++ "' from trace ".toList ++ short]
  else some []

/-- `store_reasoning_trace`: the traces of the stream manager, and the log. -/
def storeReasoningTrace (infoEnabled : Bool) (traces : AList fun _ : Text => ReasoningTrace Value)
    (t : ReasoningTrace Value) :
    Option ((AList fun _ : Text => ReasoningTrace Value) × List Text) :=
  ((extractSymbols t).mapM (indexSymbol infoEnabled t)).map fun logs =>
    (traces.insert t.traceId t, logs.flatten)

/-- No function panics on the trace. -/
structure Completes (infoEnabled : Bool) (traces : AList fun _ : Text => ReasoningTrace c.Value)
    (t : ReasoningTrace c.Value) : Prop where
  sExpr : (toSExpr t).isSome
  jsonLd : (toJsonLd c t).isSome
  timeline : ((fromTrace t).bind renderAscii).isSome
  store : (storeReasoningTrace infoEnabled traces t).isSome

/-! ### What panics -/

lemma isSome_mapM_iff {A B : Type*} {f : A → Option B} {l : List A} :
    (l.mapM f).isSome ↔ ∀ a ∈ l, (f a).isSome := by
  induction l with
  | nil => simp
  | cons a l ih =>
      rw [List.forall_mem_cons, ← ih, List.mapM_cons]
      cases f a <;> cases l.mapM f <;> simp

/-- A challenge is described by the first bytes of the identifier it names. -/
lemma description_isSome_iff {step : ReasoningStep Value} :
    step.description.isSome
      ↔ ∀ id i evidence, step = .challenge id i evidence → Utf8.Boundary 8 id := by
  cases step with
  | challenge id i evidence =>
      rw [ReasoningStep.description, Option.isSome_map, Utf8.slice_isSome_iff]
      refine ⟨fun h id' i' evidence' heq => ?_, fun h => h id i evidence rfl⟩
      cases heq
      exact h
  | _ => exact iff_of_true rfl nofun

/-- Every step has a description. -/
def Described (t : ReasoningTrace Value) : Prop := ∀ s ∈ t.steps, s.step.description.isSome

lemma toSExpr_isSome_iff {t : ReasoningTrace Value} : (toSExpr t).isSome ↔ Described t := by
  rw [toSExpr, Option.isSome_map, isSome_mapM_iff, Described]
  simp only [TracedStep.sExpr, Option.isSome_map]

lemma toJsonLd_isSome_iff {t : ReasoningTrace c.Value} : (toJsonLd c t).isSome ↔ Described t := by
  rw [toJsonLd, Option.isSome_map, isSome_mapM_iff, Described]
  simp only [TracedStep.jsonLd, Option.isSome_map]

lemma timelineEntries_isSome_iff {prevTime : ℤ} {i : ℕ} {steps : List (TracedStep Value)} :
    (timelineEntries prevTime i steps).isSome ↔ ∀ s ∈ steps, s.step.description.isSome := by
  induction steps generalizing prevTime i with
  | nil => simp [timelineEntries]
  | cons s steps ih =>
      rw [List.forall_mem_cons, ← @ih s.timestamp (i + 1), timelineEntries]
      cases s.step.description <;> simp

/-- No bar is wider than 40. -/
lemma barWidth_le {durationMs maxDuration : ℕ} (h : durationMs ≤ maxDuration) :
    barWidth durationMs maxDuration ≤ 40 := by
  have hone : Binary64.round 1 = 1 := by
    exact_mod_cast Binary64.round_natCast (show 1 < 2 ^ 53 by norm_num)
  have hforty : Binary64.round 40 = 40 := by
    exact_mod_cast Binary64.round_natCast (show 40 < 2 ^ 53 by norm_num)
  rw [barWidth]
  split_ifs with hpos
  · have hmax : 1 ≤ Binary64.round maxDuration := by
      have hle : (1 : ℚ) ≤ maxDuration := by exact_mod_cast hpos
      calc (1 : ℚ) = Binary64.round 1 := hone.symm
        _ ≤ Binary64.round maxDuration := Binary64.round_mono zero_le_one hle
    have hduration : 0 ≤ Binary64.round durationMs := Binary64.round_nonneg (Nat.cast_nonneg _)
    have hratio : Binary64.round durationMs / Binary64.round maxDuration ≤ 1 := by
      rw [div_le_one (by linarith)]
      exact Binary64.round_mono (Nat.cast_nonneg _) (Nat.cast_le.mpr h)
    have hquotient : 0 ≤ Binary64.round durationMs / Binary64.round maxDuration := by positivity
    have hproduct : Binary64.round (Binary64.round durationMs / Binary64.round maxDuration) * 40
        ≤ 40 := by
      have hle := Binary64.round_mono hquotient hratio
      rw [hone] at hle
      linarith
    refine Nat.floor_le_of_le ?_
    calc Binary64.round
          (Binary64.round (Binary64.round durationMs / Binary64.round maxDuration) * 40)
        ≤ Binary64.round 40 := Binary64.round_mono
          (mul_nonneg (Binary64.round_nonneg hquotient) (by norm_num)) hproduct
      _ = (40 : ℕ) := by rw [hforty]; norm_num
  · decide

/-- A chart panics on its identifier only. -/
lemma renderAscii_isSome_iff {timeline : TraceTimeline} :
    (renderAscii timeline).isSome ↔ (shortId timeline.traceId).isSome := by
  have hentries : (timeline.entries.mapM (renderEntry
      ((timeline.entries.map TimelineEntry.durationMs).max?.getD 1))).isSome := by
    rw [isSome_mapM_iff]
    intro entry hentry
    have hle := List.le_max?_getD_of_mem (k := 1)
      (List.mem_map_of_mem (f := TimelineEntry.durationMs) hentry)
    have hbar := barWidth_le hle
    have hbytes : (Utf8.encode "█".toList).length = 3 := by decide
    rw [renderEntry, Option.isSome_map, strRepeat, hbytes, if_pos (by rw [isizeMax]; omega)]
    rfl
  rw [renderAscii]
  cases shortId timeline.traceId with
  | none => simp
  | some short => simpa using hentries

/-- The identifiers that can be cut are those that are empty or hashes. -/
lemma boundary_hashHex (text : Text) : Utf8.Boundary 16 (hashHex c text) :=
  Utf8.boundary_of_ascii (Hex.encode_ascii _) (by simp)

lemma not_boundary_nil {n : ℕ} (hn : 0 < n) : ¬ Utf8.Boundary n [] := by
  rintro ⟨p, hp, hlen⟩
  rw [List.prefix_nil.mp hp, Utf8.encode_nil, List.length_nil] at hlen
  omega

lemma extractSymbols_eq_nil_iff {t : ReasoningTrace Value} :
    extractSymbols t = [] ↔ ∀ s ∈ t.steps, s.step.symbols = [] := by
  rw [extractSymbols, List.destutter_eq_nil, ← List.flatMap_eq_nil_iff]
  have hperm := List.mergeSort_perm (t.steps.flatMap fun s => s.step.symbols) fun a b => a ≤ b
  exact ⟨fun h => List.nil_perm.mp (h ▸ hperm), fun h => by rw [h, List.mergeSort_nil]⟩

lemma storeReasoningTrace_isSome_iff {infoEnabled : Bool}
    {traces : AList fun _ : Text => ReasoningTrace Value} {t : ReasoningTrace Value} :
    (storeReasoningTrace infoEnabled traces t).isSome
      ↔ infoEnabled = true → Utf8.Boundary 16 t.traceId ∨ ∀ s ∈ t.steps, s.step.symbols = [] := by
  rw [storeReasoningTrace, Option.isSome_map, isSome_mapM_iff, ← extractSymbols_eq_nil_iff]
  cases infoEnabled with
  | false => exact iff_of_true (fun _ _ => rfl) (by simp)
  | true =>
      have hindex : ∀ symbol, (indexSymbol true t symbol).isSome ↔ Utf8.Boundary 16 t.traceId :=
        fun symbol => by
          rw [indexSymbol, if_pos rfl, Option.isSome_map, Utf8.slice_isSome_iff]
      simp only [hindex]
      cases extractSymbols t with
      | nil => exact iff_of_true nofun fun _ => .inr rfl
      | cons symbol symbols =>
          exact ⟨fun h _ => .inl (h symbol List.mem_cons_self),
            fun h _ _ => (h trivial).resolve_right (List.cons_ne_nil _ _)⟩

/-! ### Built traces -/

/-- The step that a call adds. -/
def BuildOp.step? : BuildOp Value → Option (ReasoningStep Value)
  | .addStep step _ => some step
  | _ => none

variable {c} (agentId competency : Text) (sequenceNo : UInt64) (now : ℤ)

lemma built_concat (ops : List (BuildOp c.Value)) (op : BuildOp c.Value) :
    built c agentId competency sequenceNo now (ops ++ [op])
      = BuildOp.apply c (built c agentId competency sequenceNo now ops) op := by
  rw [built, List.foldl_concat, ← built]

lemma steps_built (ops : List (BuildOp c.Value)) :
    (built c agentId competency sequenceNo now ops).steps.map TracedStep.step
      = ops.filterMap BuildOp.step? := by
  induction ops using List.reverseRecOn with
  | nil => rfl
  | append_singleton ops op ih =>
      rw [built_concat, List.filterMap_append, ← ih]
      cases op with
      | addStep step now' => simp [BuildOp.apply, ReasoningTrace.addStep, BuildOp.step?]
      | addParent relation => simp [BuildOp.apply, ReasoningTrace.addParent, BuildOp.step?]
      | finalize => simp [BuildOp.apply, ReasoningTrace.finalize, BuildOp.step?]

/-- A trace has the identifier that it got when it was finalized, or none. -/
lemma traceId_built (ops : List (BuildOp c.Value)) :
    (.finalize ∈ ops ∧ Utf8.Boundary 16 (built c agentId competency sequenceNo now ops).traceId)
      ∨ .finalize ∉ ops ∧ (built c agentId competency sequenceNo now ops).traceId = [] := by
  induction ops using List.reverseRecOn with
  | nil => exact .inr ⟨List.not_mem_nil, rfl⟩
  | append_singleton ops op ih =>
      rw [built_concat, List.mem_append, List.mem_singleton]
      cases op with
      | addStep step now' => simpa [BuildOp.apply, ReasoningTrace.addStep] using ih
      | addParent relation => simpa [BuildOp.apply, ReasoningTrace.addParent] using ih
      | finalize => exact .inl ⟨.inr rfl, boundary_hashHex c _⟩

lemma boundary_built_iff (ops : List (BuildOp c.Value)) :
    Utf8.Boundary 16 (built c agentId competency sequenceNo now ops).traceId
      ↔ .finalize ∈ ops := by
  rcases traceId_built agentId competency sequenceNo now ops with ⟨hmem, hid⟩ | ⟨hnot, hid⟩
  · exact iff_of_true hid hmem
  · rw [hid]
    exact iff_of_false (not_boundary_nil (by decide)) hnot

/-- A trace that was built has a step exactly if a call added it. -/
lemma forall_steps_built_iff (ops : List (BuildOp c.Value))
    {P : ReasoningStep c.Value → Prop} :
    (∀ s ∈ (built c agentId competency sequenceNo now ops).steps, P s.step)
      ↔ ∀ step now', .addStep step now' ∈ ops → P step := by
  have hsteps := steps_built agentId competency sequenceNo now ops
  calc (∀ s ∈ (built c agentId competency sequenceNo now ops).steps, P s.step)
      ↔ ∀ step ∈ ops.filterMap BuildOp.step?, P step := by rw [← hsteps, List.forall_mem_map]
    _ ↔ ∀ step now', .addStep step now' ∈ ops → P step := ⟨fun h step now' hmem => ?_, ?_⟩
  · exact h step (List.mem_filterMap.mpr ⟨_, hmem, rfl⟩)
  · rintro h step hmem
    obtain ⟨op, hop, hstep⟩ := List.mem_filterMap.mp hmem
    cases op with
    | addStep step' now' =>
        obtain rfl := Option.some.inj hstep
        exact h step' now' hop
    | addParent relation => exact nomatch hstep
    | finalize => exact nomatch hstep

/-- Rendering and storing a trace that was built does not panic exactly if a character ends
behind the eighth byte of every identifier that a step challenges and, where the log takes
infos, the trace was finalized or no step has a symbol. -/
theorem completes_iff (c : Codec) (infoEnabled : Bool)
    (traces : AList fun _ : Text => ReasoningTrace c.Value) (agentId competency : Text)
    (sequenceNo : UInt64) (now : ℤ) (ops : List (BuildOp c.Value)) :
    Completes c infoEnabled traces (built c agentId competency sequenceNo now ops)
      ↔ (∀ id i evidence now', .addStep (.challenge id i evidence) now' ∈ ops →
          Utf8.Boundary 8 id)
        ∧ (infoEnabled = true → .finalize ∈ ops
          ∨ ∀ step now', .addStep step now' ∈ ops → step.symbols = []) := by
  let t := built c agentId competency sequenceNo now ops
  have hdescribed : Described t ↔ ∀ id i evidence now',
      .addStep (.challenge id i evidence) now' ∈ ops → Utf8.Boundary 8 id := by
    have hsteps := @forall_steps_built_iff c agentId competency sequenceNo now ops
      fun step => step.description.isSome
    rw [Described, hsteps]
    simp only [description_isSome_iff]
    exact ⟨fun h id i evidence now' hmem => h _ now' hmem id i evidence rfl,
      fun h step now' hmem id i evidence hstep => h id i evidence now' (hstep ▸ hmem)⟩
  have hstore : (storeReasoningTrace infoEnabled traces t).isSome
      ↔ infoEnabled = true → .finalize ∈ ops
        ∨ ∀ step now', .addStep step now' ∈ ops → step.symbols = [] := by
    have hsteps := @forall_steps_built_iff c agentId competency sequenceNo now ops
      fun step => step.symbols = []
    rw [storeReasoningTrace_isSome_iff, boundary_built_iff, hsteps]
  have htimeline : Described t → ((fromTrace t).bind renderAscii).isSome := by
    intro h
    obtain ⟨entries, hentries⟩ := Option.isSome_iff_exists.mp
      (timelineEntries_isSome_iff.mpr h : (timelineEntries t.createdAt 0 t.steps).isSome)
    rw [fromTrace, hentries, Option.map_some, Option.bind_some, renderAscii_isSome_iff, shortId]
    rcases traceId_built agentId competency sequenceNo now ops with ⟨-, hid⟩ | ⟨-, hid⟩
    · split_ifs
      · exact Utf8.slice_isSome_iff.mpr hid
      · rfl
    · have hnil : t.traceId = [] := hid
      rw [hnil]
      rfl
  rw [← hdescribed, ← hstore]
  exact ⟨fun h => ⟨toSExpr_isSome_iff.mp h.sExpr, h.store⟩, fun ⟨hd, hs⟩ =>
    ⟨toSExpr_isSome_iff.mpr hd, (toJsonLd_isSome_iff c).mpr hd, htimeline hd, hs⟩⟩

/-- A challenge to a trace whose identifier has seven bytes cannot be rendered. -/
theorem short_id_panics :
    ¬ ∀ (c : Codec) (infoEnabled : Bool) (traces : AList fun _ : Text => ReasoningTrace c.Value)
      (agentId competency : Text) (sequenceNo : UInt64) (now : ℤ) (ops : List (BuildOp c.Value)),
      Completes c infoEnabled traces (built c agentId competency sequenceNo now ops) := by
  intro hall
  have h := hall ⟨Unit, fun _ => [], fun _ => [], fun _ => .replicate 32 0, fun _ => []⟩ false ∅
    "agent_001".toList "verify".toList 1 0
    [.addStep (.challenge "trace-1".toList 0 "stale".toList) 0]
  have hnone := h.sExpr
  rw [toSExpr_isSome_iff] at hnone
  exact absurd (hnone _ List.mem_cons_self) (by decide)

end Rendering

end Reasoning

end SovereignBus
