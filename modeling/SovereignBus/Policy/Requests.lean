import SovereignBus.Library.Correlation
import SovereignBus.Policy.Bridge

/-!
Requests and responses of the bridge over whole runs.

* `requestOf`, `responseOf`: what an input asks, and what response it is.
* `marks`: a run as a history of query ids that are opened and closed. The pending
  queries are those that wait (`Tracks`).
* `Integrity`: a response to a query that waits is answered as its kind of request
  expects, and any other response changes nothing.
* `bridge_integrity_iff`: the runs in which this is so.
-/

namespace SovereignBus

namespace PolicyBridge

open Machine Correlation

variable {Pid Tag P B : Type*}

abbrev Entry (Pid Tag P B : Type*) := Input Pid Tag P B × Output Pid Tag P

/-- Whom a request has answered, and what kind of request it is. -/
def requestOf : Input Pid Tag P B → Option (ReplyTo Pid Tag × Kind)
  | .getCompetencies _ p tag => some (.caller p tag, .competencies)
  | .authorize _ replyTo => some (.pid replyTo, .authorize)
  | .query _ replyTo => some (.pid replyTo, .generic)
  | .data _ _ => none
  | .closed _ => none

/-- What a response says: an integer and a list. -/
def responseTerm : Option Term → Option (ℤ × Term)
  | some (.pair (.int queryId) results) =>
      if results.isList then some (queryId, results) else none
  | _ => none

/-- A response behind the bridge's own port. -/
def responseOf [DecidableEq P] (decode : B → Option Term) (own : Option P) :
    Input Pid Tag P B → Option (ℤ × Term)
  | .data port data => if port = own then responseTerm (decode data) else none
  | _ => none

/-- The atoms of a list of lists of one. -/
def competencyAtoms : Term → List String
  | .cons (.cons (.atom name) .nil) rest => name :: competencyAtoms rest
  | .cons _ rest => competencyAtoms rest
  | _ => []

/-- The answer that a request expects: a message to the process that was named, or
the reply to the call. -/
def expected (results : Term) : ReplyTo Pid Tag × Kind → Delivery Pid Tag
  | (.caller p tag, _) => .reply p tag (competencyAtoms results)
  | (.pid p, .authorize) => .message p (.authorizeResult (verdict results))
  | (.pid p, .competencies) => .message p (.competenciesResult (competencyAtoms results))
  | (.pid p, .generic) => .message p (.queryResult results)

section Runs

variable [DecidableEq P] (decode : B → Option Term) (own : Option P)

/-- What an entry of a run does to the query ids. -/
def markOf (e : Entry Pid Tag P B) : Mark Term (ReplyTo Pid Tag × Kind) :=
  match e.2.query, requestOf e.1, e.2.answer, responseOf decode own e.1 with
  | some queryId, some who, _, _ => .opened (.int queryId) who
  | _, _, some _, some (queryId, _) => .closed (.int queryId)
  | _, _, _, _ => .other

/-- The query ids of a run. -/
def marks (inputs : List (Input Pid Tag P B)) : List (Mark Term (ReplyTo Pid Tag × Kind)) :=
  (exec (step decode) (Server.start own) inputs).1.map (markOf decode own)

/-- The process after a run. -/
def serverAfter (inputs : List (Input Pid Tag P B)) : Server Pid Tag P :=
  (exec (step decode) (Server.start own) inputs).2

/-- The next input is served as it should be. A response to a query that waits is
answered as expected, any other message of a port changes nothing, and a request is
not answered by itself. -/
structure Serves (inputs : List (Input Pid Tag P B)) (input : Input Pid Tag P B) : Prop where
  answers : ∀ queryId results who, (serverAfter decode own inputs).status = .running →
    responseOf decode own input = some (queryId, results) →
    Waiting (marks decode own inputs) (.int queryId) who →
      (step decode (serverAfter decode own inputs) input).1.answer = some (expected results who)
  ignores : ∀ port data, input = .data port data →
    (∀ queryId results who, responseOf decode own input = some (queryId, results) →
      ¬ Waiting (marks decode own inputs) (.int queryId) who) →
    step decode (serverAfter decode own inputs) input
      = (Output.none, serverAfter decode own inputs)
  silent : responseOf decode own input = none →
    (step decode (serverAfter decode own inputs) input).1.answer = none

/-- After a run the bridge has not crashed, no query id was given out twice, no
request was answered twice, and every input was served. -/
structure Integrity (inputs : List (Input Pid Tag P B)) : Prop where
  alive : (serverAfter decode own inputs).status ≠ .crashed
  fresh : (opened (marks decode own inputs)).Nodup
  once : (closed (marks decode own inputs)).Nodup
  serves : ∀ inputs' input, inputs' ++ [input] <+: inputs → Serves decode own inputs' input

/-- The pending queries are those that wait, and the ids are counted up. -/
structure Tracks (inputs : List (Input Pid Tag P B)) : Prop where
  holds : Holds (serverAfter decode own inputs).state.pendingQueries (marks decode own inputs)
  counted : ∀ key ∈ opened (marks decode own inputs), ∃ n : ℕ, key = .int n
    ∧ n ≤ (serverAfter decode own inputs).state.queryCounter
  port : (serverAfter decode own inputs).state.port = own
  named : ∀ key who, .opened key who ∈ marks decode own inputs →
    (∃ p tag, who = (.caller p tag, .competencies)) ∨ ∃ p, who = (.pid p, .authorize)
      ∨ who = (.pid p, .generic)

lemma marks_concat (inputs : List (Input Pid Tag P B)) (input : Input Pid Tag P B) :
    marks decode own (inputs ++ [input])
      = marks decode own inputs
        ++ [markOf decode own (input, (step decode (serverAfter decode own inputs) input).1)] := by
  rw [marks, exec_concat, List.map_append]
  rfl

lemma serverAfter_concat (inputs : List (Input Pid Tag P B)) (input : Input Pid Tag P B) :
    serverAfter decode own (inputs ++ [input])
      = (step decode (serverAfter decode own inputs) input).2 := by
  rw [serverAfter, exec_concat]
  rfl

variable {decode own}

/-! ### One message -/

/-- An envelope whose intent and authority are maps and whose parts are binaries,
where it has them. -/
def EnvelopeOk (entries : Term) : Prop :=
  ∃ intent authority, mapsGet "intent" (.map entries) (.map .nil) = some (.map intent)
    ∧ mapsGet "authority" (.map entries) (.map .nil) = some (.map authority)
    ∧ (∃ bytes, mapsGet "agent_id" (.map authority) (Term.ofText "unknown") = some (.binary bytes))
    ∧ (∃ bytes, mapsGet "action" (.map intent) (Term.ofText "unknown") = some (.binary bytes))
    ∧ ∃ bytes, mapsGet "resource" (.map intent) (Term.ofText "unknown") = some (.binary bytes)

/-- What crashes the bridge: an envelope that is not so, and a response to a
`get_competencies` that waits. -/
def Crashes (decode : B → Option Term) (server : Server Pid Tag P) (input : Input Pid Tag P B) :
    Prop :=
  server.status = .running
    ∧ ((∃ entries replyTo, input = .authorize entries replyTo ∧ ¬ EnvelopeOk entries)
      ∨ ∃ queryId results replyTo,
          responseOf decode server.state.port input = some (queryId, results)
            ∧ server.state.pendingQueries (.int queryId) = some (replyTo, .competencies))

/-- What a message does. -/
inductive Effect (decode : B → Option Term) (server : Server Pid Tag P)
    (input : Input Pid Tag P B) : Output Pid Tag P × Server Pid Tag P → Prop
  | request (who : ReplyTo Pid Tag × Kind) (command : Option (P × ℕ × Term))
      (hwho : requestOf input = some who) :
      Effect decode server input
        (⟨some (server.state.queryCounter + 1), command, none⟩,
          ⟨{ server.state with
              queryCounter := server.state.queryCounter + 1
              pendingQueries := Function.update server.state.pendingQueries
                (.int (server.state.queryCounter + 1 : ℕ)) (some who) }, .running⟩)
  | answer (queryId : ℤ) (results : Term) (who : ReplyTo Pid Tag × Kind)
      (delivery : Delivery Pid Tag)
      (hresponse : responseOf decode server.state.port input = some (queryId, results))
      (hpending : server.state.pendingQueries (.int queryId) = some who)
      (hresult : handleQueryResult who.2 results who.1 = some delivery) :
      Effect decode server input
        (⟨none, none, some delivery⟩,
          ⟨{ server.state with
              pendingQueries := Function.update server.state.pendingQueries (.int queryId) none },
            .running⟩)
  | nothing (hrequest : server.status = .running → requestOf input = none)
      (hresponse : ∀ queryId results who, server.status = .running →
        responseOf decode server.state.port input = some (queryId, results) →
        server.state.pendingQueries (.int queryId) ≠ some who) :
      Effect decode server input (Output.none, server)
  | stop (port : P) (hclosed : input = .closed (some port)) :
      Effect decode server input (Output.none, ⟨server.state, .stopped⟩)
  | crash (h : Crashes decode server input) :
      Effect decode server input (Output.none, ⟨server.state, .crashed⟩)

lemma mapsGet_map (key : String) (entries default : Term) :
    mapsGet key (.map entries) default = some ((lookup (Term.ofText key) entries).getD default) :=
  rfl

lemma binaryToList_isSome_iff (t : Term) :
    (binaryToList t).isSome = true ↔ ∃ bytes, t = .binary bytes := by
  cases t <;> simp [binaryToList]

/-- The query of an envelope is built exactly if the envelope is as it should be. -/
lemma authorizeQuery_isSome_iff (entries : Term) :
    (authorizeQuery (.map entries)).isSome = true ↔ EnvelopeOk entries := by
  simp only [authorizeQuery, EnvelopeOk, mapsGet_map, Option.bind_eq_bind, Option.bind_some,
    Option.some.injEq]
  generalize (lookup (Term.ofText "intent") entries).getD (.map .nil) = intent
  generalize (lookup (Term.ofText "authority") entries).getD (.map .nil) = authority
  cases authority with
  | map authority =>
      cases intent with
      | map intent =>
          simp only [mapsGet_map, Option.bind_some, Term.map.injEq, ← binaryToList_isSome_iff,
            exists_and_left, exists_eq_left']
          generalize
            (lookup (Term.ofText "agent_id") authority).getD (Term.ofText "unknown") = agent
          generalize (lookup (Term.ofText "action") intent).getD (Term.ofText "unknown") = action
          generalize
            (lookup (Term.ofText "resource") intent).getD (Term.ofText "unknown") = resource
          cases binaryToList agent <;> cases binaryToList action <;> cases binaryToList resource <;>
            simp
      | _ => simp [mapsGet]
  | _ => simp [mapsGet]

/-- Two readings of a response: as a pair, and as an integer with a list. -/
lemma parseSouffleResponse_eq (term : Option Term) :
    parseSouffleResponse term
      = match responseTerm term with
        | some (queryId, results) => (.int queryId, results)
        | none => (.atom "error", .atom "parse_error") := by
  rcases term with _ | term
  · rfl
  · cases term with
    | pair first second =>
        cases first with
        | int queryId =>
            cases hlist : second.isList <;> simp [parseSouffleResponse, responseTerm, hlist]
        | _ => rfl
    | _ => rfl

variable {server : Server Pid Tag P}

/-- Only what answers a `get_competencies` cannot be sent. -/
lemma kind_of_handleQueryResult {kind : Kind} {results : Term} {replyTo : ReplyTo Pid Tag}
    (hnamed : kind ≠ .competencies → ∃ p, replyTo = .pid p)
    (h : handleQueryResult kind results replyTo = none) : kind = .competencies := by
  by_contra hkind
  obtain ⟨p, rfl⟩ := hnamed hkind
  cases kind <;> simp [handleQueryResult, send] at h hkind

/-- A message of a port, in the order of its checks: the port, the response, the
pending query, the answer. -/
lemma data_effect (hstatus : server.status = .running) (port : Option P) (data : B)
    (herror : server.state.pendingQueries (.atom "error") = none)
    (hnamed : ∀ key who, server.state.pendingQueries key = some who →
      who.2 ≠ .competencies → ∃ p, who.1 = .pid p) :
    Effect decode server (.data port data) (step decode server (.data port data)) := by
  have hserver : server = ⟨server.state, .running⟩ := by rw [← hstatus]
  rw [step, hstatus]
  simp only [handle, handleData]
  split_ifs with hport
  · have hresponse : responseOf decode server.state.port
        (.data port data : Input Pid Tag P B) = responseTerm (decode data) := if_pos hport
    rw [parseSouffleResponse_eq]
    cases hterm : responseTerm (decode data) with
    | none =>
        simp only [herror]
        rw [← hserver]
        exact .nothing (fun _ => rfl) (by simp [hresponse, hterm])
    | some response =>
        obtain ⟨queryId, results⟩ := response
        cases hpending : server.state.pendingQueries (.int queryId) with
        | none =>
            simp only
            rw [← hserver]
            refine .nothing (fun _ => rfl) fun id r who _ hid hwho => ?_
            rw [hresponse, hterm, Option.some.injEq, Prod.mk.injEq] at hid
            rw [← hid.1, hpending] at hwho
            exact absurd hwho (by simp)
        | some who =>
            obtain ⟨replyTo, kind⟩ := who
            simp only
            cases hresult : handleQueryResult kind results replyTo with
            | some delivery =>
                exact .answer queryId results _ delivery (hresponse.trans hterm) hpending hresult
            | none =>
                obtain rfl := kind_of_handleQueryResult (hnamed _ _ hpending) hresult
                exact .crash ⟨hstatus, .inr ⟨queryId, results, replyTo,
                  hresponse.trans hterm, hpending⟩⟩
  · show Effect decode server _ (Output.none, ⟨server.state, .running⟩)
    rw [← hserver]
    exact .nothing (fun _ => rfl) (by simp [responseOf, hport])

lemma step_effect (input : Input Pid Tag P B)
    (herror : server.state.pendingQueries (.atom "error") = none)
    (hnamed : ∀ key who, server.state.pendingQueries key = some who →
      who.2 ≠ .competencies → ∃ p, who.1 = .pid p) :
    Effect decode server input (step decode server input) := by
  cases hstatus : server.status with
  | running =>
      cases input with
      | getCompetencies agentId p tag =>
          rw [step, hstatus]
          exact .request _ _ rfl
      | query queryString replyTo =>
          rw [step, hstatus]
          exact .request _ _ rfl
      | authorize entries replyTo =>
          rw [step, hstatus]
          simp only [handle, handleAuthorize]
          cases hquery : authorizeQuery (.map entries) with
          | some queryString => exact .request _ _ rfl
          | none =>
              refine .crash ⟨hstatus, .inl ⟨entries, replyTo, rfl, ?_⟩⟩
              rw [← authorizeQuery_isSome_iff, hquery]
              exact Bool.false_ne_true
      | closed port =>
          rw [step, hstatus]
          cases port with
          | some port => exact .stop port rfl
          | none =>
              simp only [handle, handleClosed]
              rw [← hstatus]
              exact .nothing (fun _ => rfl) (by simp [responseOf])
      | data port data => exact data_effect hstatus port data herror hnamed
  | stopped =>
      rw [step, hstatus]
      exact .nothing (by simp [hstatus]) (by simp [hstatus])
  | crashed =>
      rw [step, hstatus]
      exact .nothing (by simp [hstatus]) (by simp [hstatus])

/-! ### Runs -/

/-- Only the messages of a port are responses. -/
lemma responseOf_eq_some {input : Input Pid Tag P B} {response : ℤ × Term}
    (h : responseOf decode own input = some response) : ∃ port data, input = .data port data := by
  cases input with
  | data port data => exact ⟨port, data, rfl⟩
  | _ => simp [responseOf] at h

omit [DecidableEq P] in
lemma requestOf_named {input : Input Pid Tag P B} {who : ReplyTo Pid Tag × Kind}
    (h : requestOf input = some who) :
    (∃ p tag, who = (.caller p tag, .competencies))
      ∨ ∃ p, who = (.pid p, .authorize) ∨ who = (.pid p, .generic) := by
  cases input with
  | getCompetencies agentId p tag => exact .inl ⟨p, tag, (Option.some.inj h).symm⟩
  | authorize entries p => exact .inr ⟨p, .inl (Option.some.inj h).symm⟩
  | query queryString p => exact .inr ⟨p, .inr (Option.some.inj h).symm⟩
  | data port data => simp [requestOf] at h
  | closed port => simp [requestOf] at h

lemma markOf_none (input : Input Pid Tag P B) :
    markOf decode own (input, Output.none) = .other := by
  simp [markOf, Output.none]

variable {inputs : List (Input Pid Tag P B)}

lemma Tracks.pending_mem (h : Tracks decode own inputs) {key : Term} {who : ReplyTo Pid Tag × Kind}
    (hkey : (serverAfter decode own inputs).state.pendingQueries key = some who) :
    .opened key who ∈ marks decode own inputs :=
  ((h.holds.waiting key who).mp hkey).1

lemma Tracks.effect (h : Tracks decode own inputs) (input : Input Pid Tag P B) :
    Effect decode (serverAfter decode own inputs) input
      (step decode (serverAfter decode own inputs) input) := by
  refine step_effect input ?_ fun key who hkey hkind => ?_
  · by_contra hsome
    obtain ⟨who, hwho⟩ := Option.ne_none_iff_exists'.mp hsome
    obtain ⟨n, hn, -⟩ := h.counted _ (mem_opened (h.pending_mem hwho))
    exact absurd hn (by simp)
  · rcases h.named key who (h.pending_mem hkey) with ⟨p, tag, rfl⟩ | ⟨p, rfl | rfl⟩
    · exact absurd rfl hkind
    · exact ⟨p, rfl⟩
    · exact ⟨p, rfl⟩

/-- A message that leaves the state and the query ids alone. -/
lemma Tracks.still {inputs' : List (Input Pid Tag P B)} (h : Tracks decode own inputs)
    (hmarks : marks decode own inputs' = marks decode own inputs ++ [.other])
    (hstate : (serverAfter decode own inputs').state = (serverAfter decode own inputs).state) :
    Tracks decode own inputs' := by
  refine ⟨?_, ?_, ?_, ?_⟩
  · rw [hmarks, hstate]
    exact h.holds.other
  · rw [hmarks, hstate, opened_concat]
    simpa [Mark.openedKey] using h.counted
  · rw [hstate]
    exact h.port
  · rw [hmarks]
    simpa using h.named

lemma Tracks.concat (h : Tracks decode own inputs) (input : Input Pid Tag P B) :
    Tracks decode own (inputs ++ [input]) := by
  have heffect := h.effect input
  have hmarks := marks_concat decode own inputs input
  have hafter := serverAfter_concat decode own inputs input
  generalize step decode (serverAfter decode own inputs) input = r at heffect hmarks hafter
  cases heffect with
  | request who command hwho =>
      simp only [markOf, hwho] at hmarks
      have hnew : Term.int ((serverAfter decode own inputs).state.queryCounter + 1 : ℕ)
          ∉ opened (marks decode own inputs) := by
        intro hmem
        obtain ⟨n, hn, hle⟩ := h.counted _ hmem
        rw [Term.int.injEq] at hn
        omega
      refine ⟨?_, ?_, ?_, ?_⟩
      · rw [hmarks, hafter]
        exact h.holds.insert who hnew
      · rw [hmarks, hafter, opened_concat]
        intro key hkey
        rcases List.mem_append.mp hkey with hkey | hkey
        · obtain ⟨n, hn, hle⟩ := h.counted key hkey
          exact ⟨n, hn, Nat.le_succ_of_le hle⟩
        · exact ⟨_, List.mem_singleton.mp hkey, le_rfl⟩
      · rw [hafter]
        exact h.port
      · rw [hmarks]
        intro key who' hmem
        rcases List.mem_append.mp hmem with hmem | hmem
        · exact h.named key who' hmem
        · obtain ⟨-, rfl⟩ := Mark.opened.inj (List.mem_singleton.mp hmem)
          exact requestOf_named hwho
  | answer queryId results who delivery hresponse hpending hresult =>
      rw [h.port] at hresponse
      simp only [markOf, hresponse] at hmarks
      refine ⟨?_, ?_, ?_, ?_⟩
      · rw [hmarks, hafter]
        exact h.holds.erase hpending
      · rw [hmarks, hafter, opened_concat]
        simpa [Mark.openedKey] using h.counted
      · rw [hafter]
        exact h.port
      · rw [hmarks]
        simpa using h.named
  | nothing hrequest hresponse =>
      exact h.still (hmarks.trans (by rw [markOf_none])) (by rw [hafter])
  | stop port hclosed => exact h.still (hmarks.trans (by rw [markOf_none])) (by rw [hafter])
  | crash hcrash => exact h.still (hmarks.trans (by rw [markOf_none])) (by rw [hafter])

lemma tracks (decode : B → Option Term) (own : Option P) (inputs : List (Input Pid Tag P B)) :
    Tracks decode own inputs := by
  induction inputs using List.reverseRecOn with
  | nil => exact ⟨Holds.empty, by simp [marks, opened], rfl, by simp [marks]⟩
  | append_singleton inputs input ih => exact ih.concat input

/-- What `handle_query_result` sends is what the request expects. -/
lemma delivery_eq_expected {results : Term} {who : ReplyTo Pid Tag × Kind}
    {delivery : Delivery Pid Tag} (h : handleQueryResult who.2 results who.1 = some delivery)
    (hkind : who.2 ≠ .competencies) : delivery = expected results who := by
  obtain ⟨replyTo, kind⟩ := who
  cases replyTo with
  | pid p =>
      cases kind with
      | authorize => exact (Option.some.inj h).symm
      | competencies => exact absurd rfl hkind
      | generic => exact (Option.some.inj h).symm
  | caller p tag => cases kind <;> simp [handleQueryResult, send] at h hkind

/-- What does not crash the bridge is served. -/
lemma serves_of_not_crashes (input : Input Pid Tag P B)
    (hcrash : ¬ Crashes decode (serverAfter decode own inputs) input) :
    Serves decode own inputs input := by
  have h := tracks decode own inputs
  have heffect := h.effect input
  refine ⟨?_, ?_, ?_⟩
  · intro queryId results who hrunning hresponse hwaiting
    have hpending := (h.holds.waiting _ _).mpr hwaiting
    have hown : responseOf decode (serverAfter decode own inputs).state.port input
        = some (queryId, results) := by rw [h.port, hresponse]
    have hkind : who.2 ≠ .competencies := fun hkind =>
      hcrash ⟨hrunning, .inr ⟨queryId, results, who.1, hown, by rw [hpending, ← hkind]⟩⟩
    obtain ⟨port, data, rfl⟩ := responseOf_eq_some hresponse
    generalize step decode (serverAfter decode own inputs) (.data port data) = r at heffect
    cases heffect with
    | request _ _ hwho => simp [requestOf] at hwho
    | answer queryId' results' who' delivery hresponse' hpending' hresult =>
        rw [hown, Option.some.injEq, Prod.mk.injEq] at hresponse'
        obtain ⟨rfl, rfl⟩ := hresponse'
        obtain rfl : who = who' := Option.some.inj (hpending.symm.trans hpending')
        exact congrArg some (delivery_eq_expected hresult hkind)
    | nothing _ hnone => exact absurd hpending (hnone _ _ _ hrunning hown)
    | stop _ hclosed => simp at hclosed
    | crash hc => exact absurd hc hcrash
  · rintro port data rfl hnot
    generalize step decode (serverAfter decode own inputs) (.data port data) = r at heffect
    cases heffect with
    | request _ _ hwho => simp [requestOf] at hwho
    | answer queryId results who delivery hresponse hpending =>
        rw [h.port] at hresponse
        exact absurd ((h.holds.waiting _ _).mp hpending) (hnot _ _ _ hresponse)
    | nothing => rfl
    | stop _ hclosed => simp at hclosed
    | crash hc => exact absurd hc hcrash
  · intro hnone
    generalize step decode (serverAfter decode own inputs) input = r at heffect
    cases heffect with
    | request => rfl
    | answer queryId results who delivery hresponse => simp [h.port, hnone] at hresponse
    | nothing => rfl
    | stop => rfl
    | crash => rfl

/-- `Crashes` says what it is to say. -/
lemma step_of_crashes {input : Input Pid Tag P B}
    (hcrash : Crashes decode (serverAfter decode own inputs) input) :
    (step decode (serverAfter decode own inputs) input).2.status = .crashed := by
  have h := tracks decode own inputs
  obtain ⟨hrunning, ⟨entries, replyTo, rfl, hnot⟩
    | ⟨queryId, results, replyTo, hresponse, hpending⟩⟩ :=
    hcrash
  · have hquery : authorizeQuery (.map entries) = none := by
      rwa [← authorizeQuery_isSome_iff, Option.not_isSome_iff_eq_none] at hnot
    simp only [step, hrunning, handle, handleAuthorize, hquery]
  · obtain ⟨port, data, rfl⟩ := responseOf_eq_some hresponse
    have hport : port = (serverAfter decode own inputs).state.port := by
      by_contra hne
      simp [responseOf, hne] at hresponse
    have hterm : responseTerm (decode data) = some (queryId, results) := by
      simpa [responseOf, hport] using hresponse
    have hresult : handleQueryResult .competencies results replyTo = none := by
      rcases h.named _ _ (h.pending_mem hpending) with ⟨p, tag, hwho⟩ | ⟨p, hwho | hwho⟩
      · rw [(Prod.mk.inj hwho).1]
        cases hatoms : comprehend results <;> simp [handleQueryResult, send, hatoms]
      · simp at hwho
      · simp at hwho
    simp only [step, hrunning, handle, handleData, if_pos hport, parseSouffleResponse_eq, hterm,
      hpending, hresult]

/-- The next message breaks the integrity exactly if it crashes the bridge. -/
lemma integrity_concat_iff (hintegrity : Integrity decode own inputs) (input : Input Pid Tag P B) :
    Integrity decode own (inputs ++ [input])
      ↔ ¬ Crashes decode (serverAfter decode own inputs) input := by
  refine ⟨fun hnext hcrash => ?_, fun hcrash => ⟨?_, ?_, ?_, ?_⟩⟩
  · apply hnext.alive
    rw [serverAfter_concat, step_of_crashes hcrash]
  · rw [serverAfter_concat]
    have heffect := (tracks decode own inputs).effect input
    generalize step decode (serverAfter decode own inputs) input = r at heffect
    cases heffect with
    | nothing => exact hintegrity.alive
    | crash hc => exact absurd hc hcrash
    | _ => simp
  · exact (tracks decode own _).holds.openedOnce
  · exact (tracks decode own _).holds.closedOnce
  · intro inputs' input' hpre
    rcases List.prefix_concat_iff.mp hpre with heq | hpre
    · obtain ⟨rfl, rfl⟩ := List.append_inj' heq rfl |>.imp_right List.singleton_inj.mp
      exact serves_of_not_crashes _ hcrash
    · exact hintegrity.serves inputs' input' hpre

/-- The bridge serves its requests in every run in which no `authorize` brings an
envelope that is not as it should be, and no response comes for a `get_competencies`
that waits, and in no other. -/
theorem bridge_integrity_iff (decode : B → Option Term) (own : Option P)
    (inputs : List (Input Pid Tag P B)) :
    (∀ inputs', inputs' <+: inputs → Integrity decode own inputs')
      ↔ ∀ inputs' input, inputs' ++ [input] <+: inputs →
          ¬ Crashes decode (serverAfter decode own inputs') input := by
  refine run_iff_inputs (fun inputs _ => Integrity decode own inputs) (Crashes decode) ?_
    (fun inputs input hintegrity => integrity_concat_iff hintegrity input) inputs
  refine ⟨by simp [serverAfter, Server.start], ?_, ?_, ?_⟩
  · exact (tracks decode own []).holds.openedOnce
  · exact (tracks decode own []).holds.closedOnce
  · intro inputs' input hpre
    simp at hpre

end Runs

/-- The response to the first `get_competencies` crashes the bridge. -/
theorem bridge_crashes_on_competencies :
    ¬ ∀ inputs : List (Input ℕ ℕ ℕ Term), Integrity some none inputs := by
  intro hintegrity
  refine (hintegrity [.getCompetencies [97] 1 2,
    .data none (.pair (.int 1) (.cons (.cons (.atom "compute") .nil) .nil))]).alive ?_
  decide

end PolicyBridge

end SovereignBus
