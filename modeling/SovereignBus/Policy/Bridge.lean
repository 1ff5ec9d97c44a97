import SovereignBus.Library.Machine

/-!
The bridge to the policy engine, `seb/runtime/src/seb_datalog_bridge.erl`.

* `Term`: the terms of Erlang, as far as the bridge looks at them.
* `handleCall`, `handleCast`, `handleInfo`: the callbacks. A raised error gives
  `crash`. A reply target is a process or the `From` of a call, and `!` takes only the
  first.
* `Server`, `step`: the process, which serves nothing once it is down.
-/

namespace SovereignBus

namespace PolicyBridge

/-! ### Terms -/

/-- The terms of Erlang. A pair is a tuple of two, a map the list of its pairs, and
`other` stands for the terms that the bridge never looks into. -/
inductive Term where
  | int (n : ℤ)
  | atom (name : String)
  | binary (bytes : List UInt8)
  | nil
  | cons (head tail : Term)
  | pair (first second : Term)
  | map (entries : Term)
  | other (n : ℕ)
  deriving DecidableEq

/-- `is_list/1`, which looks at the first cell only. -/
def Term.isList : Term → Bool
  | .nil => true
  | .cons _ _ => true
  | _ => false

/-- A string as the list of its characters. -/
def Term.ofString (s : List Char) : Term := s.foldr (fun c t => .cons (.int c.toNat) t) .nil

/-- The binary of a text in ASCII. -/
def Term.ofText (s : String) : Term := .binary (s.toList.map fun c => UInt8.ofNat c.toNat)

/-- The value of a key among the pairs of a map. -/
def lookup (key : Term) : Term → Option Term
  | .cons (.pair k v) rest => if k = key then some v else lookup key rest
  | .cons _ rest => lookup key rest
  | _ => none

/-- `maps:get/3`, which raises `badmap` on what is no map. -/
def mapsGet (key : String) (m default : Term) : Option Term :=
  match m with
  | .map entries => some ((lookup (Term.ofText key) entries).getD default)
  | _ => none

/-- `binary_to_list/1`, which raises `badarg` on what is no binary. -/
def binaryToList : Term → Option (List Char)
  | .binary bytes => some (bytes.map fun b => Char.ofNat b.toNat)
  | _ => none

/-! ### The bridge -/

variable {Pid Tag P B : Type*}

/-- A process, or the `From` of a call, which is a process with a tag. -/
inductive ReplyTo (Pid Tag : Type*) where
  | pid (p : Pid)
  | caller (p : Pid) (tag : Tag)

/-- The second half of a pending query. -/
inductive Kind where
  | authorize
  | competencies
  | generic
  deriving DecidableEq

inductive Verdict where
  | ok
  | denied
  | policyError

/-- The messages `authorize_result`, `competencies_result` and `query_result`. -/
inductive Message where
  | authorizeResult (verdict : Verdict)
  | competenciesResult (competencies : List String)
  | queryResult (results : Term)

/-- What reaches a requester: a message, or the reply to its call. -/
inductive Delivery (Pid Tag : Type*) where
  | message (p : Pid) (message : Message)
  | reply (p : Pid) (tag : Tag) (competencies : List String)

/-- `#state{}`. -/
structure State (Pid Tag P : Type*) where
  port : Option P
  pendingQueries : Term → Option (ReplyTo Pid Tag × Kind)
  queryCounter : ℕ

/-- The requests of the API, whose guards ask for a binary, a map, a list and
processes, and the messages of a port. -/
inductive Input (Pid Tag P B : Type*) where
  | getCompetencies (agentId : List UInt8) (p : Pid) (tag : Tag)
  | authorize (entries : Term) (replyTo : Pid)
  | query (queryString : Term) (replyTo : Pid)
  | data (port : Option P) (data : B)
  | closed (port : Option P)

/-- What a callback does: the id it gives out, the command it sends to the port, and
the answer it sends. -/
structure Output (Pid Tag P : Type*) where
  query : Option ℕ
  command : Option (P × ℕ × Term)
  answer : Option (Delivery Pid Tag)

def Output.none : Output Pid Tag P := ⟨.none, .none, .none⟩

/-- `{noreply, State}`, `{stop, souffle_port_closed, State}`, or a raised error. -/
inductive Result (Pid Tag P : Type*) where
  | noreply (out : Output Pid Tag P) (s : State Pid Tag P)
  | stop
  | crash

/-- `init/1` behind `open_souffle_port/0`. -/
def State.init (port : Option P) : State Pid Tag P := ⟨port, fun _ => none, 0⟩

/-- What the three requests share: the next id, the pending query and the command.
`send_to_port` does nothing without a port. -/
def request (s : State Pid Tag P) (replyTo : ReplyTo Pid Tag) (kind : Kind) (queryString : Term) :
    Result Pid Tag P :=
  let queryId := s.queryCounter + 1
  .noreply ⟨some queryId, s.port.map fun port => (port, queryId, queryString), none⟩
    { s with
      queryCounter := queryId
      pendingQueries :=
        Function.update s.pendingQueries (.int queryId) (some (replyTo, kind)) }

/-- `handle_call` of `get_competencies`. -/
def handleCall (agentId : List UInt8) (p : Pid) (tag : Tag) (s : State Pid Tag P) :
    Result Pid Tag P :=
  let agent := agentId.map fun b => Char.ofNat b.toNat
  request s (.caller p tag) .competencies
    (Term.ofString ("competency(".toList ++ agent ++ ", X)?".toList))

/-- The query of an envelope. It raises on an intent or an authority that is no map
and on a part that is no binary. -/
def authorizeQuery (envelope : Term) : Option Term := do
  let intent ← mapsGet "intent" envelope (.map .nil)
  let authority ← mapsGet "authority" envelope (.map .nil)
  let _context ← mapsGet "context" envelope (.map .nil)
  let agent ← mapsGet "agent_id" authority (Term.ofText "unknown")
  let action ← mapsGet "action" intent (Term.ofText "unknown")
  let resource ← mapsGet "resource" intent (Term.ofText "unknown")
  let agent ← binaryToList agent
  let action ← binaryToList action
  let resource ← binaryToList resource
  some (Term.ofString ("can_authorize(".toList ++ agent ++ ", ".toList ++ action ++ ", ".toList
    ++ resource ++ ")?".toList))

/-- `handle_cast` of `authorize`. -/
def handleAuthorize (entries : Term) (replyTo : Pid) (s : State Pid Tag P) : Result Pid Tag P :=
  match authorizeQuery (.map entries) with
  | some queryString => request s (.pid replyTo) .authorize queryString
  | none => .crash

/-- `handle_cast` of `query`. -/
def handleQuery (queryString : Term) (replyTo : Pid) (s : State Pid Tag P) : Result Pid Tag P :=
  request s (.pid replyTo) .generic queryString

/-- `parse_souffle_response/1`, with the result of `binary_to_term/1`: a pair of an
integer and a list, else `{error, parse_error}`. -/
def parseSouffleResponse (term : Option Term) : Term × Term :=
  match term with
  | some (.pair (.int queryId) results) =>
      if results.isList then (.int queryId, results) else (.atom "error", .atom "parse_error")
  | _ => (.atom "error", .atom "parse_error")

/-- `ReplyTo ! Message`, which raises `badarg` on a pair that names no registered
process of a node. -/
def send (replyTo : ReplyTo Pid Tag) (message : Message) : Option (Delivery Pid Tag) :=
  match replyTo with
  | .pid p => some (.message p message)
  | .caller _ _ => none

/-- `[Comp || [Comp] <- Results, is_atom(Comp)]`, which raises on an improper list. -/
def comprehend : Term → Option (List String)
  | .nil => some []
  | .cons (.cons (.atom name) .nil) rest => (comprehend rest).map (name :: ·)
  | .cons _ rest => comprehend rest
  | _ => none

/-- The verdict of `authorize`. -/
def verdict (results : Term) : Verdict :=
  if results = .cons (.atom "true") .nil then .ok
  else if results = .cons (.atom "false") .nil then .denied
  else .policyError

/-- `handle_query_result/3`. -/
def handleQueryResult (kind : Kind) (results : Term) (replyTo : ReplyTo Pid Tag) :
    Option (Delivery Pid Tag) :=
  match kind with
  | .authorize => send replyTo (.authorizeResult (verdict results))
  | .competencies =>
      match comprehend results with
      | some competencies => send replyTo (.competenciesResult competencies)
      | none => none
  | .generic => send replyTo (.queryResult results)

/-- `handle_info` of a response of the port: the first pattern also takes the pair of
a parse error, whose first half is no key. -/
def handleData [DecidableEq P] (decode : B → Option Term) (port : Option P) (data : B)
    (s : State Pid Tag P) : Result Pid Tag P :=
  if port = s.port then
    let (queryId, result) := parseSouffleResponse (decode data)
    match s.pendingQueries queryId with
    | some (replyTo, kind) =>
        match handleQueryResult kind result replyTo with
        | some delivery =>
            .noreply ⟨none, none, some delivery⟩
              { s with pendingQueries := Function.update s.pendingQueries queryId none }
        | none => .crash
    | none => .noreply Output.none s
  else .noreply Output.none s

/-- `handle_info` of a closed port. -/
def handleClosed (port : Option P) (s : State Pid Tag P) : Result Pid Tag P :=
  match port with
  | some _ => .stop
  | none => .noreply Output.none s

/-- One message. -/
def handle [DecidableEq P] (decode : B → Option Term) (s : State Pid Tag P) :
    Input Pid Tag P B → Result Pid Tag P
  | .getCompetencies agentId p tag => handleCall agentId p tag s
  | .authorize entries replyTo => handleAuthorize entries replyTo s
  | .query queryString replyTo => handleQuery queryString replyTo s
  | .data port data => handleData decode port data s
  | .closed port => handleClosed port s

inductive Status where
  | running
  | stopped
  | crashed
  deriving DecidableEq

/-- The process, with the state it has or had at last. -/
structure Server (Pid Tag P : Type*) where
  state : State Pid Tag P
  status : Status

def Server.start (port : Option P) : Server Pid Tag P := ⟨.init port, .running⟩

/-- One message to the process. -/
def step [DecidableEq P] (decode : B → Option Term) (server : Server Pid Tag P)
    (input : Input Pid Tag P B) : Output Pid Tag P × Server Pid Tag P :=
  match server.status with
  | .running =>
      match handle decode server.state input with
      | .noreply out s => (out, ⟨s, .running⟩)
      | .stop => (Output.none, ⟨server.state, .stopped⟩)
      | .crash => (Output.none, ⟨server.state, .crashed⟩)
  | _ => (Output.none, server)

end PolicyBridge

end SovereignBus
