import SovereignBus.Nif.Replay

/-!
The Erlang module `seb/runtime/src/seb_kernel_nif.erl` around the WAL NIF: its server, the
functions that call it, and what loading the library makes of them.

* `nifFuncs`, `api`, `stubs`: the functions of the library and those of the module, by name and
  arity.
* `Module`: which functions are native, the server and all handles. `loadNif`, `init`,
  `startLink` and `call` follow the source.
* `bareStep`: the library alone, without a server.
* `module_runs`: the server never starts, and every call has the outcome it has for the library
  alone, where each handle goes its own way.
-/

namespace SovereignBus

namespace WalNif

/-! ### The functions -/

/-- A function, by its name and its arity. -/
abbrev Fun := String × ℕ

/-- `nif_funcs` of the library. -/
def nifFuncs : List Fun :=
  [("init_kernel", 2), ("append_event", 4), ("rotate_segment", 3), ("verify_chain", 1),
    ("worm_flush", 1), ("get_state", 1), ("get_tip_hash", 1)]

/-- The exported functions of the module that call its server. -/
def api : List Fun :=
  [("init_kernel", 2), ("append_event", 4), ("rotate_segment", 3), ("verify_chain", 1),
    ("worm_flush", 1), ("get_state", 1), ("get_tip_hash", 1)]

/-- The functions that `handle_call` and `init` call, which raise `nif_not_loaded`. -/
def stubs : List Fun :=
  [("nif_init_kernel", 2), ("nif_append_event", 4), ("nif_rotate_segment", 3),
    ("nif_verify_chain", 1), ("nif_worm_flush", 1), ("nif_get_state", 1), ("nif_get_tip_hash", 1)]

def Request.name : Request → String
  | .change (.append _) => "append_event"
  | .change (.rotate _) => "rotate_segment"
  | .verifyChain _ => "verify_chain"
  | .wormFlush _ => "worm_flush"
  | .getState _ => "get_state"
  | .getTipHash _ => "get_tip_hash"

def Request.argv : Request → List Term
  | .change op => op.argv
  | .verifyChain argv => argv
  | .wormFlush argv => argv
  | .getState argv => argv
  | .getTipHash argv => argv

/-- A call of the module. In the arguments of a call on a handle, `Term.handle` is that handle. -/
inductive ApiCall where
  | initKernel (alloc : Bool) (argv : List Term)
  | onHandle (n : ℕ) (req : Request)

/-- The function that is called. -/
def ApiCall.function : ApiCall → Fun
  | .initKernel _ argv => ("init_kernel", argv.length)
  | .onHandle _ req => (req.name, req.argv.length)

/-- The function that the server calls for it. -/
def ApiCall.stub (c : ApiCall) : Fun := ("nif_" ++ c.function.1, c.function.2)

/-! ### The module -/

/-- What becomes of a call: a new handle, an answer of the library, or an exception, since there
is no such function, no server, or none any more. -/
inductive Outcome where
  | handle (n : ℕ)
  | answer (a : Answer)
  | undef
  | noproc
  | died

/-- The state of the module: its native functions, the handle of its server, if that runs, and
all handles there are. -/
structure Module where
  native : List Fun
  server : Option ℕ
  handles : List WalHandle

/-- A function of the library. A reference to no handle is turned down as such. -/
def nifCall (hs : List WalHandle) : ApiCall → Outcome × List WalHandle
  | .initKernel alloc argv =>
      match nifInitKernel alloc argv with
      | .ok h => (.handle hs.length, hs ++ [h])
      | .error reply => (.answer (.reply reply), hs)
  | .onHandle n req =>
      match hs[n]? with
      | none => (.answer (.reply .error), hs)
      | some h => (.answer (serve h req).1, hs.set n (serve h req).2)

/-- The answers of `load_nif`. -/
inductive Loaded where
  | ok
  | reload
  | error

/-- `load_nif`, which makes the functions of the library native if the module has them. It does
so once. -/
def Module.loadNif (m : Module) (found : Bool) : Loaded × Module :=
  if m.native ≠ [] then (.reload, m)
  else if found && nifFuncs.all (· ∈ api ++ stubs) then (.ok, { m with native := nifFuncs })
  else (.error, m)

/-- `init`, with the handle of the state if it succeeds. -/
def Module.init (m : Module) (found alloc : Bool) : Option ℕ × Module :=
  match m.loadNif found with
  | (.error, m) => (none, m)
  | (_, m) =>
      let genesis : ApiCall := .initKernel alloc [.int 0, .int 0]
      if genesis.stub ∈ m.native then
        match nifCall m.handles genesis with
        | (.handle n, hs) => (some n, { m with handles := hs })
        | (_, hs) => (none, { m with handles := hs })
      else (none, m)

/-- `start_link`, and whether it succeeds. -/
def Module.startLink (m : Module) (found alloc : Bool) : Bool × Module :=
  if m.server.isSome then (false, m)
  else
    match m.init found alloc with
    | (some n, m) => (true, { m with server := some n })
    | (none, m) => (false, m)

/-- A call of the module, from any process. -/
def Module.call (m : Module) (c : ApiCall) : Outcome × Module :=
  if c.function ∈ m.native then
    let r := nifCall m.handles c
    (r.1, { m with handles := r.2 })
  else if c.function ∈ api then
    match m.server with
    | none => (.noproc, m)
    | some _ =>
        if c.stub ∈ m.native then
          let r := nifCall m.handles c
          (r.1, { m with handles := r.2 })
        else (.died, { m with server := none })
  else (.undef, m)

/-- What happens to the module: a supervisor starts its server, with a library that is found or
not, or somebody calls it. -/
inductive Event where
  | start (found alloc : Bool)
  | call (c : ApiCall)

inductive Seen where
  | started (ok : Bool)
  | outcome (o : Outcome)

def Module.step (m : Module) : Event → Seen × Module
  | .start found alloc =>
      let r := m.startLink found alloc
      (.started r.1, r.2)
  | .call c =>
      let r := m.call c
      (.outcome r.1, r.2)

/-- The module before anything has happened. -/
def fresh : Module := ⟨[], none, []⟩

/-! ### The library alone -/

/-- The library: there are no handles before it is loaded, and it is loaded where it is found. No
start succeeds, and calls are those of its functions. -/
def bareStep : Option (List WalHandle) → Event → Seen × Option (List WalHandle)
  | none, .start found _ => (.started false, if found then some [] else none)
  | some hs, .start _ _ => (.started false, some hs)
  | none, .call c => (.outcome (if c.function ∈ api then .noproc else .undef), none)
  | some hs, .call c =>
      if c.function ∈ nifFuncs then
        let r := nifCall hs c
        (.outcome r.1, some r.2)
      else (.outcome .undef, some hs)

/-- The module around the library. -/
def around : Option (List WalHandle) → Module
  | none => fresh
  | some hs => ⟨nifFuncs, none, hs⟩

lemma nifFuncs_all : nifFuncs.all (· ∈ api ++ stubs) = true := by decide

/-- What `init` calls is not native. -/
lemma genesis_stub (alloc : Bool) (argv : List Term) :
    (ApiCall.initKernel alloc argv).stub ∉ nifFuncs := by
  have hname : ∀ f ∈ nifFuncs, f.1 ≠ "nif_init_kernel" := by decide
  exact fun h => hname _ h rfl

/-- Loading makes the library native, where it is found, and `init` fails behind it. -/
lemma init_around (lib : Option (List WalHandle)) (found alloc : Bool) :
    (around lib).init found alloc = (none, around (bareStep lib (.start found alloc)).2) := by
  have hstub := genesis_stub alloc [.int 0, .int 0]
  cases lib with
  | none =>
      cases found with
      | false => rfl
      | true =>
          have hload : fresh.loadNif true = (.ok, around (some [])) := by
            rw [Module.loadNif, nifFuncs_all]
            rfl
          rw [around, Module.init, hload]
          exact if_neg hstub
  | some hs =>
      have hload : (around (some hs)).loadNif found = (.reload, around (some hs)) :=
        if_pos (List.cons_ne_nil _ _)
      rw [Module.init, hload]
      exact if_neg hstub

lemma call_around (lib : Option (List WalHandle)) (c : ApiCall) :
    .outcome ((around lib).call c).1 = (bareStep lib (.call c)).1
      ∧ ((around lib).call c).2 = around (bareStep lib (.call c)).2 := by
  cases lib with
  | none =>
      have hnative : c.function ∉ fresh.native := List.not_mem_nil
      rw [around, Module.call, if_neg hnative, bareStep]
      split_ifs <;> exact ⟨rfl, rfl⟩
  | some hs =>
      rw [around, Module.call, bareStep]
      by_cases hnative : c.function ∈ nifFuncs
      · rw [if_pos hnative, if_pos hnative]
        exact ⟨rfl, rfl⟩
      · -- all that calls the server is native
        have hapi : c.function ∉ api := hnative
        rw [if_neg hnative, if_neg hapi, if_neg hnative]
        exact ⟨rfl, rfl⟩

lemma step_around (lib : Option (List WalHandle)) (e : Event) :
    (around lib).step e = ((bareStep lib e).1, around (bareStep lib e).2) := by
  cases e with
  | start found alloc =>
      have hserver : (around lib).server = none := by cases lib <;> rfl
      rw [Module.step, Module.startLink, hserver, init_around]
      cases lib <;> rfl
  | call c =>
      obtain ⟨hout, hmod⟩ := call_around lib c
      rw [Module.step, hout, hmod]

/-! ### Runs -/

/-- What happens to the library alone. -/
abbrev bareRun (lib : Option (List WalHandle)) (events : List Event) :
    List (Event × Seen) × Option (List WalHandle) :=
  Machine.exec bareStep lib events

/-- A run of the module. -/
abbrev moduleRun (events : List Event) : List (Event × Seen) × Module :=
  Machine.exec Module.step fresh events

lemma moduleRun_eq (events : List Event) :
    moduleRun events = ((bareRun none events).1, around (bareRun none events).2) :=
  Machine.exec_map Module.step around step_around none events

/-- The calls of a run that reach the library with a handle. -/
def requestOf (n : ℕ) : Event → Option Request
  | .call (.onHandle k req) =>
      if k = n ∧ (ApiCall.onHandle k req).function ∈ nifFuncs then some req else none
  | _ => none

lemma requestOf_eq_some {n : ℕ} {c : ApiCall} {req : Request} :
    requestOf n (.call c) = some req ↔ c = .onHandle n req ∧ c.function ∈ nifFuncs := by
  cases c with
  | initKernel alloc argv => simp [requestOf]
  | onHandle k req' =>
      rw [requestOf]
      split_ifs with h
      · simp [h.1, h.1 ▸ h.2]
      · simp only [ApiCall.onHandle.injEq, false_iff]
        rintro ⟨⟨rfl, rfl⟩, hnative⟩
        exact h ⟨rfl, hnative⟩

lemma nifCall_getElem?_of_ne {hs : List WalHandle} {n : ℕ} {h : WalHandle} (hn : hs[n]? = some h)
    {c : ApiCall} (hne : ∀ req, c ≠ .onHandle n req) : (nifCall hs c).2[n]? = some h := by
  cases c with
  | initKernel alloc argv =>
      rw [nifCall]
      split
      · rwa [List.getElem?_append_left (List.getElem?_eq_some_iff.mp hn).1]
      · exact hn
  | onHandle k req =>
      have hkn : k ≠ n := fun heq => hne req (heq ▸ rfl)
      rw [nifCall]
      split
      · exact hn
      · rwa [List.getElem?_set_ne hkn]

/-- What a step makes of a handle. -/
lemma bareStep_getElem? {hs : List WalHandle} {n : ℕ} {h : WalHandle} (hn : hs[n]? = some h)
    (e : Event) : ∃ hs', (bareStep (some hs) e).2 = some hs'
      ∧ hs'[n]? = some (run h ([e].filterMap (requestOf n))).2 := by
  cases e with
  | start found alloc => exact ⟨hs, rfl, hn⟩
  | call c =>
      by_cases hnative : c.function ∈ nifFuncs
      · refine ⟨(nifCall hs c).2, by rw [bareStep, if_pos hnative], ?_⟩
        by_cases hc : ∃ req, c = .onHandle n req
        · obtain ⟨req, rfl⟩ := hc
          have hreq : requestOf n (.call (.onHandle n req)) = some req := if_pos ⟨rfl, hnative⟩
          have hlt := (List.getElem?_eq_some_iff.mp hn).1
          rw [List.filterMap_cons_some hreq, nifCall, hn]
          simp [hlt, run, Machine.exec]
        · have hnone : requestOf n (.call c) = none :=
            Option.eq_none_iff_forall_ne_some.mpr fun req h => hc ⟨req, (requestOf_eq_some.mp h).1⟩
          rw [List.filterMap_cons_none hnone]
          exact nifCall_getElem?_of_ne hn fun req heq => hc ⟨req, heq⟩
      · have hnone : requestOf n (.call c) = none :=
          Option.eq_none_iff_forall_ne_some.mpr fun req h => hnative (requestOf_eq_some.mp h).2
        rw [List.filterMap_cons_none hnone]
        exact ⟨hs, by rw [bareStep, if_neg hnative], hn⟩

/-- A handle is where the calls on it alone have led it. -/
lemma bareRun_getElem? {hs : List WalHandle} {n : ℕ} {h : WalHandle} (hn : hs[n]? = some h)
    (events : List Event) : ∃ hs', (bareRun (some hs) events).2 = some hs'
      ∧ hs'[n]? = some (run h (events.filterMap (requestOf n))).2 := by
  induction events using List.reverseRecOn with
  | nil => exact ⟨hs, rfl, hn⟩
  | append_singleton events e ih =>
      obtain ⟨hs', hlib, hn'⟩ := ih
      obtain ⟨hs'', hlib', hn''⟩ := bareStep_getElem? hn' e
      refine ⟨hs'', ?_, ?_⟩
      · rw [bareRun, Machine.exec_concat, hlib]
        exact hlib'
      · rw [hn'', List.filterMap_append, run, run, run, Machine.exec_append]

lemma not_started (events : List Event) : ∀ found alloc ok,
    (.start found alloc, .started ok) ∈ (bareRun none events).1 → ok = false := by
  refine Machine.exec_induction bareStep (C := fun _ => True)
    (P := fun hist _ => ∀ found alloc ok, (.start found alloc, .started ok) ∈ hist → ok = false)
    (by simp) (fun hist lib e _ ih found alloc ok hmem => ?_) events fun _ _ => trivial
  rcases List.mem_append.mp hmem with hmem | hmem
  · exact ih found alloc ok hmem
  · obtain ⟨rfl, hout⟩ := Prod.ext_iff.mp (List.mem_singleton.mp hmem)
    have hfalse : (bareStep lib (.start found alloc)).1 = .started false := by cases lib <;> rfl
    exact Seen.started.inj (hout.trans hfalse)

/-- The module is the library. Whatever starts of the server and calls of the module come in, none
of the starts succeeds, and every call has the outcome that it has for the library alone: there is
no server to call before the library is found, and none is asked from then on. Every handle is
where the calls on it alone have led it, whatever else is called. -/
theorem module_runs (events : List Event) :
    (moduleRun events).1 = (bareRun none events).1
      ∧ (∀ found alloc ok, (.start found alloc, .started ok) ∈ (moduleRun events).1 → ok = false)
      ∧ ∀ n h rest, (moduleRun events).2.handles[n]? = some h →
        (moduleRun (events ++ rest)).2.handles[n]?
          = some (run h (rest.filterMap (requestOf n))).2 := by
  refine ⟨by rw [moduleRun_eq], by rw [moduleRun_eq]; exact not_started events, ?_⟩
  intro n h rest hn
  rw [moduleRun_eq] at hn ⊢
  rw [bareRun, Machine.exec_append]
  match hlib : (bareRun none events).2 with
  | none => simp [hlib, around, fresh] at hn
  | some hs =>
      rw [hlib] at hn
      have hn' : hs[n]? = some h := hn
      obtain ⟨hs', hlib', hend⟩ := bareRun_getElem? hn' rest
      change (around (bareRun (some hs) rest).2).handles[n]? = _
      rw [hlib']
      exact hend

end WalNif

end SovereignBus
