import SovereignBus.Reasoning.Rendering

/-!
What the identifier and the signature of a reasoning trace are worth: `finalize`, `sign` and
`verify` of `seb/reasoning/src/trace.rs`, over every run of the calls that change a trace.

* `TraceOp`, `made`: the calls and a trace they make. `address` is the identifier that
  `finalize` gives to a trace.
* `Addressed`: which content the identifier names, and what the signature says of it.
* `addressed_run`: a signature is anybody's, and it stays good for whatever a trace becomes.
-/

namespace SovereignBus

namespace Reasoning

namespace Rendering

variable (c : Codec) {Value : Type}

/-! ### Signing -/

/-- `set_query`. -/
def ReasoningTrace.setQuery (t : ReasoningTrace Value) (query : Text) : ReasoningTrace Value :=
  { t with initiatingQuery := some query }

/-- `set_mode`. -/
def ReasoningTrace.setMode (t : ReasoningTrace Value) (mode : Text) : ReasoningTrace Value :=
  { t with mode := mode }

/-- The bytes of an Ed25519 key. -/
abbrev KeyBytes := Vector UInt8 32

/-- `sign`, which does not use the key. -/
def ReasoningTrace.sign (t : ReasoningTrace c.Value) (_key : KeyBytes) :
    ReasoningTrace c.Value :=
  let t := ({ t with signature := none } : ReasoningTrace c.Value).finalize c
  { t with signature := some (Utf8.encode (hashHex c t.traceId)) }

/-- `verify`, which does not use the key either. -/
def ReasoningTrace.verify (t : ReasoningTrace Value) (_key : KeyBytes) : Bool :=
  match t.signature with
  | none => false
  | some s => decide (s.length > 0)

/-- The calls that change a trace. -/
inductive TraceOp (Value : Type) where
  | build (op : BuildOp Value)
  | setQuery (query : Text)
  | setMode (mode : Text)
  | sign (key : KeyBytes)

def TraceOp.apply (t : ReasoningTrace c.Value) : TraceOp c.Value → ReasoningTrace c.Value
  | .build op => op.apply c t
  | .setQuery query => t.setQuery query
  | .setMode mode => t.setMode mode
  | .sign key => t.sign c key

/-- A trace after calls on a new one. -/
def made (agentId competency : Text) (sequenceNo : UInt64) (now : ℤ)
    (ops : List (TraceOp c.Value)) : ReasoningTrace c.Value :=
  ops.foldl (TraceOp.apply c) (.new agentId competency sequenceNo now)

def TraceOp.signs : TraceOp Value → Bool
  | .sign _ => true
  | _ => false

/-- The calls that compute the identifier. -/
def TraceOp.addresses : TraceOp Value → Bool
  | .build .finalize => true
  | .sign _ => true
  | _ => false

/-- The calls that add to a trace. -/
def TraceOp.adds : TraceOp Value → Bool
  | .build (.addStep _ _) => true
  | .build (.addParent _) => true
  | _ => false

/-- The call with another key. -/
def TraceOp.withKey (key : KeyBytes) : TraceOp Value → TraceOp Value
  | .sign _ => .sign key
  | op => op

/-- What `finalize` hashes. -/
def ReasoningTrace.content (t : ReasoningTrace Value) : ReasoningTrace Value :=
  { t with traceId := [], signature := none }

/-- The identifier that `finalize` gives. -/
def address (t : ReasoningTrace c.Value) : Text := hashHex c (c.traceJson t.content)

/-- The steps and the relations of a trace. -/
def ReasoningTrace.size (t : ReasoningTrace Value) : ℕ :=
  t.steps.length + t.parentRelations.length

/-! ### One call -/

variable {c} {t : ReasoningTrace c.Value} {op : TraceOp c.Value}

lemma length_signature_pos (text : Text) : 0 < (Utf8.encode (hashHex c text)).length := by
  refine Nat.pos_of_ne_zero fun h => ?_
  have hlen := congrArg List.length (Utf8.encode_eq_nil.mp h)
  simp [hashHex] at hlen

lemma TraceOp.apply_traceId (h : op.addresses = false) : (op.apply c t).traceId = t.traceId := by
  cases op with
  | build b => cases b <;> first | rfl | cases h
  | setQuery query => rfl
  | setMode mode => rfl
  | sign key => cases h

/-- The identifier that is computed is that of the trace before the call. -/
lemma TraceOp.apply_addresses (h : op.addresses = true) :
    (op.apply c t).traceId = address c t := by
  cases op with
  | build b => cases b <;> first | rfl | cases h
  | setQuery query => cases h
  | setMode mode => cases h
  | sign key => rfl

lemma TraceOp.apply_signature (h : op.signs = false) :
    (op.apply c t).signature = t.signature := by
  cases op with
  | build b => cases b <;> rfl
  | setQuery query => rfl
  | setMode mode => rfl
  | sign key => cases h

lemma TraceOp.verify_apply (key : KeyBytes) :
    (op.apply c t).verify key = (op.signs || t.verify key) := by
  cases hop : op.signs with
  | false => rw [ReasoningTrace.verify, TraceOp.apply_signature hop, Bool.false_or,
      ReasoningTrace.verify]
  | true =>
      cases op with
      | sign key' => exact decide_eq_true (length_signature_pos _)
      | build b => cases b <;> cases hop
      | setQuery query => cases hop
      | setMode mode => cases hop

/-- Nothing is taken from a trace, and what is added stays. -/
lemma TraceOp.size_apply :
    (op.apply c t).size = t.size + if op.adds then 1 else 0 := by
  cases op with
  | build b =>
      cases b with
      | addStep step now =>
          simp [apply, BuildOp.apply, ReasoningTrace.addStep, ReasoningTrace.size, adds]
          omega
      | addParent relation =>
          simp [apply, BuildOp.apply, ReasoningTrace.addParent, ReasoningTrace.size, adds]
          omega
      | finalize => rfl
  | setQuery query => rfl
  | setMode mode => rfl
  | sign key => rfl

/-! ### Runs -/

variable {ops : List (TraceOp c.Value)}

lemma foldl_traceId (h : ∀ op ∈ ops, op.addresses = false) :
    (ops.foldl (TraceOp.apply c) t).traceId = t.traceId := by
  induction ops generalizing t with
  | nil => rfl
  | cons op ops ih =>
      rw [List.foldl_cons, ih fun o ho => h o (List.mem_cons_of_mem _ ho),
        TraceOp.apply_traceId (h op List.mem_cons_self)]

lemma foldl_signature (h : ∀ op ∈ ops, op.signs = false) :
    (ops.foldl (TraceOp.apply c) t).signature = t.signature := by
  induction ops generalizing t with
  | nil => rfl
  | cons op ops ih =>
      rw [List.foldl_cons, ih fun o ho => h o (List.mem_cons_of_mem _ ho),
        TraceOp.apply_signature (h op List.mem_cons_self)]

lemma verify_foldl (key : KeyBytes) :
    (ops.foldl (TraceOp.apply c) t).verify key = (ops.any TraceOp.signs || t.verify key) := by
  induction ops generalizing t with
  | nil => rfl
  | cons op ops ih =>
      rw [List.foldl_cons, ih, TraceOp.verify_apply, List.any_cons, ← Bool.or_assoc,
        Bool.or_comm op.signs]

lemma size_foldl :
    (ops.foldl (TraceOp.apply c) t).size = t.size + ops.countP TraceOp.adds := by
  induction ops generalizing t with
  | nil => rfl
  | cons op ops ih =>
      rw [List.foldl_cons, ih, TraceOp.size_apply, List.countP_cons]
      omega

/-- Keys make no difference. -/
lemma foldl_withKey (key : KeyBytes) :
    (ops.map (TraceOp.withKey key)).foldl (TraceOp.apply c) t
      = ops.foldl (TraceOp.apply c) t := by
  induction ops generalizing t with
  | nil => rfl
  | cons op ops ih =>
      have hop : (op.withKey key).apply c t = op.apply c t := by cases op <;> rfl
      rw [List.map_cons, List.foldl_cons, List.foldl_cons, hop, ih]

/-- What the identifier and the signature say after a run, where `start` is the trace made by the
calls so far. The identifier names the content at the last call that computed it, and whatever is
added since makes the content another one. A trace verifies under every key as soon as it was
signed under any, whatever was done to it since, and its signature is what the identifier at that
time says without a key. -/
structure Addressed (start : List (TraceOp c.Value) → ReasoningTrace c.Value)
    (ops : List (TraceOp c.Value)) : Prop where
  verify : ∀ key, (start ops).verify key = ops.any TraceOp.signs
  keyless : ∀ key, start (ops.map (TraceOp.withKey key)) = start ops
  unaddressed : (∀ op ∈ ops, op.addresses = false) → (start ops).traceId = []
  addressed : ∀ before op after, ops = before ++ op :: after → op.addresses = true →
    (∀ o ∈ after, o.addresses = false) → (start ops).traceId = address c (start before)
  grown : ∀ before after, ops = before ++ after → (∃ o ∈ after, o.adds = true) →
    (start before).content ≠ (start ops).content
  signature : ∀ before key after, ops = before ++ .sign key :: after →
    (∀ o ∈ after, o.signs = false) →
    (start ops).signature = some (Utf8.encode (hashHex c (address c (start before))))

/-- Every run of calls on a new trace. -/
theorem addressed_run (agentId competency : Text) (sequenceNo : UInt64) (now : ℤ)
    (ops : List (TraceOp c.Value)) :
    Addressed (made c agentId competency sequenceNo now) ops := by
  refine ⟨fun key => ?_, fun key => foldl_withKey key, fun h => foldl_traceId h, ?_, ?_, ?_⟩
  · rw [made, verify_foldl]
    exact Bool.or_false _
  · rintro before op after rfl hop hafter
    rw [made, List.foldl_append, List.foldl_cons, foldl_traceId hafter,
      TraceOp.apply_addresses hop, made]
  · rintro before after rfl hadds heq
    have hsize := congrArg ReasoningTrace.size heq
    have hcount : 0 < after.countP TraceOp.adds := List.countP_pos_iff.mpr hadds
    have hgrown : (made c agentId competency sequenceNo now (before ++ after)).size
        = (made c agentId competency sequenceNo now before).size + after.countP TraceOp.adds := by
      rw [made, List.foldl_append, size_foldl, made]
    change (made c agentId competency sequenceNo now before).size
      = (made c agentId competency sequenceNo now (before ++ after)).size at hsize
    omega
  · rintro before key after rfl hafter
    rw [made, List.foldl_append, List.foldl_cons, foldl_signature hafter, made]
    rfl

end Rendering

end Reasoning

end SovereignBus
