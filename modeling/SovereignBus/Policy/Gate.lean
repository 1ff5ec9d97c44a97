import Mathlib

/-!
The authorization gate of `seb/runtime/src/seb_policy.dl`.

* `FactBase`: the input relations, and the primitives the Erlang port provides.
* `VerifiedAgent` to `KernelAuthorize`: the strata, one constructor a rule, so
  that each relation is the least one its rules allow; a negated relation is
  complete before it is used.
* `Sound`: what an authorization is to mean. `gate_sound_iff` says when it does.
* `FactTables`: finite fact bases, on which the gate is decided.
-/

namespace SovereignBus

namespace Policy

abbrev Symbol := String

/-- The `unsigned` of the engine. -/
abbrev Unsigned := UInt32

/-- A row of `event_header`. -/
structure HeaderRow where
  offset : Unsigned
  agent : Symbol
  etype : Unsigned
  prevHash : Symbol
  eventHash : Symbol
  sig : Symbol
  payloadHash : Symbol
deriving DecidableEq

/-- A row of `event_schema`. -/
structure SchemaRow where
  etype : Unsigned
  schemaHash : Symbol
  reqCap : Symbol
  weight : Unsigned
deriving DecidableEq

/-- The input facts and the external primitives. -/
structure FactBase where
  agentCompetency : Set (Symbol × Symbol)
  agentStatus : Set (Symbol × Symbol)
  eventSchema : Set SchemaRow
  eventHeader : Set HeaderRow
  bifrostConfirmed : Set Unsigned
  ed25519Verify : Symbol → Symbol → Symbol → Prop
  latticeVerify : Symbol → Symbol → Prop
  treasuryBalance : Symbol → Unsigned → Prop

/-- The facts of `capability`. -/
def capability : List (ℤ × Symbol) :=
  [(1, "execute"), (1, "write"), (2, "read"), (2, "verify"), (3, "observe"),
    (4, "vacuum_collapse")]

/-- The rules that bridge actors to agents: the head, and the body. -/
def bridgeRules : List ((Symbol × Symbol) × ℤ × Symbol) :=
  [(("bob", "execute"), 1, "execute"), (("bob", "write"), 1, "write"),
    (("metatron", "read"), 2, "read"), (("metatron", "verify"), 2, "verify"),
    (("edaulc", "observe"), 3, "observe"),
    (("autonomous", "vacuum_collapse"), 4, "vacuum_collapse")]

/-- The event type of `SOVEREIGN_ROOT`. -/
def sovereignRoot : Unsigned := 0xFFFF

/-- The weight of an event that has to be covered. -/
def maxWeight : Unsigned := 0xFFFFFFFF

variable (db : FactBase)

inductive AgentCompetency : Symbol → Symbol → Prop where
  | fact {a c : Symbol} (h : (a, c) ∈ db.agentCompetency) : AgentCompetency a c
  | bridge {a c : Symbol} {body : ℤ × Symbol} (h : ((a, c), body) ∈ bridgeRules)
      (hbody : body ∈ capability) : AgentCompetency a c

/-- Stratum 1: plasma gate and WORM integrity. -/
inductive VerifiedAgent : Symbol → Unsigned → Prop where
  | rule {h : HeaderRow} (header : h ∈ db.eventHeader)
      (signature : db.ed25519Verify h.agent h.eventHash h.sig)
      (lattice : db.latticeVerify h.payloadHash h.eventHash)
      (confirmed : h.offset ∈ db.bifrostConfirmed) : VerifiedAgent h.agent h.offset

/-- Stratum 2: competency routing. -/
inductive Authorized : Symbol → Unsigned → Prop where
  | rule {a : Symbol} {h : HeaderRow} {s : SchemaRow} (verified : VerifiedAgent db a h.offset)
      (header : h ∈ db.eventHeader) (schema : s ∈ db.eventSchema) (etype : s.etype = h.etype)
      (competency : AgentCompetency db a s.reqCap) (active : (a, "active") ∈ db.agentStatus)
      (revoked : (a, "revoked") ∉ db.agentStatus) : Authorized a h.offset

/-- Stratum 3: constitutional gate. -/
inductive ConstitutionDenied : Symbol → Unsigned → Symbol → Prop where
  | capabilityMismatch {h : HeaderRow} {s : SchemaRow} (header : h ∈ db.eventHeader)
      (schema : s ∈ db.eventSchema) (etype : s.etype = h.etype)
      (competency : ¬ AgentCompetency db h.agent s.reqCap) :
      ConstitutionDenied h.agent h.offset "capability_mismatch"
  | requiresVacuumCollapse {h : HeaderRow} (header : h ∈ db.eventHeader)
      (etype : h.etype = sovereignRoot)
      (competency : ¬ AgentCompetency db h.agent "vacuum_collapse") :
      ConstitutionDenied h.agent h.offset "requires_vacuum_collapse"

/-- Stratum 4: fiscal gate. The agent of the first rule is in no atom of its body. -/
inductive FiscalOk : Symbol → Unsigned → Prop where
  | light {a : Symbol} {h : HeaderRow} {s : SchemaRow} (header : h ∈ db.eventHeader)
      (schema : s ∈ db.eventSchema) (etype : s.etype = h.etype) (weight : s.weight ≠ maxWeight) :
      FiscalOk a h.offset
  | covered {a : Symbol} {h : HeaderRow} {s : SchemaRow} {b : Unsigned}
      (header : h ∈ db.eventHeader) (schema : s ∈ db.eventSchema) (etype : s.etype = h.etype)
      (weight : s.weight = maxWeight) (balance : db.treasuryBalance a b) (covers : s.weight ≤ b) :
      FiscalOk a h.offset

/-- Stratum 5: final authorization gate. -/
inductive KernelAuthorize : Symbol → Unsigned → Prop where
  | rule {a : Symbol} {o : Unsigned} (authorized : Authorized db a o) (fiscal : FiscalOk db a o)
      (constitution : ∀ reason, ¬ ConstitutionDenied db a o reason) : KernelAuthorize a o

/-! ### What an authorization means -/

/-- The agent's own events at the offset, with a row of their type. -/
def Declares (a : Symbol) (o : Unsigned) (s : SchemaRow) : Prop :=
  s ∈ db.eventSchema ∧ ∃ h ∈ db.eventHeader, h.agent = a ∧ h.offset = o ∧ h.etype = s.etype

/-- The agent's balance is at least the weight. -/
def Covers (a : Symbol) (w : Unsigned) : Prop := ∃ b, db.treasuryBalance a b ∧ w ≤ b

/-- What the gate vouches for. -/
structure Sound (a : Symbol) (o : Unsigned) : Prop where
  verified : ∃ h ∈ db.eventHeader, h.agent = a ∧ h.offset = o
    ∧ db.ed25519Verify a h.eventHash h.sig ∧ db.latticeVerify h.payloadHash h.eventHash
  confirmed : o ∈ db.bifrostConfirmed
  active : (a, "active") ∈ db.agentStatus
  notRevoked : (a, "revoked") ∉ db.agentStatus
  capabilities : ∀ s, Declares db a o s → AgentCompetency db a s.reqCap
  vacuumCollapse : ∀ h ∈ db.eventHeader, h.agent = a → h.offset = o → h.etype = sovereignRoot →
    AgentCompetency db a "vacuum_collapse"
  covered : ∀ s, Declares db a o s → s.weight = maxWeight → Covers db a s.weight

/-- The way round the fiscal gate: the agent passes the other gates, declares an
event of the full weight that its balance does not cover, and a header at the
offset, its own or another's, is of a type with a row of another weight. -/
structure Undercovered (a : Symbol) (o : Unsigned) : Prop where
  authorized : Authorized db a o
  constitution : ∀ reason, ¬ ConstitutionDenied db a o reason
  heavy : ∃ s, Declares db a o s ∧ s.weight = maxWeight
  uncovered : ¬ Covers db a maxWeight
  light : ∃ h ∈ db.eventHeader, h.offset = o ∧ ∃ s ∈ db.eventSchema,
    s.etype = h.etype ∧ s.weight ≠ maxWeight

/-! ### The strata -/

lemma agentCompetency_iff {a c : Symbol} :
    AgentCompetency db a c
      ↔ (a, c) ∈ db.agentCompetency ∨ ∃ r ∈ bridgeRules, r.1 = (a, c) ∧ r.2 ∈ capability := by
  constructor
  · rintro (h | ⟨h, hbody⟩)
    · exact .inl h
    · exact .inr ⟨_, h, rfl, hbody⟩
  · rintro (h | ⟨⟨head, body⟩, h, hhead, hbody⟩)
    · exact .fact h
    · obtain rfl : head = (a, c) := hhead
      exact .bridge h hbody

lemma verifiedAgent_iff {a : Symbol} {o : Unsigned} :
    VerifiedAgent db a o ↔ o ∈ db.bifrostConfirmed
      ∧ ∃ h ∈ db.eventHeader, h.agent = a ∧ h.offset = o
        ∧ db.ed25519Verify a h.eventHash h.sig ∧ db.latticeVerify h.payloadHash h.eventHash := by
  constructor
  · rintro ⟨header, signature, lattice, confirmed⟩
    exact ⟨confirmed, _, header, rfl, rfl, signature, lattice⟩
  · rintro ⟨confirmed, h, header, rfl, rfl, signature, lattice⟩
    exact .rule header signature lattice confirmed

lemma authorized_iff {a : Symbol} {o : Unsigned} :
    Authorized db a o ↔ VerifiedAgent db a o ∧ (a, "active") ∈ db.agentStatus
      ∧ (a, "revoked") ∉ db.agentStatus
      ∧ ∃ h ∈ db.eventHeader, h.offset = o
        ∧ ∃ s ∈ db.eventSchema, s.etype = h.etype ∧ AgentCompetency db a s.reqCap := by
  constructor
  · rintro ⟨verified, header, schema, etype, competency, active, revoked⟩
    exact ⟨verified, active, revoked, _, header, rfl, _, schema, etype, competency⟩
  · rintro ⟨verified, active, revoked, h, header, rfl, s, schema, etype, competency⟩
    exact .rule verified header schema etype competency active revoked

/-- An agent is denied when it lacks a capability that its own event requires. -/
lemma constitutionDenied_iff {a : Symbol} {o : Unsigned} :
    (∃ reason, ConstitutionDenied db a o reason)
      ↔ ∃ h ∈ db.eventHeader, h.agent = a ∧ h.offset = o
        ∧ ((∃ s ∈ db.eventSchema, s.etype = h.etype ∧ ¬ AgentCompetency db a s.reqCap)
          ∨ h.etype = sovereignRoot ∧ ¬ AgentCompetency db a "vacuum_collapse") := by
  constructor
  · rintro ⟨reason, ⟨header, schema, etype, competency⟩ | ⟨header, etype, competency⟩⟩
    · exact ⟨_, header, rfl, rfl, .inl ⟨_, schema, etype, competency⟩⟩
    · exact ⟨_, header, rfl, rfl, .inr ⟨etype, competency⟩⟩
  · rintro ⟨h, header, rfl, rfl, ⟨s, schema, etype, competency⟩ | ⟨etype, competency⟩⟩
    · exact ⟨_, .capabilityMismatch header schema etype competency⟩
    · exact ⟨_, .requiresVacuumCollapse header etype competency⟩

lemma fiscalOk_iff {a : Symbol} {o : Unsigned} :
    FiscalOk db a o ↔ ∃ h ∈ db.eventHeader, h.offset = o
      ∧ ∃ s ∈ db.eventSchema, s.etype = h.etype
        ∧ (s.weight ≠ maxWeight ∨ s.weight = maxWeight ∧ Covers db a s.weight) := by
  constructor
  · rintro (⟨header, schema, etype, weight⟩ | ⟨header, schema, etype, weight, balance, covers⟩)
    · exact ⟨_, header, rfl, _, schema, etype, .inl weight⟩
    · exact ⟨_, header, rfl, _, schema, etype, .inr ⟨weight, _, balance, covers⟩⟩
  · rintro ⟨h, header, rfl, s, schema, etype, weight | ⟨weight, b, balance, covers⟩⟩
    · exact .light header schema etype weight
    · exact .covered header schema etype weight balance covers

lemma kernelAuthorize_iff {a : Symbol} {o : Unsigned} :
    KernelAuthorize db a o ↔ Authorized db a o ∧ FiscalOk db a o
      ∧ ¬ ∃ reason, ConstitutionDenied db a o reason := by
  rw [not_exists]
  exact ⟨fun ⟨authorized, fiscal, constitution⟩ => ⟨authorized, fiscal, constitution⟩,
    fun ⟨authorized, fiscal, constitution⟩ => ⟨authorized, fiscal, constitution⟩⟩

/-! ### Soundness -/

variable {db}

/-- The constitutional gate sees every event of the agent and every row of its
type. -/
lemma competency_of_not_denied {a : Symbol} {o : Unsigned}
    (h : ∀ reason, ¬ ConstitutionDenied db a o reason) {s : SchemaRow} (hs : Declares db a o s) :
    AgentCompetency db a s.reqCap := by
  obtain ⟨schema, row, header, rfl, rfl, etype⟩ := hs
  by_contra competency
  exact h _ (.capabilityMismatch header schema etype.symm competency)

/-- Behind the first three strata only the balance is open. -/
lemma Authorized.sound {a : Symbol} {o : Unsigned} (hauth : Authorized db a o)
    (hdenied : ∀ reason, ¬ ConstitutionDenied db a o reason)
    (hcovered : ∀ s, Declares db a o s → s.weight = maxWeight → Covers db a s.weight) :
    Sound db a o := by
  obtain ⟨hverified, hactive, hrevoked, -⟩ := (authorized_iff db).mp hauth
  obtain ⟨hconfirmed, hheader⟩ := (verifiedAgent_iff db).mp hverified
  refine ⟨hheader, hconfirmed, hactive, hrevoked, fun s hs => competency_of_not_denied hdenied hs,
    fun h header hagent hoffset etype => ?_, hcovered⟩
  subst hagent hoffset
  by_contra competency
  exact hdenied _ (.requiresVacuumCollapse header etype competency)

/-- The gate vouches for an agent at an offset exactly when it cannot be got round
there. -/
theorem gate_sound_iff (db : FactBase) (a : Symbol) (o : Unsigned) :
    (KernelAuthorize db a o → Sound db a o) ↔ ¬ Undercovered db a o := by
  constructor
  · rintro h ⟨hauth, hdenied, ⟨s, hs, hheavy⟩, huncovered, hrow⟩
    obtain ⟨row, header, rfl, s', schema, etype, hlight⟩ := hrow
    have hsound := h ⟨hauth, .light header schema etype hlight, hdenied⟩
    exact huncovered (hheavy ▸ hsound.covered s hs hheavy)
  · rintro h ⟨hauth, hfiscal, hdenied⟩
    refine hauth.sound hdenied fun s hs hheavy => ?_
    by_contra huncovered
    rw [hheavy] at huncovered
    obtain ⟨row, header, hoffset, s', schema, etype, hlight | ⟨hweight, hcovers⟩⟩ :=
      (fiscalOk_iff db).mp hfiscal
    · exact h ⟨hauth, hdenied, ⟨s, hs, hheavy⟩, huncovered,
        row, header, hoffset, s', schema, etype, hlight⟩
    · exact huncovered (hweight ▸ hcovers)

/-! ### Finite fact bases -/

/-- The tables of a fact base. -/
structure FactTables where
  agentCompetency : List (Symbol × Symbol)
  agentStatus : List (Symbol × Symbol)
  eventSchema : List SchemaRow
  eventHeader : List HeaderRow
  bifrostConfirmed : List Unsigned
  ed25519Verify : Symbol → Symbol → Symbol → Bool
  latticeVerify : Symbol → Symbol → Bool
  treasuryBalance : List (Symbol × Unsigned)

def FactTables.base (t : FactTables) : FactBase where
  agentCompetency := {r | r ∈ t.agentCompetency}
  agentStatus := {r | r ∈ t.agentStatus}
  eventSchema := {r | r ∈ t.eventSchema}
  eventHeader := {r | r ∈ t.eventHeader}
  bifrostConfirmed := {o | o ∈ t.bifrostConfirmed}
  ed25519Verify a h s := t.ed25519Verify a h s = true
  latticeVerify p h := t.latticeVerify p h = true
  treasuryBalance a b := (a, b) ∈ t.treasuryBalance

variable (t : FactTables)

instance decidableAgentCompetency (a c : Symbol) : Decidable (AgentCompetency t.base a c) :=
  decidable_of_iff
    ((a, c) ∈ t.agentCompetency ∨ ∃ r ∈ bridgeRules, r.1 = (a, c) ∧ r.2 ∈ capability)
    (agentCompetency_iff t.base).symm

instance decidableCovers (a : Symbol) (w : Unsigned) : Decidable (Covers t.base a w) :=
  decidable_of_iff (∃ r ∈ t.treasuryBalance, r.1 = a ∧ w ≤ r.2)
    ⟨fun ⟨r, hr, ha, hw⟩ => ⟨r.2, ha ▸ hr, hw⟩, fun ⟨b, hb, hw⟩ => ⟨(a, b), hb, rfl, hw⟩⟩

instance decidableVerifiedAgent (a : Symbol) (o : Unsigned) :
    Decidable (VerifiedAgent t.base a o) :=
  decidable_of_iff (o ∈ t.bifrostConfirmed ∧ ∃ h ∈ t.eventHeader, h.agent = a ∧ h.offset = o
    ∧ t.ed25519Verify a h.eventHash h.sig = true ∧ t.latticeVerify h.payloadHash h.eventHash = true)
    (verifiedAgent_iff t.base).symm

instance decidableAuthorized (a : Symbol) (o : Unsigned) : Decidable (Authorized t.base a o) :=
  decidable_of_iff (VerifiedAgent t.base a o ∧ (a, "active") ∈ t.agentStatus
    ∧ (a, "revoked") ∉ t.agentStatus ∧ ∃ h ∈ t.eventHeader, h.offset = o
      ∧ ∃ s ∈ t.eventSchema, s.etype = h.etype ∧ AgentCompetency t.base a s.reqCap)
    (authorized_iff t.base).symm

instance decidableDenied (a : Symbol) (o : Unsigned) :
    Decidable (∃ reason, ConstitutionDenied t.base a o reason) :=
  decidable_of_iff (∃ h ∈ t.eventHeader, h.agent = a ∧ h.offset = o
    ∧ ((∃ s ∈ t.eventSchema, s.etype = h.etype ∧ ¬ AgentCompetency t.base a s.reqCap)
      ∨ h.etype = sovereignRoot ∧ ¬ AgentCompetency t.base a "vacuum_collapse"))
    (constitutionDenied_iff t.base).symm

instance decidableFiscalOk (a : Symbol) (o : Unsigned) : Decidable (FiscalOk t.base a o) :=
  decidable_of_iff (∃ h ∈ t.eventHeader, h.offset = o ∧ ∃ s ∈ t.eventSchema, s.etype = h.etype
    ∧ (s.weight ≠ maxWeight ∨ s.weight = maxWeight ∧ Covers t.base a s.weight))
    (fiscalOk_iff t.base).symm

/-- The gate decides. -/
instance decidableKernelAuthorize (a : Symbol) (o : Unsigned) :
    Decidable (KernelAuthorize t.base a o) :=
  decidable_of_iff _ (kernelAuthorize_iff t.base).symm

/-- A settlement by `bob`, of a type with a second row, and an empty treasury. -/
def settlement : FactTables where
  agentCompetency := []
  agentStatus := [("bob", "active")]
  eventSchema := [⟨0x0100, "v1", "execute", maxWeight⟩, ⟨0x0100, "v2", "execute", 1⟩]
  eventHeader := [⟨7, "bob", 0x0100, "p", "e", "s", "h"⟩]
  bifrostConfirmed := [7]
  ed25519Verify a h s := a = "bob" && h = "e" && s = "s"
  latticeVerify p h := p = "h" && h = "e"
  treasuryBalance := []

/-- The settlement is authorized without a balance. -/
theorem settlement_undercovered :
    KernelAuthorize settlement.base "bob" 7 ∧ ¬ Sound settlement.base "bob" 7 := by
  refine ⟨by decide, fun h => ?_⟩
  have hdeclares : Declares settlement.base "bob" 7 ⟨0x0100, "v1", "execute", maxWeight⟩ :=
    ⟨.head _, _, .head _, rfl, rfl, rfl⟩
  exact absurd (h.covered _ hdeclares rfl) (by decide)

end Policy

end SovereignBus
