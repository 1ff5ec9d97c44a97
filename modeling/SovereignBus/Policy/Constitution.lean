import SovereignBus.Policy.Gate

/-!
The constitution of `seb/verification/agda/SEB_Constitution.agda` and the strata of
`seb/runtime/src/seb_policy.dl` around the gate.

* `requiredCap`, `capabilityMatch`, `authorize`: the functions of the Agda file.
* `ConstitutionalBase`: a fact base with the schema of the constitution and one header for
  every offset, as `constitutionalProvisions` is one. `kernel_authorize_iff` says that there the
  Datalog gate is the constitution's verdict on the event, for agents that are active and offsets
  that are confirmed.
* `SiAuthorized` to `AgentReachable`: the strata of the actors' registry and the detection of
  floating agents. `floating_iff` says what they come to.
-/

namespace SovereignBus

namespace Policy

/-! ### The constitution -/

/-- `EventType`. -/
inductive EventType where
  | infraProvision
  | configDeploy
  | archDecision
  | fiscalSettle
  | sovereignRoot
  | problemSolved
  | attackDetected
deriving DecidableEq

/-- `Capability`. -/
inductive Capability where
  | execute
  | write
  | read
  | verify
  | observe
  | vacuumCollapse
deriving DecidableEq

/-- `requiredCap`. -/
def requiredCap : EventType → Capability
  | .infraProvision => .execute
  | .configDeploy => .write
  | .archDecision => .verify
  | .fiscalSettle => .execute
  | .sovereignRoot => .vacuumCollapse
  | .problemSolved => .observe
  | .attackDetected => .observe

/-- `Proposal`. -/
structure Proposal where
  actor : ℕ
  capability : Capability
  eventType : EventType
  precondition : Bool
  signatureValid : Bool
  chainValid : Bool

/-- The `Verdict` of the constitution. -/
inductive ProposalVerdict where
  | approved
  | denied
deriving DecidableEq

/-- `capabilityMatch`. -/
def capabilityMatch : Capability → EventType → Bool
  | .execute, .infraProvision => true
  | .write, .configDeploy => true
  | .verify, .archDecision => true
  | .execute, .fiscalSettle => true
  | .vacuumCollapse, .sovereignRoot => true
  | .observe, .problemSolved => true
  | .observe, .attackDetected => true
  | _, _ => false

/-- `authorize`. -/
def authorize (p : Proposal) : ProposalVerdict :=
  if p.precondition && p.signatureValid && p.chainValid && capabilityMatch p.capability p.eventType
  then .approved
  else .denied

lemma capabilityMatch_iff (c : Capability) (e : EventType) :
    capabilityMatch c e = true ↔ c = requiredCap e := by
  cases c <;> cases e <;> decide

lemma authorize_iff (p : Proposal) :
    authorize p = .approved ↔ p.precondition = true ∧ p.signatureValid = true
      ∧ p.chainValid = true ∧ p.capability = requiredCap p.eventType := by
  rw [authorize, ite_eq_left_iff, ← capabilityMatch_iff]
  simp [and_assoc]

/-! ### The constitution and the gate -/

/-- The number of an event type, as the comments of the constitution give it. -/
def EventType.code : EventType → Unsigned
  | .infraProvision => 0x0001
  | .configDeploy => 0x0002
  | .archDecision => 0x0010
  | .fiscalSettle => 0x0100
  | .sovereignRoot => 0xFFFF
  | .problemSolved => 0x0400
  | .attackDetected => 0x0401

/-- The symbol of a capability. -/
def Capability.symbol : Capability → Symbol
  | .execute => "execute"
  | .write => "write"
  | .read => "read"
  | .verify => "verify"
  | .observe => "observe"
  | .vacuumCollapse => "vacuum_collapse"

/-- A fact base with the schema of the constitution, and one header for every offset. -/
structure ConstitutionalBase extends FactBase where
  schema : ∀ etype reqCap, (∃ s ∈ eventSchema, s.etype = etype ∧ s.reqCap = reqCap)
    ↔ ∃ e : EventType, e.code = etype ∧ (requiredCap e).symbol = reqCap
  one_header : ∀ h ∈ eventHeader, ∀ h' ∈ eventHeader, h.offset = h'.offset → h = h'

/-- The proposal stands for the event of a header: its agent has the capability it claims, and
the three gates are what the fact base says of the header. -/
structure Proposes (db : FactBase) (h : HeaderRow) (p : Proposal) : Prop where
  capability : AgentCompetency db h.agent p.capability.symbol
  eventType : p.eventType.code = h.etype
  precondition : p.precondition = true ↔ FiscalOk db h.agent h.offset
  signatureValid : p.signatureValid = true ↔ db.ed25519Verify h.agent h.eventHash h.sig
  chainValid : p.chainValid = true ↔ db.latticeVerify h.payloadHash h.eventHash

lemma code_injective : Function.Injective EventType.code := by
  intro e e' h
  cases e <;> cases e' <;> first | rfl | exact absurd h (by decide)

lemma code_eq_sovereignRoot {e : EventType} (h : e.code = sovereignRoot) :
    e = .sovereignRoot := by
  cases e <;> first | rfl | exact absurd h (by decide)

/-- The gate of the policy engine is the verdict of the constitution: on a constitutional fact
base an agent is authorized at an offset exactly when the header there is its own and stands for
a proposal that is approved, the offset is confirmed and the agent is active and not revoked. -/
theorem kernel_authorize_iff (db : ConstitutionalBase) (a : Symbol) (o : Unsigned) :
    KernelAuthorize db.toFactBase a o
      ↔ o ∈ db.bifrostConfirmed ∧ (a, "active") ∈ db.agentStatus ∧ (a, "revoked") ∉ db.agentStatus
        ∧ ∃ h ∈ db.eventHeader, h.agent = a ∧ h.offset = o
          ∧ ∃ p, Proposes db.toFactBase h p ∧ authorize p = .approved := by
  rw [kernelAuthorize_iff, authorized_iff, verifiedAgent_iff]
  constructor
  · rintro ⟨⟨⟨hconfirmed, h, hheader, rfl, rfl, hsig, hlattice⟩, hactive, hrevoked, h', hheader',
      hoffset, s, hs, hetype, hcomp⟩, hfiscal, -⟩
    obtain rfl := db.one_header h' hheader' h hheader hoffset
    obtain ⟨e, hcode, hcap⟩ := (db.schema s.etype s.reqCap).mp ⟨s, hs, rfl, rfl⟩
    refine ⟨hconfirmed, hactive, hrevoked, h', hheader, rfl, rfl,
      ⟨0, requiredCap e, e, true, true, true⟩, ?_, (authorize_iff _).mpr ⟨rfl, rfl, rfl, rfl⟩⟩
    exact
      { capability := by rw [hcap]; exact hcomp
        eventType := hcode.trans hetype
        precondition := iff_of_true rfl hfiscal
        signatureValid := iff_of_true rfl hsig
        chainValid := iff_of_true rfl hlattice }
  · rintro ⟨hconfirmed, hactive, hrevoked, h, hheader, rfl, rfl, p, hp, happroved⟩
    obtain ⟨hpre, hsig, hchain, hcap⟩ := (authorize_iff p).mp happroved
    have hcomp : AgentCompetency db.toFactBase h.agent (requiredCap p.eventType).symbol := by
      rw [← hcap]
      exact hp.capability
    obtain ⟨s, hs, hetype, hreq⟩ :=
      (db.schema h.etype (requiredCap p.eventType).symbol).mpr ⟨p.eventType, hp.eventType, rfl⟩
    refine ⟨⟨⟨hconfirmed, h, hheader, rfl, rfl, hp.signatureValid.mp hsig,
      hp.chainValid.mp hchain⟩, hactive, hrevoked, h, hheader, rfl, s, hs, hetype, ?_⟩,
      hp.precondition.mp hpre, ?_⟩
    · rw [hreq]
      exact hcomp
    · rw [constitutionDenied_iff]
      rintro ⟨h', hheader', hagent, hoffset, hbad⟩
      obtain rfl := db.one_header h' hheader' h hheader hoffset
      rcases hbad with ⟨s', hs', hetype', hlack⟩ | ⟨hroot, hlack⟩
      · obtain ⟨e, hcode, hcap'⟩ := (db.schema s'.etype s'.reqCap).mp ⟨s', hs', rfl, rfl⟩
        have heq : e = p.eventType :=
          code_injective (hcode.trans (hetype'.trans hp.eventType.symm))
        rw [← hcap', heq] at hlack
        exact hlack hcomp
      · have hevent := code_eq_sovereignRoot (hp.eventType.trans hroot)
        rw [hevent] at hcomp
        exact hlack hcomp

/-- All event types. -/
def EventType.all : List EventType :=
  [.infraProvision, .configDeploy, .archDecision, .fiscalSettle, .sovereignRoot, .problemSolved,
    .attackDetected]

lemma EventType.mem_all (e : EventType) : e ∈ all := by cases e <;> decide

/-- The schemas of the constitution. `bob` has provided infrastructure at the offset 7, and
`metatron`, who may not, at the offset 8. -/
def provisions : FactTables where
  agentCompetency := []
  agentStatus := [("bob", "active"), ("metatron", "active")]
  eventSchema := EventType.all.map fun e => ⟨e.code, "v1", (requiredCap e).symbol, 1⟩
  eventHeader :=
    [⟨7, "bob", 0x0001, "p", "e", "s", "h"⟩, ⟨8, "metatron", 0x0001, "e", "f", "t", "h"⟩]
  bifrostConfirmed := [7, 8]
  ed25519Verify a _ s := a = "bob" && s = "s" || a = "metatron" && s = "t"
  latticeVerify p _ := p = "h"
  treasuryBalance := []

/-- They are a constitutional fact base. -/
def constitutionalProvisions : ConstitutionalBase where
  toFactBase := provisions.base
  schema etype reqCap := by
    constructor
    · rintro ⟨s, hs, rfl, rfl⟩
      obtain ⟨e, -, rfl⟩ := List.mem_map.mp hs
      exact ⟨e, rfl, rfl⟩
    · rintro ⟨e, rfl, rfl⟩
      exact ⟨_, List.mem_map_of_mem e.mem_all, rfl, rfl⟩
  one_header := by
    change ∀ h ∈ provisions.eventHeader, ∀ h' ∈ provisions.eventHeader,
      h.offset = h'.offset → h = h'
    decide

example : KernelAuthorize provisions.base "bob" 7
    ∧ ¬ KernelAuthorize provisions.base "metatron" 8 := by
  decide

/-! ### The actors' registry -/

/-- The facts of `actor`. -/
def actor : List (ℤ × Symbol) :=
  [(1, "bob"), (2, "metatron"), (3, "edaulc"), (4, "autonomous")]

/-- The facts of `target`. -/
def target : List (ℤ × Symbol) :=
  [(100, "memory"), (101, "stack"), (102, "entropy_pool"), (200, "seb_chain"),
    (201, "seb_partition"), (202, "seb_fiscal")]

/-- The facts of `precondition_met`. -/
def preconditionMet : List (ℤ × ℤ) :=
  [(1, 100), (1, 101), (1, 200), (1, 201), (2, 100), (2, 200), (3, 200), (4, 102), (4, 202)]

inductive SiAuthorized : ℤ → ℤ → Symbol → Prop where
  | rule {a t : ℤ} {n c r : Symbol} (registered : (a, n) ∈ actor) (capable : (a, c) ∈ capability)
      (targeted : (t, r) ∈ target) (met : (a, t) ∈ preconditionMet) : SiAuthorized a t c

inductive SiDenied : ℤ → ℤ → Symbol → Prop where
  | noCapability {a t : ℤ} {n r : Symbol} (registered : (a, n) ∈ actor)
      (targeted : (t, r) ∈ target) (incapable : ∀ c, (a, c) ∉ capability) :
      SiDenied a t "no_capability"
  | preconditionFailed {a t : ℤ} {n c r : Symbol} (registered : (a, n) ∈ actor)
      (capable : (a, c) ∈ capability) (targeted : (t, r) ∈ target)
      (unmet : (a, t) ∉ preconditionMet) : SiDenied a t "precondition_failed"

inductive SiActorAuthorized : Symbol → Symbol → Prop where
  | rule {a t : ℤ} {n r c : Symbol} (registered : (a, n) ∈ actor) (targeted : (t, r) ∈ target)
      (authorized : SiAuthorized a t c) : SiActorAuthorized n r

/-! ### Stratum 7: floating agents -/

section Floating

variable (db : FactBase)

inductive ReachableAgent : Symbol → Prop where
  | si {a t : ℤ} {n c : Symbol} (authorized : SiAuthorized a t c) (registered : (a, n) ∈ actor) :
      ReachableAgent n
  | kernel {n : Symbol} {o : Unsigned} (authorized : KernelAuthorize db n o) : ReachableAgent n

inductive FloatingAgent : Symbol → Symbol → Prop where
  | noAuthorizedTarget {a : ℤ} {n : Symbol} (registered : (a, n) ∈ actor)
      (unreachable : ¬ ReachableAgent db n) : FloatingAgent n "no_authorized_target"
  | allCapabilitiesRevoked {a : ℤ} {n : Symbol} (registered : (a, n) ∈ actor)
      (revoked : (n, "revoked") ∈ db.agentStatus) : FloatingAgent n "all_capabilities_revoked"

inductive AgentEdge : Symbol → Symbol → Prop where
  | rule {a : Symbol} {h : HeaderRow} (authorized : KernelAuthorize db a h.offset)
      (header : h ∈ db.eventHeader) : AgentEdge a h.agent

inductive AgentReachable : Symbol → Symbol → Prop where
  | edge {a b : Symbol} (h : AgentEdge db a b) : AgentReachable a b
  | step {a b c : Symbol} (h : AgentReachable a b) (last : AgentEdge db b c) : AgentReachable a c

/-- Each rule of the denial is the failure of one atom of the authorization, and both range over
the registered actors and targets. -/
lemma siDenied_iff {a t : ℤ} (ha : ∃ n, (a, n) ∈ actor) (ht : ∃ r, (t, r) ∈ target) :
    (∃ reason, SiDenied a t reason) ↔ ¬ ∃ c, SiAuthorized a t c := by
  obtain ⟨n, registered⟩ := ha
  obtain ⟨r, targeted⟩ := ht
  constructor
  · rintro ⟨reason, ⟨-, -, incapable⟩ | ⟨-, -, -, unmet⟩⟩ ⟨c, -, capable, -, met⟩
    · exact incapable c capable
    · exact unmet met
  · intro h
    by_cases capable : ∃ c, (a, c) ∈ capability
    · obtain ⟨c, capable⟩ := capable
      refine ⟨_, .preconditionFailed registered capable targeted fun met => ?_⟩
      exact h ⟨c, .rule registered capable targeted met⟩
    · exact ⟨_, .noCapability registered targeted (not_exists.mp capable)⟩

/-- Every actor of the registry has a capability, and a target it may use. -/
lemma exists_siAuthorized {a : ℤ} {n : Symbol} (h : (a, n) ∈ actor) :
    ∃ t c, SiAuthorized a t c := by
  have hall : ∀ p ∈ actor, ∃ k ∈ capability, ∃ x ∈ target, k.1 = p.1
      ∧ (p.1, x.1) ∈ preconditionMet := by
    decide
  obtain ⟨⟨a', c⟩, capable, ⟨t, r⟩, targeted, heq, met⟩ := hall _ h
  obtain rfl : a' = a := heq
  exact ⟨t, c, .rule h capable targeted met⟩

/-- No capability is asked for in particular: what decides is the precondition. -/
lemma siActorAuthorized_iff {n r : Symbol} :
    SiActorAuthorized n r
      ↔ ∃ a t, (a, n) ∈ actor ∧ (t, r) ∈ target ∧ (a, t) ∈ preconditionMet := by
  constructor
  · rintro ⟨registered, targeted, -, -, -, met⟩
    exact ⟨_, _, registered, targeted, met⟩
  · rintro ⟨a, t, registered, targeted, met⟩
    obtain ⟨-, c, -, capable, -⟩ := exists_siAuthorized registered
    exact .rule registered targeted (.rule registered capable targeted met)

lemma reachableAgent_iff {n : Symbol} :
    ReachableAgent db n ↔ (∃ a, (a, n) ∈ actor) ∨ ∃ o, KernelAuthorize db n o := by
  constructor
  · rintro (⟨-, registered⟩ | authorized)
    · exact .inl ⟨_, registered⟩
    · exact .inr ⟨_, authorized⟩
  · rintro (⟨a, registered⟩ | ⟨o, authorized⟩)
    · obtain ⟨t, c, authorized⟩ := exists_siAuthorized registered
      exact .si authorized registered
    · exact .kernel authorized

/-- The first rule of the floating agents never fires: what is registered is reachable. -/
lemma floatingAgent_iff {n reason : Symbol} :
    FloatingAgent db n reason ↔ reason = "all_capabilities_revoked"
      ∧ (∃ a, (a, n) ∈ actor) ∧ (n, "revoked") ∈ db.agentStatus := by
  constructor
  · rintro (⟨registered, unreachable⟩ | ⟨registered, revoked⟩)
    · exact absurd ((reachableAgent_iff db).mpr (.inl ⟨_, registered⟩)) unreachable
    · exact ⟨rfl, ⟨_, registered⟩, revoked⟩
  · rintro ⟨rfl, ⟨a, registered⟩, revoked⟩
    exact .allCapabilitiesRevoked registered revoked

lemma not_kernelAuthorize_of_revoked {n : Symbol} (h : (n, "revoked") ∈ db.agentStatus)
    (o : Unsigned) : ¬ KernelAuthorize db n o := by
  intro hauth
  obtain ⟨-, -, hrevoked, -⟩ := (authorized_iff db).mp ((kernelAuthorize_iff db).mp hauth).1
  exact hrevoked h

/-- An authorized agent has a header of its own at the offset. -/
lemma KernelAuthorize.header {n : Symbol} {o : Unsigned} (h : KernelAuthorize db n o) :
    ∃ row ∈ db.eventHeader, row.agent = n ∧ row.offset = o := by
  obtain ⟨hverified, -⟩ := (authorized_iff db).mp ((kernelAuthorize_iff db).mp h).1
  obtain ⟨-, row, header, hagent, hoffset, -⟩ := (verifiedAgent_iff db).mp hverified
  exact ⟨row, header, hagent, hoffset⟩

/-- Both ends of a path are the first and the last of its edges. -/
lemma AgentReachable.ends {a b : Symbol} (h : AgentReachable db a b) :
    (∃ o, KernelAuthorize db a o) ∧ ∃ row ∈ db.eventHeader, row.agent = b := by
  induction h with
  | edge hedge =>
    obtain ⟨authorized, header⟩ := hedge
    exact ⟨⟨_, authorized⟩, _, header, rfl⟩
  | step _ last ih =>
    obtain ⟨-, header⟩ := last
    exact ⟨ih.1, _, header, rfl⟩

/-- With one header for an offset an edge leads from an agent to itself, and so does a path. -/
lemma agentReachable_iff
    (hone : ∀ h ∈ db.eventHeader, ∀ h' ∈ db.eventHeader, h.offset = h'.offset → h = h')
    {a b : Symbol} : AgentReachable db a b ↔ a = b ∧ ∃ o, KernelAuthorize db a o := by
  have hedge : ∀ {a b}, AgentEdge db a b → a = b := by
    rintro a b ⟨authorized, header⟩
    obtain ⟨row, hrow, rfl, hoffset⟩ := authorized.header
    rw [hone row hrow _ header hoffset]
  constructor
  · intro h
    refine ⟨?_, h.ends.1⟩
    induction h with
    | edge h => exact hedge h
    | step _ last ih => exact ih.trans (hedge last)
  · rintro ⟨rfl, o, authorized⟩
    obtain ⟨row, header, hagent, rfl⟩ := authorized.header
    have hlast : AgentEdge db a row.agent := .rule authorized header
    rw [hagent] at hlast
    exact .edge hlast

/-- The strata of the registry and of the floating agents, on every fact base: an actor is denied
a target exactly when it is not authorized for it, and never for want of a capability, so that
the preconditions alone decide what an agent may use; the floating agents are the registered
agents that are revoked, each of which is reachable all the same and authorized nowhere; and
where an offset has one header, an agent reaches none but itself. -/
theorem floating_iff (db : FactBase) :
    (∀ a t, (∃ n, (a, n) ∈ actor) → (∃ r, (t, r) ∈ target) →
        ((∃ reason, SiDenied a t reason) ↔ ¬ ∃ c, SiAuthorized a t c))
      ∧ (∀ a t, ¬ SiDenied a t "no_capability")
      ∧ (∀ n r, SiActorAuthorized n r
        ↔ ∃ a t, (a, n) ∈ actor ∧ (t, r) ∈ target ∧ (a, t) ∈ preconditionMet)
      ∧ (∀ n reason, FloatingAgent db n reason ↔ reason = "all_capabilities_revoked"
        ∧ (∃ a, (a, n) ∈ actor) ∧ (n, "revoked") ∈ db.agentStatus)
      ∧ (∀ n reason, FloatingAgent db n reason →
        ReachableAgent db n ∧ ∀ o, ¬ KernelAuthorize db n o)
      ∧ ((∀ h ∈ db.eventHeader, ∀ h' ∈ db.eventHeader, h.offset = h'.offset → h = h') →
        ∀ a b, AgentReachable db a b ↔ a = b ∧ ∃ o, KernelAuthorize db a o) := by
  refine ⟨fun a t ha ht => siDenied_iff ha ht, ?_, fun n r => siActorAuthorized_iff,
    fun n reason => floatingAgent_iff db, ?_, fun hone a b => agentReachable_iff db hone⟩
  · intro a t h
    -- the index is a literal: the other rule has another one
    generalize hreason : ("no_capability" : Symbol) = reason at h
    cases h with
    | noCapability registered targeted incapable =>
      obtain ⟨t', c, -, capable, -⟩ := exists_siAuthorized registered
      exact incapable c capable
    | preconditionFailed => exact absurd hreason (by decide)
  · intro n reason h
    obtain ⟨-, registered, revoked⟩ := (floatingAgent_iff db).mp h
    exact ⟨(reachableAgent_iff db).mpr (.inl registered), not_kernelAuthorize_of_revoked db revoked⟩

end Floating

end Policy

end SovereignBus
