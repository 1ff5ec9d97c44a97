import SovereignBus.Lattice.Circuit

/-!
The log of `seb/verification/idris/SEB_Protocol.idr`, newest event first.

* `ChainIntact`, `OffsetMonotonic`: the predicates of the source on a log. The
  hash of an event is the lattice commitment of its header to the tip; the
  signature is checked elsewhere and has no part here.
* `Admissible`: the obligations of `appendEvent`. `ValidLogState` is a log all
  of whose events met them, and `appendEvent` extends it.
* `Valid.chainIntact` and `Valid.offsetMonotonic`: a valid log has the
  invariants of the source.
-/

namespace SovereignBus

namespace Protocol

/-- What the log keeps of an event: the offset and the first 64 bytes of its
header, and the two hashes of its footer. -/
structure SEBEvent where
  offset : UInt64
  block : Payload
  prevHash : Poly
  eventHash : Poly

/-- `GENESIS_HASH`. -/
def genesisHash : Poly := 0

def tipHash : List SEBEvent → Poly
  | [] => genesisHash
  | e :: _ => e.eventHash

def tipOffset : List SEBEvent → UInt64
  | [] => 0
  | e :: _ => e.offset

/-- The event's previous hash is the given tip. -/
def ChainLink (e : SEBEvent) (tip : Poly) : Prop := e.prevHash = tip

/-- The event's hash is the commitment of its header to the given tip. -/
def HashValid (e : SEBEvent) (tip : Poly) : Prop := e.eventHash = sebLatticeCommit tip e.block

/-- The event's offset is above the given one. -/
def OffsetAdvances (e : SEBEvent) (tipOff : UInt64) : Prop := e.offset > tipOff

/-- Every event links to its predecessor, the first one to the genesis hash. -/
def ChainIntact : List SEBEvent → Prop
  | [] => True
  | [e] => e.prevHash = genesisHash
  | x :: y :: xs => x.prevHash = y.eventHash ∧ ChainIntact (y :: xs)

/-- The offsets fall from the newest event to the oldest. -/
def OffsetMonotonic : List SEBEvent → Prop
  | [] => True
  | [_] => True
  | x :: y :: xs => x.offset > y.offset ∧ OffsetMonotonic (y :: xs)

/-- What `appendEvent` asks of an event. -/
structure Admissible (log : List SEBEvent) (e : SEBEvent) : Prop where
  chain : ChainLink e (tipHash log)
  hash : HashValid e (tipHash log)
  offset : OffsetAdvances e (tipOffset log)

/-- Every event was admissible when it was appended. -/
def Valid : List SEBEvent → Prop
  | [] => True
  | e :: log => Admissible log e ∧ Valid log

lemma chainIntact_cons (e : SEBEvent) (log : List SEBEvent) :
    ChainIntact (e :: log) ↔ ChainLink e (tipHash log) ∧ ChainIntact log := by
  cases log with
  | nil => simp [ChainIntact, ChainLink, tipHash]
  | cons d log => rfl

lemma offsetMonotonic_cons {e : SEBEvent} {log : List SEBEvent}
    (h : OffsetAdvances e (tipOffset log)) (hlog : OffsetMonotonic log) :
    OffsetMonotonic (e :: log) := by
  cases log with
  | nil => trivial
  | cons d log => exact ⟨h, hlog⟩

/-- A valid log has an intact chain. -/
lemma Valid.chainIntact {log : List SEBEvent} (h : Valid log) : ChainIntact log := by
  induction log with
  | nil => trivial
  | cons e log ih => exact (chainIntact_cons e log).mpr ⟨h.1.chain, ih h.2⟩

/-- A valid log has monotonic offsets. -/
lemma Valid.offsetMonotonic {log : List SEBEvent} (h : Valid log) : OffsetMonotonic log := by
  induction log with
  | nil => trivial
  | cons e log ih => exact offsetMonotonic_cons h.1.offset (ih h.2)

/-- Validity, event by event: `older` are the events before `e`. -/
lemma valid_iff_forall {log : List SEBEvent} :
    Valid log ↔ ∀ e older, (e :: older) <:+ log → Admissible older e := by
  induction log with
  | nil => simp [Valid]
  | cons d log ih =>
      rw [Valid, ih]
      constructor
      · rintro ⟨hd, hlog⟩ e older hsuf
        rcases List.suffix_cons_iff.mp hsuf with heq | hsuf'
        · obtain ⟨rfl, rfl⟩ := List.cons.inj heq
          exact hd
        · exact hlog e older hsuf'
      · intro h
        exact ⟨h d log List.suffix_rfl,
          fun e older hsuf => h e older (hsuf.trans (List.suffix_cons d log))⟩

/-- A log with its proofs. -/
structure ValidLogState where
  events : List SEBEvent
  valid : Valid events

/-- The log with one more event, whose obligations are met. -/
def appendEvent (log : ValidLogState) (e : SEBEvent) (h : Admissible log.events e) :
    ValidLogState := ⟨e :: log.events, h, log.valid⟩

end Protocol

end SovereignBus
