import SovereignBus.Nif.Agreement

/-!
What the chain of the WAL NIF in `seb/runtime/c_src/seb_wal_nif.c` protects against: callers that
read the tip of a handle, build an event on it and append it later.

* `nifVerifyChain`, `nifWormFlush`, `nifGetState`, `nifGetTipHash`: the calls that only read.
  `serve` answers every call, and `sealed` lists the events a run sealed.
* `BuiltOn`: an event with a tip as its previous hash, committed to that tip.
* `stale_append_iff`: an event built on the tip that `get_tip_hash` told is sealed later exactly
  if what the events sealed in between add to the tip cancels out.
* `steeringEvent`: an event that leads the tip from anywhere to anywhere.
* `replay_iff`: an event that was sealed can be sealed again, wherever the calls have led.
-/

namespace SovereignBus

namespace WalNif

open Framing

/-! ### All calls -/

/-- What a call answers: a reply as that of the other calls, `ok`, the tuple of the state or
`{ok, Hash}`. -/
inductive Answer where
  | reply (r : Reply)
  | ok
  | state (segmentId sequence eventsSealed segmentsRotated tipOffset : UInt64)
  | tipHash (hash : List UInt8)

/-- A function with the handle as its one argument that only reads it. -/
def queried (answer : Answer) : List Term → Answer
  | [resource] => if resource ≠ .handle then .reply .error else answer
  | _ => .reply .badarg

def nifVerifyChain (h : WalHandle) : List Term → Answer := queried (.reply (.ok h.eventsSealed))

/-- `nif_worm_flush`, which leaves the flushing to come. -/
def nifWormFlush (_ : WalHandle) : List Term → Answer := queried .ok

def nifGetState (h : WalHandle) : List Term → Answer :=
  queried (.state h.segmentId h.sequence h.eventsSealed h.segmentsRotated h.tipOffset)

def nifGetTipHash (h : WalHandle) : List Term → Answer := queried (.tipHash (List.ofFn h.tipHash))

/-- A call on the handle. -/
inductive Request where
  | change (op : Op)
  | verifyChain (argv : List Term)
  | wormFlush (argv : List Term)
  | getState (argv : List Term)
  | getTipHash (argv : List Term)

/-- One call, whoever makes it. -/
def serve (h : WalHandle) : Request → Answer × WalHandle
  | .change op => (.reply (step h op).1, (step h op).2)
  | .verifyChain argv => (nifVerifyChain h argv, h)
  | .wormFlush argv => (nifWormFlush h argv, h)
  | .getState argv => (nifGetState h argv, h)
  | .getTipHash argv => (nifGetTipHash h argv, h)

/-- The event that a call sealed, if it did. -/
def sealedEvent : Request × Answer → Option (EventBytes fixedFooterSize)
  | (.change op, .reply r) => (acceptedEvent fixedFooterSize (op, r)).map Accepted.event
  | _ => none

/-- The events that were sealed, in their order. -/
def sealed (hist : List (Request × Answer)) : List (EventBytes fixedFooterSize) :=
  hist.filterMap sealedEvent

/-- A call of `append_event` that seals its event. -/
def Seals (h : WalHandle) (e : EventBytes fixedFooterSize) : Prop :=
  ∃ n, (serve h (.change (.append e.argv))).1 = .reply (.ok n)

lemma seals_iff {h : WalHandle} (hinit : h.initialized = true) (e : EventBytes fixedFooterSize) :
    Seals h e ↔ Nif.Sealable h e ∧ Nif.WalPlaces h e := by
  rw [← Nif.wal_accepts_iff hinit, Seals]
  simp only [serve, step, Answer.reply.injEq]

/-- What a call can do: it seals no event and keeps the tip, or it seals one and takes over its
hash. -/
lemma serve_cases (h : WalHandle) (req : Request) :
    (sealedEvent (req, (serve h req).1) = none ∧ (serve h req).2.tipHash = h.tipHash)
      ∨ ∃ e, sealedEvent (req, (serve h req).1) = some e
        ∧ (serve h req).2.tipHash = sebLatticeCommit h.tipHash e.block := by
  cases req with
  | change op =>
      rcases Nif.walSealer.cases h op with ⟨hnone, htip, -⟩ | ⟨a, hsome, -, hhash, htip, -⟩
      · exact .inl ⟨congrArg (Option.map Accepted.event) hnone, htip⟩
      · exact .inr ⟨a.event, congrArg (Option.map Accepted.event) hsome, htip.trans hhash⟩
  | verifyChain argv | wormFlush argv | getState argv | getTipHash argv => exact .inl ⟨rfl, rfl⟩

lemma initialized_serve (h : WalHandle) (req : Request) :
    (serve h req).2.initialized = h.initialized := by
  cases req with
  | change op =>
      cases op with
      | append argv =>
          rcases nifAppendEvent_cases h argv with ⟨-, hsame⟩ | ⟨e, -, -, heq⟩
          · rw [serve, step, hsame]
          · rw [serve, step, heq]
            rfl
      | rotate argv =>
          rcases nifRotateSegment_cases h argv with ⟨-, hsame⟩ | ⟨newId, newSeq, -, heq⟩
          · rw [serve, step, hsame]
          · rw [serve, step, heq]
  | verifyChain argv | wormFlush argv | getState argv | getTipHash argv => rfl

/-- The run of the calls that all callers make, in the order in which they come in. -/
abbrev run (h : WalHandle) (reqs : List Request) : List (Request × Answer) × WalHandle :=
  Machine.exec serve h reqs

/-- What the events of a run add to the tip. -/
def added (hist : List (Request × Answer)) : Poly :=
  xorSum (((sealed hist).map EventBytes.block).map contribution)

lemma tipHash_run (h : WalHandle) (reqs : List Request) :
    (run h reqs).2.tipHash
      = ((sealed (run h reqs).1).map EventBytes.block).foldl sebLatticeCommit h.tipHash := by
  refine Machine.exec_induction serve (C := fun _ => True)
    (P := fun hist t =>
      t.tipHash = ((sealed hist).map EventBytes.block).foldl sebLatticeCommit h.tipHash)
    rfl (fun hist t req _ ih => ?_) reqs fun _ _ => trivial
  rw [sealed, List.filterMap_append]
  rcases serve_cases t req with ⟨hnone, htip⟩ | ⟨e, hsome, htip⟩
  · rw [List.filterMap_cons_none hnone, List.filterMap_nil, List.append_nil, htip]
    exact ih
  · rw [List.filterMap_cons_some hsome, List.filterMap_nil, List.map_append, List.foldl_append,
      htip, ih]
    rfl

lemma tipHash_run_eq_iff (h : WalHandle) (reqs : List Request) :
    (run h reqs).2.tipHash = h.tipHash ↔ added (run h reqs).1 = 0 := by
  rw [tipHash_run, sebLatticeCommit_eq_addStep, Chain.foldl_addStep, ← added]
  calc h.tipHash ^^^ added (run h reqs).1 = h.tipHash
      ↔ h.tipHash ^^^ added (run h reqs).1 = h.tipHash ^^^ 0 := by rw [LawfulXor.xor_zero]
    _ ↔ added (run h reqs).1 = 0 := LawfulXor.xor_right_inj

lemma initialized_run (h : WalHandle) (reqs : List Request) :
    (run h reqs).2.initialized = h.initialized :=
  Machine.exec_induction serve (C := fun _ => True)
    (P := fun _ t => t.initialized = h.initialized) rfl
    (fun _ t req _ ih => (initialized_serve t req).trans ih) reqs fun _ _ => trivial

/-! ### Events built on a tip that was read -/

/-- The event has the tip as its previous hash and is committed to it. -/
structure BuiltOn (tip : Poly) (e : EventBytes fixedFooterSize) : Prop where
  prevHash : prevHash e = tip
  eventHash : eventHash e = sebLatticeCommit tip e.block

/-- An event built on a tip fits the chain exactly at that tip. -/
lemma sealable_iff_of_builtOn {h : WalHandle} {tip : Poly} {e : EventBytes fixedFooterSize}
    (hbuilt : BuiltOn tip e) : Nif.Sealable h e ↔ h.tipHash = tip := by
  constructor
  · intro hseal
    have hcommit := hseal.commitment
    rw [hbuilt.eventHash] at hcommit
    exact (sebLatticeCommit_injective e.block hcommit).symm
  · rintro rfl
    exact ⟨fun _ => hbuilt.prevHash, hbuilt.eventHash⟩

/-- Elsewhere it is refused, for its previous hash or, as the first event, for its commitment. -/
lemma refused_of_builtOn {h : WalHandle} (hinit : h.initialized = true) {tip : Poly}
    {e : EventBytes fixedFooterSize} (hbuilt : BuiltOn tip e) (hne : h.tipHash ≠ tip) :
    nifAppendEvent h e.argv
      = (.err (if h.eventsSealed > 0 then .hashChainBroken else .invalidCommitment), h) := by
  have hcommit : eventHash e ≠ sebLatticeCommit h.tipHash e.block := by
    rw [hbuilt.eventHash]
    exact fun heq => hne (sebLatticeCommit_injective e.block heq).symm
  rw [Nif.wal_append_eq hinit, hbuilt.prevHash, if_pos hcommit]
  by_cases hpos : h.eventsSealed > 0
  · rw [if_pos ⟨hpos, hne.symm⟩, if_pos hpos]
  · rw [if_neg fun hc => hpos hc.1, if_neg hpos]

/-- Where it fits the chain and there is no place for it, the offset is looked at first. -/
lemma unplaced_of_builtOn {h : WalHandle} (hinit : h.initialized = true)
    {e : EventBytes fixedFooterSize} (hbuilt : BuiltOn h.tipHash e) (hplace : ¬ Nif.WalPlaces h e) :
    nifAppendEvent h e.argv
      = (.err (if h.eventsSealed > 0 ∧ newOffset e ≤ h.tipOffset then .offsetNotMonotonic
          else .segmentFull), h) := by
  rw [Nif.wal_append_eq hinit, hbuilt.prevHash, hbuilt.eventHash,
    if_neg fun hc : _ ∧ h.tipHash ≠ h.tipHash => hc.2 rfl, if_neg fun hc => hc rfl]
  by_cases hoffset : h.eventsSealed > 0 ∧ newOffset e ≤ h.tipOffset
  · rw [if_pos hoffset, if_pos hoffset]
  · have hsize : eventSize e > segmentSize := by
      refine UInt64.not_le.mp fun hle => hplace ⟨fun hpos => ?_, hle⟩
      exact UInt64.not_le.mp fun hle' => hoffset ⟨hpos, hle'⟩
    rw [if_neg hoffset, if_neg hoffset, if_pos hsize]

/-- A handle that was not created is not there. -/
lemma initRequest_error {alloc : Bool} {argv : List Term} {reply : Reply}
    (h : initRequest alloc argv = .error reply) : reply = .badarg ∨ reply = .error := by
  unfold initRequest at h
  split at h
  · split at h
    · exact .inl (Except.error.inj h).symm
    · split at h
      · exact .inl (Except.error.inj h).symm
      · split_ifs at h
        exact .inr (Except.error.inj h).symm
  · exact .inl (Except.error.inj h).symm

/-- What becomes of an event built on the tip that `get_tip_hash` tells, after more calls: it is
sealed or refused for the chain or for want of a place, and the handle stays where it is refused. -/
structure Decides (h : WalHandle) (moved : Prop) (e : EventBytes fixedFooterSize) : Prop where
  seals : Seals h e ↔ ¬ moved ∧ Nif.WalPlaces h e
  broken : moved → nifAppendEvent h e.argv
    = (.err (if h.eventsSealed > 0 then .hashChainBroken else .invalidCommitment), h)
  unplaced : ¬ moved → ¬ Nif.WalPlaces h e → nifAppendEvent h e.argv
    = (.err (if h.eventsSealed > 0 ∧ newOffset e ≤ h.tipOffset then .offsetNotMonotonic
        else .segmentFull), h)

def AppendsIfUnchanged (t : WalHandle) (between : List Request) : Prop :=
  ∃ tip, nifGetTipHash t [.handle] = .tipHash (List.ofFn tip)
    ∧ ∀ e, BuiltOn tip e → Decides (run t between).2 (added (run t between).1 ≠ 0) e

lemma appendsIfUnchanged {t : WalHandle} (hinit : t.initialized = true) (between : List Request) :
    AppendsIfUnchanged t between := by
  have hinit' : (run t between).2.initialized = true := by rw [initialized_run, hinit]
  refine ⟨t.tipHash, rfl, fun e hbuilt => ⟨?_, fun hne => ?_, fun hsame => ?_⟩⟩
  · rw [seals_iff hinit', sealable_iff_of_builtOn hbuilt, tipHash_run_eq_iff, not_not]
  · exact refused_of_builtOn hinit' hbuilt fun heq => hne ((tipHash_run_eq_iff t between).mp heq)
  · have htip := (tipHash_run_eq_iff t between).mpr (not_not.mp hsame)
    exact unplaced_of_builtOn hinit' (htip ▸ hbuilt)

/-- Callers that read the tip, build an event on it and append it, with any calls of anybody
before and in between. The event is sealed exactly if there is a place for it and what the events
sealed in between add to the tip cancels out. It is refused for the chain if that does not, and
else for its offset or its size. -/
theorem stale_append_iff (alloc : Bool) (argv : List Term) (before between : List Request) :
    match nifInitKernel alloc argv with
    | .error reply => reply = .badarg ∨ reply = .error
    | .ok h => AppendsIfUnchanged (run h before).2 between := by
  rw [nifInitKernel]
  cases hreq : initRequest alloc argv with
  | error reply => exact initRequest_error hreq
  | ok p => exact appendsIfUnchanged (by rw [initialized_run]) between

/-! ### Events that were sealed before -/

/-- The block that leads the tip from `prev` to `next`, with an offset in its first byte. -/
def steeringBlock (prev next : Poly) (offset : UInt8) : Payload :=
  let lower : Poly := fun i => if i.val = 0 then offset else 0
  let turn := finRotate 32
  Fin.append lower fun j => prev (turn (turn j)) ^^^ next (turn (turn j)) ^^^ lower (turn j)

lemma sebLatticeCommit_steeringBlock (prev next : Poly) (offset : UInt8) :
    sebLatticeCommit prev (steeringBlock prev next offset) = next := by
  funext k
  have htwo : (2 : Fin 32) = 1 + 1 := rfl
  have happly (i : Fin 32) : finRotate 32 i = i + 1 := finRotate_apply i
  have hturn : finRotate 32 (k - 2) = k - 1 := by rw [happly, htwo, ← sub_sub, sub_add_cancel]
  have hturns : finRotate 32 (k - 1) = k := by rw [happly, sub_add_cancel]
  rw [sebLatticeCommit_apply, steeringBlock, Fin.append_left, Fin.append_right, hturn, hturns]
  -- what is there twice cancels out
  calc prev k ^^^ (if (k - 1).val = 0 then offset else 0)
        ^^^ (prev k ^^^ next k ^^^ (if (k - 1).val = 0 then offset else 0))
      = prev k ^^^ prev k ^^^ next k
          ^^^ ((if (k - 1).val = 0 then offset else 0)
            ^^^ (if (k - 1).val = 0 then offset else 0)) := by
        ac_rfl
    _ = next k := by
        rw [LawfulXor.xor_self, LawfulXor.xor_self, LawfulXor.xor_zero, zero_xor]

/-- The event with such a block and an empty payload. -/
def steeringEvent (prev next : Poly) (offset : UInt8) : EventBytes fixedFooterSize where
  header := List.ofFn (steeringBlock prev next offset) ++ List.replicate 4 0
  payload := []
  footer := List.ofFn prev ++ (List.ofFn next ++ List.replicate 64 0)
  header_length := by rw [List.length_append, List.length_ofFn, List.length_replicate]
  footer_length := by
    rw [List.length_append, List.length_append, List.length_ofFn, List.length_ofFn,
      List.length_replicate]

variable (prev next : Poly) (offset : UInt8)

lemma block_steeringEvent :
    (steeringEvent prev next offset).block = steeringBlock prev next offset := by
  rw [EventBytes.block, steeringEvent, field_append_left _ (by rw [List.length_ofFn]), field_ofFn]

lemma builtOn_steeringEvent : BuiltOn prev (steeringEvent prev next offset) where
  prevHash := by
    rw [WalNif.prevHash, steeringEvent, field_append_left _ (by rw [List.length_ofFn]), field_ofFn]
  eventHash := by
    rw [block_steeringEvent, sebLatticeCommit_steeringBlock, WalNif.eventHash, steeringEvent,
      field_append_right _ (by rw [List.length_ofFn]), List.length_ofFn, Nat.sub_self,
      field_append_left _ (by rw [List.length_ofFn]), field_ofFn]

lemma header_steeringEvent {i : ℕ} (hi : i < 32) :
    (steeringEvent prev next offset).header[i]?.getD 0 = if i = 0 then offset else 0 := by
  have hlt : i < 64 := by omega
  have hplace : (steeringEvent prev next offset).header[i]?
      = some (steeringBlock prev next offset (Fin.castAdd 32 ⟨i, hi⟩)) := by
    rw [steeringEvent, List.getElem?_append_left (by rwa [List.length_ofFn]), List.getElem?_ofFn,
      dif_pos hlt]
    rfl
  rw [hplace, steeringBlock, Fin.append_left, Option.getD_some]

lemma newOffset_steeringEvent :
    newOffset (steeringEvent prev next offset) = offset.toUInt64 := by
  simp [newOffset, List.range_succ, header_steeringEvent]

lemma eventSize_steeringEvent : eventSize (steeringEvent prev next offset) ≤ segmentSize := by
  have hsize : payloadSize (steeringEvent prev next offset) = 0 := by
    simp [payloadSize, List.range_succ, header_steeringEvent]
  rw [eventSize, hsize]
  decide

variable {prev next offset}

lemma seals_steeringEvent {h : WalHandle} (hinit : h.initialized = true)
    (hlt : h.tipOffset < offset.toUInt64) : Seals h (steeringEvent h.tipHash next offset) := by
  refine (seals_iff hinit _).mpr ⟨(sealable_iff_of_builtOn (builtOn_steeringEvent ..)).mpr rfl,
    fun _ => ?_, eventSize_steeringEvent ..⟩
  rwa [newOffset_steeringEvent]

/-- What a sealed event makes of the handle. -/
lemma serve_of_seals {h : WalHandle} {e : EventBytes fixedFooterSize} (hseals : Seals h e) :
    (serve h (.change (.append e.argv))).2 = h.commit e := by
  obtain ⟨n, hn⟩ := hseals
  have hok : WalNif.Accepts h e.argv := ⟨n, Answer.reply.inj hn⟩
  obtain ⟨hinit, hadm⟩ := (accepts_iff h e).mp hok
  rw [serve, step, nifAppendEvent_eq_ok hinit hadm]

/-- The call that opens a segment with a sequence. -/
def rotateTo (seq : ℕ) : Request := .change (.rotate [.handle, .int 0, .int seq])

lemma serve_rotateTo {h : WalHandle} {seq : ℕ} (hlt : h.sequence.toNat < seq)
    (hseq : seq < 2 ^ 64) :
    (serve h (rotateTo seq)).2
      = { h with
          segmentId := 0
          sequence := UInt64.ofNat seq
          tipOffset := 0
          segmentsRotated := h.segmentsRotated + 1 } := by
  have hnat : (UInt64.ofNat seq).toNat = seq := UInt64.toNat_ofNat_of_lt hseq
  have hnew : ¬ UInt64.ofNat seq ≤ h.sequence := by
    rw [UInt64.le_iff_toNat_le, hnat]
    omega
  have hget : enifGetUint64 (.int seq) = some (UInt64.ofNat seq) := by
    rw [enifGetUint64, if_pos (by omega), Int.toNat_natCast]
  have hzero : enifGetUint64 (.int 0) = some 0 := rfl
  rw [rotateTo, serve, step, nifRotateSegment, rotateRequest, hget, hzero]
  simp [hnew]

/-- Calls lead from one state of the handle to another. -/
def Reaches (h h' : WalHandle) : Prop := ∃ reqs, (run h reqs).2 = h'

lemma Reaches.refl (h : WalHandle) : Reaches h h := ⟨[], rfl⟩

lemma Reaches.serve {h h' : WalHandle} (hreach : Reaches h h') (req : Request) :
    Reaches h (serve h' req).2 := by
  obtain ⟨reqs, rfl⟩ := hreach
  exact ⟨reqs ++ [req], by rw [run, Machine.exec_concat]⟩

lemma Reaches.initialized {h h' : WalHandle} (hreach : Reaches h h')
    (hinit : h.initialized = true) : h'.initialized = true := by
  obtain ⟨reqs, rfl⟩ := hreach
  rw [initialized_run, hinit]

/-- One call leads the tip anywhere, if the offset is still before the one in the byte. -/
lemma Reaches.steer {h h' : WalHandle} (hreach : Reaches h h') (hinit : h.initialized = true)
    (next : Poly) (offset : UInt8) (hlt : h'.tipOffset < offset.toUInt64) :
    ∃ g, Reaches h g ∧ g.tipHash = next ∧ g.tipOffset = offset.toUInt64
      ∧ g.eventsSealed = h'.eventsSealed + 1 ∧ g.sequence = h'.sequence := by
  refine ⟨_, hreach.serve (.change (.append (steeringEvent h'.tipHash next offset).argv)), ?_⟩
  rw [serve_of_seals (seals_steeringEvent (hreach.initialized hinit) hlt), WalHandle.commit,
    (builtOn_steeringEvent ..).eventHash, block_steeringEvent, sebLatticeCommit_steeringBlock,
    newOffset_steeringEvent]
  exact ⟨rfl, rfl, rfl, rfl⟩

lemma Reaches.rotate {h h' : WalHandle} (hreach : Reaches h h') {seq : ℕ}
    (hlt : h'.sequence.toNat < seq) (hseq : seq < 2 ^ 64) :
    ∃ g, Reaches h g ∧ g.tipHash = h'.tipHash ∧ g.tipOffset = 0
      ∧ g.eventsSealed = h'.eventsSealed ∧ g.sequence.toNat = seq := by
  refine ⟨_, hreach.serve (rotateTo seq), ?_⟩
  rw [serve_rotateTo hlt hseq]
  exact ⟨rfl, rfl, rfl, UInt64.toNat_ofNat_of_lt hseq⟩

/-- From everywhere, the tip can be led anywhere and the segment be a fresh one, with a counter
that is not 0. -/
lemma exists_reaches {h : WalHandle} (hinit : h.initialized = true)
    (hseq : h.sequence.toNat + 2 < 2 ^ 64) (tip : Poly) :
    ∃ h', Reaches h h' ∧ h'.tipHash = tip ∧ h'.tipOffset = 0 ∧ h'.eventsSealed > 0 := by
  obtain ⟨opened, hopened, -, hstart, -, hsecond⟩ :=
    (Reaches.refl h).rotate (Nat.lt_succ_self _) (by omega)
  obtain ⟨led, hled, htip, hoffset, hcount, hsame⟩ :=
    hopened.steer hinit tip 1 (by rw [hstart]; decide)
  have hlast : led.sequence.toNat < h.sequence.toNat + 2 := by
    rw [hsame, hsecond]
    omega
  by_cases hpos : led.eventsSealed > 0
  · obtain ⟨h', hreach, htip', hzero, hcount', -⟩ := hled.rotate hlast hseq
    exact ⟨h', hreach, htip'.trans htip, hzero, by rwa [hcount']⟩
  · -- the counter has wrapped, and one more event moves it on
    obtain ⟨again, hagain, htip', -, hcount', hsame'⟩ :=
      hled.steer hinit tip 2 (by rw [hoffset]; decide)
    obtain ⟨h', hreach, htip'', hzero, hcount'', -⟩ := hagain.rotate (by rwa [hsame']) hseq
    have hwrapped : led.eventsSealed = 0 := UInt64.le_zero_iff.mp (UInt64.not_lt.mp hpos)
    exact ⟨h', hreach, htip''.trans htip', hzero, by rw [hcount'', hcount', hwrapped]; decide⟩

/-- The event can be sealed again, by calls after which it is not taken for the first, as
the counter is not 0. -/
def Resealable (h : WalHandle) (e : EventBytes fixedFooterSize) : Prop :=
  ∃ h', Reaches h h' ∧ h'.eventsSealed > 0 ∧ Seals h' e

/-- An event that was sealed at `g` can be sealed again exactly if it fits the chain and the
segment also where it is not the first. -/
lemma resealable_iff {g h : WalHandle} {e : EventBytes fixedFooterSize} (hseals : Seals g e)
    (hg : g.initialized = true) (hinit : h.initialized = true)
    (hseq : h.sequence.toNat + 2 < 2 ^ 64) :
    Resealable h e ↔ prevHash e = g.tipHash ∧ 0 < newOffset e := by
  obtain ⟨hseal, hplaces⟩ := (seals_iff hg e).mp hseals
  constructor
  · rintro ⟨h', hreach, hpos, hagain⟩
    obtain ⟨hseal', hplaces'⟩ := (seals_iff (hreach.initialized hinit) e).mp hagain
    have htip : h'.tipHash = g.tipHash :=
      sebLatticeCommit_injective e.block (hseal'.commitment.symm.trans hseal.commitment)
    exact ⟨(hseal'.chain hpos).trans htip,
      UInt64.lt_of_le_of_lt UInt64.zero_le (hplaces'.1 hpos)⟩
  · rintro ⟨hprev, hoffset⟩
    obtain ⟨h', hreach, htip, hzero, hpos⟩ := exists_reaches hinit hseq g.tipHash
    refine ⟨h', hreach, hpos, (seals_iff (hreach.initialized hinit) e).mpr
      ⟨⟨fun _ => hprev.trans htip.symm, ?_⟩, fun _ => ?_, hplaces.2⟩⟩
    · rw [htip, hseal.commitment]
    · rw [hzero]
      exact hoffset

/-- What was sealed can be sealed again. In every run, an event that was sealed behind another
one can be sealed once more at any later time, byte for byte, as long as there are two sequences
left to rotate to; an event that was sealed as the first, or where the counter had wrapped to 0,
can exactly if it has the tip as its previous hash and an offset. -/
theorem replay_iff (alloc : Bool) (argv : List Term) (before between : List Request)
    (e : EventBytes fixedFooterSize) :
    match nifInitKernel alloc argv with
    | .error reply => reply = .badarg ∨ reply = .error
    | .ok h =>
        let g := (run h before).2
        let h' := (run g (.change (.append e.argv) :: between)).2
        Seals g e → h'.sequence.toNat + 2 < 2 ^ 64 →
          (Resealable h' e ↔ prevHash e = g.tipHash ∧ 0 < newOffset e)
            ∧ (g.eventsSealed > 0 → Resealable h' e) := by
  rw [nifInitKernel]
  cases hreq : initRequest alloc argv with
  | error reply => exact initRequest_error hreq
  | ok p =>
      intro hseals hseq
      have hiff := resealable_iff hseals (by rw [initialized_run])
        (by rw [initialized_run, initialized_run]) hseq
      refine ⟨hiff, fun hpos => hiff.mpr ?_⟩
      obtain ⟨hseal, hplaces⟩ := (seals_iff (by rw [initialized_run]) e).mp hseals
      exact ⟨hseal.chain hpos, UInt64.lt_of_le_of_lt UInt64.zero_le (hplaces.1 hpos)⟩

end WalNif

end SovereignBus
