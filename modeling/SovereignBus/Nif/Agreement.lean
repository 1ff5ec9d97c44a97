import SovereignBus.Nif.Bounds
import SovereignBus.Nif.Kernel
import SovereignBus.Lattice.Log

/-!
The two NIF bridges of `seb/runtime/c_src` side by side, and against the lattice log.

* `Call`: what a caller asks of both bridges. `kernelEvent` is an event with the footer of the
  kernel NIF.
* `Paired`: the handles of both bridges agree. `Apart` is an event that one of them seals and
  the other one refuses, and `Fits` a call whose event ends where its header says.
* `bridges_agree`: the bridges seal the same events exactly if no call is `Apart`, and they give
  the same answers if every call `Fits`.
* `ChainIntact`: the predicate of `seb/verification/isabelle/SEB_WORM.thy`. `bridges_chain` says
  what the events of every run of either bridge have to do with it, and with the log that
  `seb_lattice_append` writes.
-/

namespace SovereignBus

namespace Nif

open Framing

/-! ### Calls of both bridges -/

/-- The event with the footer of the kernel NIF, the two hashes without the signature. -/
def kernelEvent (e : EventBytes WalNif.fixedFooterSize) : EventBytes KernelNif.fixedFooterSize where
  header := e.header
  payload := e.payload
  footer := e.footer.take 64
  header_length := e.header_length
  footer_length := by rw [List.length_take, e.footer_length]; rfl

/-- A call of both bridges. -/
inductive Call where
  | append (e : EventBytes WalNif.fixedFooterSize)
  | rotate (argv : List Term)

/-- The call as the WAL NIF gets it. -/
def Call.wal : Call → Op
  | append e => .append e.argv
  | rotate argv => .rotate argv

/-- The call as the kernel NIF gets it. -/
def Call.kernel : Call → Op
  | append e => .append (kernelEvent e).argv
  | rotate argv => .rotate argv

/-- Both answers are `ok`, or neither. -/
def SameVerdict (r r' : Reply) : Prop := (∃ n, r = .ok n) ↔ ∃ n, r' = .ok n

/-- The handles agree but for the tip offset. -/
structure Paired (h : WalNif.WalHandle) (k : KernelNif.KernelHandle) : Prop where
  segmentId : h.segmentId = k.currentSegmentId
  sequence : h.sequence = k.currentSequence
  tip : h.tipHash = k.tip
  eventsSealed : h.eventsSealed = k.eventsSealed
  segmentsRotated : h.segmentsRotated = k.segmentsRotated
  initialized : h.initialized = true

/-- What both bridges check of an event. -/
structure Sealable (h : WalNif.WalHandle) (e : EventBytes WalNif.fixedFooterSize) : Prop where
  chain : h.eventsSealed > 0 → WalNif.prevHash e = h.tipHash
  commitment : WalNif.eventHash e = sebLatticeCommit h.tipHash e.block

/-- What the WAL NIF checks beyond that: the offset and the declared size. -/
def WalPlaces (h : WalNif.WalHandle) (e : EventBytes WalNif.fixedFooterSize) : Prop :=
  (h.eventsSealed > 0 → h.tipOffset < WalNif.newOffset e) ∧ WalNif.eventSize e ≤ segmentSize

/-- What the kernel NIF checks beyond that: the room in the segment. -/
def KernelPlaces (k : KernelNif.KernelHandle) (e : EventBytes WalNif.fixedFooterSize) : Prop :=
  KernelNif.eventSize (kernelEvent e) ≤ segmentSize - k.tipOffset

/-- An event that only one of the bridges seals. -/
def Apart (h : WalNif.WalHandle) (k : KernelNif.KernelHandle) : Call → Prop
  | .append e => Sealable h e ∧ ¬ (WalPlaces h e ↔ KernelPlaces k e)
  | .rotate _ => False

/-- A short event that there is room for, and whose header has the end of the place where the
kernel NIF puts it as its offset. -/
structure Packs (k : KernelNif.KernelHandle) (e : EventBytes WalNif.fixedFooterSize) : Prop where
  short : e.payload.length < 2 ^ 63
  offset : WalNif.newOffset e = k.tipOffset + KernelNif.eventSize (kernelEvent e)
  room : KernelPlaces k e
  size : WalNif.eventSize e ≤ segmentSize

/-- A call with such an event, or a rotation. -/
def Fits (k : KernelNif.KernelHandle) : Call → Prop
  | .append e => Packs k e
  | .rotate _ => True

/-! ### One call -/

lemma prevCommit_kernelEvent (e : EventBytes WalNif.fixedFooterSize) :
    KernelNif.prevCommit (kernelEvent e) = WalNif.prevHash e :=
  field_take e.footer (by norm_num)

lemma recvCommit_kernelEvent (e : EventBytes WalNif.fixedFooterSize) :
    KernelNif.recvCommit (kernelEvent e) = WalNif.eventHash e :=
  field_take e.footer (by norm_num)

/-- What the WAL NIF answers to an event, once it is initialized. -/
lemma wal_append_eq {h : WalNif.WalHandle} (hinit : h.initialized = true)
    (e : EventBytes WalNif.fixedFooterSize) :
    WalNif.nifAppendEvent h e.argv
      = if h.eventsSealed > 0 ∧ WalNif.prevHash e ≠ h.tipHash then (.err .hashChainBroken, h)
        else if WalNif.eventHash e ≠ sebLatticeCommit h.tipHash e.block then
          (.err .invalidCommitment, h)
        else if h.eventsSealed > 0 ∧ WalNif.newOffset e ≤ h.tipOffset then
          (.err .offsetNotMonotonic, h)
        else if WalNif.eventSize e > segmentSize then (.err .segmentFull, h)
        else (.ok h.tipOffset, h.commit e) := by
  have hev : inspectEvent WalNif.fixedFooterSize (.bin e.header) (.bin e.payload) (.bin e.footer)
      = .ok e := inspectEvent_eq_ok.mpr ⟨rfl, rfl, rfl⟩
  simp only [WalNif.nifAppendEvent, EventBytes.argv, hev, hinit, circuit_tip_header, ne_eq,
    ctDiff_eq_zero_iff, not_true_eq_false, Bool.true_eq_false, if_false,
    WalNif.WalHandle.commit, eq_comm (a := sebLatticeCommit h.tipHash e.block)]

/-- What the kernel NIF answers to the event. -/
lemma kernel_append_eq (k : KernelNif.KernelHandle) (e : EventBytes WalNif.fixedFooterSize) :
    KernelNif.nifAppendEvent k (kernelEvent e).argv
      = if KernelNif.eventSize (kernelEvent e) > segmentSize - k.tipOffset then
          (.err .segmentFull, k)
        else if k.eventsSealed > 0 ∧ WalNif.prevHash e ≠ k.tip then (.err .hashChainBroken, k)
        else if WalNif.eventHash e ≠ sebLatticeCommit k.tip e.block then
          (.err .invalidCommitment, k)
        else
          (.ok k.tipOffset,
            { k with
              tipOffset := k.tipOffset + KernelNif.eventSize (kernelEvent e)
              tip := WalNif.eventHash e
              eventsSealed := k.eventsSealed + 1 }) := by
  have hev : inspectEvent KernelNif.fixedFooterSize (.bin (kernelEvent e).header)
      (.bin (kernelEvent e).payload) (.bin (kernelEvent e).footer) = .ok (kernelEvent e) :=
    inspectEvent_eq_ok.mpr ⟨rfl, rfl, rfl⟩
  have hblock : (kernelEvent e).block = e.block := rfl
  simp only [KernelNif.nifAppendEvent, EventBytes.argv, hev, circuit_tip_header, hblock,
    prevCommit_kernelEvent, recvCommit_kernelEvent, ne_eq, not_true_eq_false, if_false,
    eq_comm (a := sebLatticeCommit k.tip e.block)]

/-- When the WAL NIF seals an event. -/
lemma wal_accepts_iff {h : WalNif.WalHandle} (hinit : h.initialized = true)
    (e : EventBytes WalNif.fixedFooterSize) :
    (∃ n, (WalNif.nifAppendEvent h e.argv).1 = .ok n) ↔ Sealable h e ∧ WalPlaces h e := by
  have hiff : WalNif.Accepts h e.argv ↔ h.initialized = true ∧ WalNif.Admitted h e :=
    WalNif.accepts_iff h e
  rw [WalNif.Accepts] at hiff
  rw [hiff]
  exact ⟨fun ⟨_, hadm⟩ => ⟨⟨hadm.chain, hadm.commitment⟩, hadm.monotonic, hadm.fits⟩,
    fun ⟨hseal, hplaces⟩ => ⟨hinit, hseal.chain, hseal.commitment, hplaces.1, hplaces.2⟩⟩

/-- When the kernel NIF seals it. -/
lemma kernel_accepts_iff {h : WalNif.WalHandle} {k : KernelNif.KernelHandle} (hpair : Paired h k)
    (e : EventBytes WalNif.fixedFooterSize) :
    (∃ n, (KernelNif.nifAppendEvent k (kernelEvent e).argv).1 = .ok n)
      ↔ Sealable h e ∧ KernelPlaces k e := by
  rw [kernel_append_eq, ← hpair.tip, ← hpair.eventsSealed]
  split_ifs with hfull hchain hcommit
  · have hplaces : ¬ KernelPlaces k e := UInt64.not_le.mpr hfull
    simp [hplaces]
  · have hseal : ¬ Sealable h e := fun hs => hchain.2 (hs.chain hchain.1)
    simp [hseal]
  · have hseal : ¬ Sealable h e := fun hs => hcommit hs.commitment
    simp [hseal]
  · have hplaces : KernelPlaces k e := UInt64.not_lt.mp hfull
    have hseal : Sealable h e :=
      ⟨fun hpos => not_not.mp fun hne => hchain ⟨hpos, hne⟩, not_not.mp hcommit⟩
    simp [hplaces, hseal]

/-- What an accepted event makes of the kernel handle. -/
lemma kernel_append_ok {k : KernelNif.KernelHandle} {e : EventBytes WalNif.fixedFooterSize}
    (h : ∃ n, (KernelNif.nifAppendEvent k (kernelEvent e).argv).1 = .ok n) :
    KernelNif.nifAppendEvent k (kernelEvent e).argv
      = (.ok k.tipOffset,
          { k with
            tipOffset := k.tipOffset + KernelNif.eventSize (kernelEvent e)
            tip := WalNif.eventHash e
            eventsSealed := k.eventsSealed + 1 }) := by
  rw [kernel_append_eq] at h ⊢
  split_ifs at h ⊢ with hfull hchain hcommit
  · simp at h
  · simp at h
  · simp at h
  · rfl

/-- A rotation of paired handles. -/
lemma rotate_paired {h : WalNif.WalHandle} {k : KernelNif.KernelHandle} (hpair : Paired h k)
    (argv : List Term) :
    (WalNif.nifRotateSegment h argv).1 = (KernelNif.nifRotateSegment k argv).1
      ∧ Paired (WalNif.nifRotateSegment h argv).2 (KernelNif.nifRotateSegment k argv).2
      ∧ ((WalNif.nifRotateSegment h argv).2 = h ∧ (KernelNif.nifRotateSegment k argv).2 = k
        ∨ (WalNif.nifRotateSegment h argv).2.tipOffset = 0
          ∧ (KernelNif.nifRotateSegment k argv).2.tipOffset = 0) := by
  rw [WalNif.nifRotateSegment, KernelNif.nifRotateSegment, hpair.sequence]
  cases rotateRequest k.currentSequence argv with
  | error reply => exact ⟨rfl, hpair, .inl ⟨rfl, rfl⟩⟩
  | ok p =>
      exact ⟨rfl, ⟨rfl, rfl, hpair.tip, hpair.eventsSealed,
        by rw [hpair.segmentsRotated], hpair.initialized⟩, .inr ⟨rfl, rfl⟩⟩

/-! ### The same events -/

lemma sameVerdict_iff {h : WalNif.WalHandle} {k : KernelNif.KernelHandle} (hpair : Paired h k)
    (call : Call) :
    SameVerdict (WalNif.step h call.wal).1 (KernelNif.step k call.kernel).1
      ↔ ¬ Apart h k call := by
  cases call with
  | append e =>
      rw [SameVerdict, Call.wal, Call.kernel, WalNif.step, KernelNif.step,
        wal_accepts_iff hpair.initialized, kernel_accepts_iff hpair, Apart]
      by_cases hseal : Sealable h e
      · simp only [hseal, true_and, not_not]
      · simp only [hseal, false_and, iff_self, not_false_eq_true]
  | rotate argv =>
      rw [Call.wal, Call.kernel, WalNif.step, KernelNif.step, (rotate_paired hpair argv).1]
      exact ⟨fun _ h => h, fun _ => Iff.rfl⟩

lemma Paired.step {h : WalNif.WalHandle} {k : KernelNif.KernelHandle} (hpair : Paired h k)
    {call : Call}
    (hsame : SameVerdict (WalNif.step h call.wal).1 (KernelNif.step k call.kernel).1) :
    Paired (WalNif.step h call.wal).2 (KernelNif.step k call.kernel).2 := by
  cases call with
  | append e =>
      by_cases hok : ∃ n, (WalNif.nifAppendEvent h e.argv).1 = .ok n
      · have hadm := ((WalNif.accepts_iff h e).mp hok).2
        rw [Call.wal, Call.kernel, WalNif.step, KernelNif.step,
          WalNif.nifAppendEvent_eq_ok hpair.initialized hadm, kernel_append_ok (hsame.mp hok)]
        exact ⟨hpair.segmentId, hpair.sequence, rfl, congrArg (· + 1) hpair.eventsSealed,
          hpair.segmentsRotated, hpair.initialized⟩
      · have hkernel : ¬ ∃ n, (KernelNif.nifAppendEvent k (kernelEvent e).argv).1 = .ok n :=
          fun h' => hok (hsame.mpr h')
        have hwal_same := WalNif.step_of_ne h (.append e.argv) (not_exists.mp hok)
        have hkernel_same :=
          KernelNif.step_of_ne k (.append (kernelEvent e).argv) (not_exists.mp hkernel)
        rw [Call.wal, Call.kernel, hwal_same, hkernel_same]
        exact hpair
  | rotate argv => exact (rotate_paired hpair argv).2.1

/-! ### The same answers -/

/-- Paired handles with the same tip offset, inside the segment. -/
structure Aligned (h : WalNif.WalHandle) (k : KernelNif.KernelHandle) : Prop where
  paired : Paired h k
  tipOffset : h.tipOffset = k.tipOffset
  inside : k.tipOffset.toNat ≤ 2 ^ 30

/-- An event that fits leads forward, and not beyond the segment. -/
lemma Packs.lt {k : KernelNif.KernelHandle} {e : EventBytes WalNif.fixedFooterSize}
    (hpacks : Packs k e) (hle : k.tipOffset.toNat ≤ 2 ^ 30) :
    k.tipOffset < WalNif.newOffset e ∧ (WalNif.newOffset e).toNat ≤ 2 ^ 30 := by
  obtain ⟨hnat, hend⟩ :=
    KernelNif.eventSize_fits hle (e := kernelEvent e) hpacks.short hpacks.room 0
  have hpos := Accepted.size_pos (⟨kernelEvent e, 0⟩ : Accepted KernelNif.fixedFooterSize)
  rw [hpacks.offset, UInt64.lt_iff_toNat_lt, hnat]
  omega

lemma Aligned.step {h : WalNif.WalHandle} {k : KernelNif.KernelHandle} (halign : Aligned h k)
    {call : Call} (hfits : Fits k call) :
    (WalNif.step h call.wal).1 = (KernelNif.step k call.kernel).1
      ∧ Aligned (WalNif.step h call.wal).2 (KernelNif.step k call.kernel).2 := by
  obtain ⟨hpair, hoffset, hle⟩ := halign
  cases call with
  | append e =>
      have hpacks : Packs k e := hfits
      obtain ⟨hlt, hend⟩ := hpacks.lt hle
      have hmono : ¬ (h.eventsSealed > 0 ∧ WalNif.newOffset e ≤ h.tipOffset) := fun hm =>
        UInt64.not_le.mpr (hoffset ▸ hlt) hm.2
      have hsize : ¬ WalNif.eventSize e > segmentSize := UInt64.not_lt.mpr hpacks.size
      have hroom : ¬ KernelNif.eventSize (kernelEvent e) > segmentSize - k.tipOffset :=
        UInt64.not_lt.mpr hpacks.room
      rw [Call.wal, Call.kernel, WalNif.step, KernelNif.step, wal_append_eq hpair.initialized,
        kernel_append_eq, if_neg hroom, if_neg hmono, if_neg hsize, ← hpair.tip,
        ← hpair.eventsSealed]
      split_ifs with hchain hcommit
      · exact ⟨rfl, hpair, hoffset, hle⟩
      · exact ⟨rfl, hpair, hoffset, hle⟩
      · refine ⟨congrArg Reply.ok hoffset, ⟨hpair.segmentId, hpair.sequence, rfl, rfl,
          hpair.segmentsRotated, hpair.initialized⟩, hpacks.offset, ?_⟩
        rw [← hpacks.offset]
        exact hend
  | rotate argv =>
      obtain ⟨hreply, hpair', hsame | hzero⟩ := rotate_paired hpair argv
      · refine ⟨hreply, hpair', ?_, ?_⟩
        · rw [Call.wal, Call.kernel, WalNif.step, KernelNif.step, hsame.1, hsame.2, hoffset]
        · rw [Call.kernel, KernelNif.step, hsame.2]
          exact hle
      · refine ⟨hreply, hpair', hzero.1.trans hzero.2.symm, ?_⟩
        rw [Call.kernel, KernelNif.step, hzero.2]
        norm_num

section Runs

variable {h : WalNif.WalHandle} {k : KernelNif.KernelHandle}

/-- The WAL NIF behind the calls. -/
abbrev walRun (h : WalNif.WalHandle) (calls : List Call) : List (Op × Reply) × WalNif.WalHandle :=
  Machine.exec WalNif.step h (calls.map Call.wal)

/-- The kernel NIF behind the calls. -/
abbrev kernelRun (k : KernelNif.KernelHandle) (calls : List Call) :
    List (Op × Reply) × KernelNif.KernelHandle :=
  Machine.exec KernelNif.step k (calls.map Call.kernel)

/-- The bridges seal the same events. -/
def SealAlike (h : WalNif.WalHandle) (k : KernelNif.KernelHandle) (calls : List Call) : Prop :=
  Machine.AllAlike SameVerdict (walRun h calls).1 (kernelRun k calls).1

lemma sealAlike_iff (hpair : Paired h k) (calls : List Call) :
    SealAlike h k calls ↔ ∀ before call, before ++ [call] <+: calls →
      ¬ Apart (walRun h before).2 (kernelRun k before).2 call :=
  Machine.lockstep_iff (R := Paired) (fun _ _ call hpair => sameVerdict_iff hpair call)
    (fun _ _ _ hpair hsame => hpair.step hsame) hpair calls

lemma SealAlike.paired {calls : List Call} (h' : SealAlike h k calls) (hpair : Paired h k) :
    Paired (walRun h calls).2 (kernelRun k calls).2 :=
  Machine.lockstep_end (R := Paired) (fun _ _ _ hpair hsame => hpair.step hsame) hpair h'

lemma Aligned.run (halign : Aligned h k) {calls : List Call}
    (hfits : ∀ before call, before ++ [call] <+: calls → Fits (kernelRun k before).2 call) :
    (walRun h calls).1.map Prod.snd = (kernelRun k calls).1.map Prod.snd
      ∧ Aligned (walRun h calls).2 (kernelRun k calls).2 := by
  obtain ⟨hall, hend⟩ := Machine.lockstep (R := Aligned) (G := fun _ k call => Fits k call)
    (fun _ _ _ halign hfits => halign.step hfits) halign hfits
  exact ⟨hall.map_eq, hend⟩

end Runs

/-- The two bridges, over every list of calls to handles that `init_kernel` creates from the same
arguments. They seal the same events exactly if no event that both check is one that only one of
them has a place for, and then the handles agree but for the tip offset. They give the same
answers, with the same tip offset in the end, if the offset in every header is the end of the
place that the kernel NIF gives the event and there is room for it. -/
theorem bridges_agree (alloc : Bool) (argv : List Term) (calls : List Call) :
    match WalNif.nifInitKernel alloc argv, KernelNif.nifInitKernel alloc argv with
    | .ok h, .ok k =>
        (SealAlike h k calls ↔ ∀ before call, before ++ [call] <+: calls →
            ¬ Apart (walRun h before).2 (kernelRun k before).2 call)
          ∧ (SealAlike h k calls → Paired (walRun h calls).2 (kernelRun k calls).2)
          ∧ ((∀ before call, before ++ [call] <+: calls → Fits (kernelRun k before).2 call) →
            (walRun h calls).1.map Prod.snd = (kernelRun k calls).1.map Prod.snd
              ∧ (walRun h calls).2.tipOffset = (kernelRun k calls).2.tipOffset)
    | .error reply, .error reply' => reply = reply'
    | _, _ => False := by
  rw [WalNif.nifInitKernel, KernelNif.nifInitKernel]
  cases initRequest alloc argv with
  | error reply => rfl
  | ok p =>
      obtain ⟨id, seq⟩ := p
      have hpair : Paired ⟨id, seq, 0, 0, 0, 0, true⟩ ⟨id, seq, 0, 0, 0, 0⟩ :=
        ⟨rfl, rfl, rfl, rfl, rfl, rfl⟩
      have halign : Aligned ⟨id, seq, 0, 0, 0, 0, true⟩ ⟨id, seq, 0, 0, 0, 0⟩ :=
        ⟨hpair, rfl, by norm_num⟩
      refine ⟨sealAlike_iff hpair calls, fun hsame => hsame.paired hpair, fun hfits => ?_⟩
      obtain ⟨hreplies, hend⟩ := halign.run hfits
      exact ⟨hreplies, hend.tipOffset⟩

/-! ### The chain that a bridge seals -/

/-- The chain fields of a `seb_receipt`. -/
structure SebReceipt where
  prevHash : Poly
  eventHash : Poly

/-- `chain_intact`: from the second receipt on, each one has the hash of the one before it. -/
def ChainIntact (rs : List SebReceipt) : Prop :=
  ∀ i (_ : i + 1 < rs.length), rs[i + 1].prevHash = rs[i].eventHash

lemma chainIntact_concat {rs : List SebReceipt} {r : SebReceipt} (h : ChainIntact rs)
    (hlast : ∀ last ∈ rs.getLast?, r.prevHash = last.eventHash) : ChainIntact (rs ++ [r]) := by
  have hchain : List.IsChain (fun a b : SebReceipt => b.prevHash = a.eventHash) (rs ++ [r]) := by
    refine .append (List.isChain_iff_getElem.mpr h) (.singleton r) fun last hmem r' hr' => ?_
    obtain rfl : r = r' := by simpa using hr'
    exact hlast last hmem
  exact List.isChain_iff_getElem.mp hchain

/-- A bridge, as far as the chain is concerned. A call that seals an event commits its block to
the tip, and checks its previous hash unless the counter is 0. -/
structure Sealer (S : Type*) (footerSize : ℕ) where
  step : S → Op → Reply × S
  tip : S → Poly
  eventsSealed : S → UInt64
  receipt : EventBytes footerSize → SebReceipt
  cases : ∀ s op, let r := step s op
    (acceptedEvent footerSize (op, r.1) = none ∧ tip r.2 = tip s
        ∧ eventsSealed r.2 = eventsSealed s)
      ∨ ∃ a, acceptedEvent footerSize (op, r.1) = some a
        ∧ (eventsSealed s > 0 → (receipt a.event).prevHash = tip s)
        ∧ (receipt a.event).eventHash = sebLatticeCommit (tip s) a.event.block
        ∧ tip r.2 = (receipt a.event).eventHash ∧ eventsSealed r.2 = eventsSealed s + 1

namespace Sealer

variable {S : Type*} {footerSize : ℕ} (b : Sealer S footerSize) {s : S}

/-- The events a run sealed. -/
def events (s : S) (ops : List Op) : List (EventBytes footerSize) :=
  ((Machine.exec b.step s ops).1.filterMap (acceptedEvent footerSize)).map Accepted.event

/-- What the events of a run have to do with the lattice log: their blocks, appended to an empty
file, give the file that holds them with their hashes; its tip is that of the handle, and the
verifier accepts it. As receipts they are a chain, unless the counter of the handle has wrapped. -/
structure Logged (s : S) (ops : List Op) : Prop where
  file : (latticeRun [] (faultless ((b.events s ops).map EventBytes.block))).2
    = recordCodec.bytes ((b.events s ops).map fun e => (e.block, (b.receipt e).eventHash))
  tip : sebLatticeTip none (latticeRun [] (faultless ((b.events s ops).map EventBytes.block))).2
    = some (b.tip (Machine.exec b.step s ops).2)
  verified : sebLatticeVerify
    (latticeRun [] (faultless ((b.events s ops).map EventBytes.block))).2 0
      (b.events s ops).length = 1
  intact : (b.events s ops).length ≤ 2 ^ 64 → ChainIntact ((b.events s ops).map b.receipt)

/-- What a run keeps, with `es` the events it sealed so far. -/
structure Inv (es : List (EventBytes footerSize)) (t : S) : Prop where
  records : es.map (fun e => (e.block, (b.receipt e).eventHash))
    = Chain.link sebLatticeCommit 0 (es.map EventBytes.block)
  tip : b.tip t = (es.map EventBytes.block).foldl sebLatticeCommit 0
  last : ∀ e ∈ es.getLast?, b.tip t = (b.receipt e).eventHash
  count : b.eventsSealed t = UInt64.ofNat es.length
  intact : es.length ≤ 2 ^ 64 → ChainIntact (es.map b.receipt)

/-- One more event keeps the invariant. -/
lemma Inv.seal {es : List (EventBytes footerSize)} {t t' : S} (inv : b.Inv es t)
    {e : EventBytes footerSize}
    (hprev : b.eventsSealed t > 0 → (b.receipt e).prevHash = b.tip t)
    (hhash : (b.receipt e).eventHash = sebLatticeCommit (b.tip t) e.block)
    (htip : b.tip t' = (b.receipt e).eventHash)
    (hcount : b.eventsSealed t' = b.eventsSealed t + 1) : b.Inv (es ++ [e]) t' where
  records := by
    rw [List.map_append, List.map_append, Chain.link_append, inv.records, ← inv.tip]
    simp only [List.map_cons, List.map_nil, hhash]
    rfl
  tip := by
    rw [htip, hhash, List.map_append, List.foldl_append, inv.tip]
    rfl
  last := by
    intro e' he'
    obtain rfl : e = e' := by simpa using he'
    exact htip
  count := by
    rw [hcount, inv.count, List.length_append, List.length_singleton, UInt64.ofNat_add]
    rfl
  intact := by
    intro hle
    rw [List.length_append, List.length_singleton] at hle
    rw [List.map_append, List.map_singleton]
    refine chainIntact_concat (inv.intact (by omega)) fun last hlast => ?_
    rw [List.getLast?_map] at hlast
    obtain ⟨e', he', rfl⟩ := Option.map_eq_some_iff.mp hlast
    -- an event has been sealed, and fewer than `2 ^ 64`
    have hne : es.length ≠ 0 := by
      rw [Ne, List.length_eq_zero_iff]
      rintro rfl
      simp at he'
    have hpos : b.eventsSealed t > 0 := by
      rw [inv.count, gt_iff_lt, UInt64.lt_iff_toNat_lt, UInt64.toNat_ofNat', UInt64.toNat_zero]
      omega
    rw [hprev hpos, inv.last e' he']

/-- The invariant holds behind every run. -/
lemma inv_exec (htip : b.tip s = 0) (hcount : b.eventsSealed s = 0) (ops : List Op) :
    b.Inv (b.events s ops) (Machine.exec b.step s ops).2 := by
  have hstart : b.Inv [] s :=
    ⟨rfl, htip, by simp, by rw [hcount]; rfl, fun _ i hi => absurd hi (by simp)⟩
  refine Machine.exec_induction b.step (C := fun _ => True)
    (P := fun hist t => b.Inv ((hist.filterMap (acceptedEvent footerSize)).map Accepted.event) t)
    hstart (fun hist t op _ inv => ?_) ops fun _ _ => trivial
  rw [List.filterMap_append, List.map_append]
  rcases b.cases t op with ⟨hnone, htip, hcount⟩ | ⟨a, hsome, hprev, hhash, htip, hcount⟩
  · rw [List.filterMap_cons_none hnone, List.filterMap_nil, List.map_nil, List.append_nil]
    exact ⟨inv.records, htip ▸ inv.tip, fun e he => htip ▸ inv.last e he, hcount ▸ inv.count,
      inv.intact⟩
  · rw [List.filterMap_cons_some hsome, List.filterMap_nil, List.map_singleton]
    exact inv.seal b hprev hhash htip hcount

lemma logged (htip : b.tip s = 0) (hcount : b.eventsSealed s = 0) (ops : List Op) :
    b.Logged s ops := by
  have inv := b.inv_exec htip hcount ops
  have hfile : (latticeRun [] (faultless ((b.events s ops).map EventBytes.block))).2
      = logBytes 0 ((b.events s ops).map EventBytes.block) := by
    rw [latticeRun_nil]
  exact
    { file := by rw [hfile, logBytes, inv.records]
      tip := by rw [hfile, sebLatticeTip_logBytes, inv.tip]
      verified := by
        rw [hfile]
        exact sebLatticeVerify_logBytes _ (by rw [List.length_map])
      intact := inv.intact }

end Sealer

/-- The kernel NIF seals an event behind others only if its previous hash is the tip. -/
lemma kernel_chain {k : KernelNif.KernelHandle} {e : EventBytes KernelNif.fixedFooterSize}
    {n : UInt64} (h : (KernelNif.nifAppendEvent k e.argv).1 = .ok n) (hpos : k.eventsSealed > 0) :
    KernelNif.prevCommit e = k.tip := by
  by_contra hne
  have hev : inspectEvent KernelNif.fixedFooterSize (.bin e.header) (.bin e.payload)
      (.bin e.footer) = .ok e := inspectEvent_eq_ok.mpr ⟨rfl, rfl, rfl⟩
  simp only [KernelNif.nifAppendEvent, EventBytes.argv, hev, ne_eq, not_true_eq_false, if_false,
    hpos, hne, not_false_eq_true, and_self, if_true] at h
  split_ifs at h

/-- The WAL NIF. -/
def walSealer : Sealer WalNif.WalHandle WalNif.fixedFooterSize where
  step := WalNif.step
  tip := WalNif.WalHandle.tipHash
  eventsSealed := WalNif.WalHandle.eventsSealed
  receipt e := ⟨WalNif.prevHash e, WalNif.eventHash e⟩
  cases h op := by
    cases op with
    | append argv =>
        rcases WalNif.nifAppendEvent_cases h argv with ⟨hne, hsame⟩ | ⟨e, rfl, hadm, heq⟩
        · exact .inl ⟨acceptedEvent_of_ne hne, by rw [WalNif.step, hsame],
            by rw [WalNif.step, hsame]⟩
        · refine .inr ⟨⟨e, h.tipOffset⟩, ?_, hadm.chain, hadm.commitment, ?_, ?_⟩
          · rw [WalNif.step, heq]
            exact acceptedEvent_append e _
          · rw [WalNif.step, heq]
            rfl
          · rw [WalNif.step, heq]
            rfl
    | rotate argv =>
        refine .inl ⟨rfl, ?_⟩
        rcases WalNif.nifRotateSegment_cases h argv with ⟨-, hsame⟩ | ⟨newId, newSeq, -, heq⟩
        · rw [WalNif.step, hsame]
          exact ⟨rfl, rfl⟩
        · rw [WalNif.step, heq]
          exact ⟨rfl, rfl⟩

/-- The kernel NIF. -/
def kernelSealer : Sealer KernelNif.KernelHandle KernelNif.fixedFooterSize where
  step := KernelNif.step
  tip := KernelNif.KernelHandle.tip
  eventsSealed := KernelNif.KernelHandle.eventsSealed
  receipt e := ⟨KernelNif.prevCommit e, KernelNif.recvCommit e⟩
  cases k op := by
    cases op with
    | append argv =>
        rcases KernelNif.nifAppendEvent_cases k argv with
          ⟨hne, hsame⟩ | ⟨e, rfl, -, hcommit, heq⟩
        · exact .inl ⟨acceptedEvent_of_ne hne, by rw [KernelNif.step, hsame],
            by rw [KernelNif.step, hsame]⟩
        · refine .inr ⟨⟨e, k.tipOffset⟩, ?_, fun hpos => ?_, hcommit, ?_, ?_⟩
          · rw [KernelNif.step, heq]
            exact acceptedEvent_append e _
          · exact kernel_chain (by rw [heq]) hpos
          · rw [KernelNif.step, heq]
          · rw [KernelNif.step, heq]
    | rotate argv =>
        refine .inl ⟨rfl, ?_⟩
        rcases KernelNif.nifRotateSegment_cases k argv with ⟨-, hsame⟩ | ⟨newId, newSeq, -, -, heq⟩
        · rw [KernelNif.step, hsame]
          exact ⟨rfl, rfl⟩
        · rw [KernelNif.step, heq]
          exact ⟨rfl, rfl⟩

/-- Every run of either bridge is a lattice log. Whatever calls are made on a handle that
`init_kernel` created, the blocks of the events it seals, appended to an empty file by
`seb_lattice_append`, give exactly the file of these blocks with the events' own hashes; its tip
is the tip of the handle, and `seb_lattice_verify` accepts it. As receipts the events are a chain
as long as no more than `2 ^ 64` of them are sealed. -/
theorem bridges_chain (alloc : Bool) (argv : List Term) (ops : List Op) :
    (∀ h, WalNif.nifInitKernel alloc argv = .ok h → walSealer.Logged h ops)
      ∧ ∀ k, KernelNif.nifInitKernel alloc argv = .ok k → kernelSealer.Logged k ops := by
  rw [WalNif.nifInitKernel, KernelNif.nifInitKernel]
  cases initRequest alloc argv with
  | error reply => simp
  | ok p =>
      obtain ⟨id, seq⟩ := p
      constructor
      · intro h hinit
        obtain rfl := Except.ok.inj hinit
        exact walSealer.logged rfl rfl ops
      · intro k hinit
        obtain rfl := Except.ok.inj hinit
        exact kernelSealer.logged rfl rfl ops

end Nif

end SovereignBus
