import SovereignBus.Nif.Wal
import SovereignBus.Protocol.Log

/-!
The WAL NIF against the append rule of the protocol.

* `toSEBEvent`, `walLog`: the protocol's view of an accepted event and of the
  events a run accepted, newest first.
* `Stands`: the handle stands for a log. An accepted event is an `appendEvent`
  once something has been sealed (`commit_refines_appendEvent`).
* `wal_refines_protocol`: the tests that depend on `events_sealed` leave out the
  events accepted while that counter is 0; a run writes a valid log exactly
  when these events meet the obligations by themselves.
-/

namespace SovereignBus

namespace WalNif

open Framing Protocol

/-- The protocol's view of an event. -/
def toSEBEvent (e : EventBytes fixedFooterSize) : SEBEvent :=
  ⟨newOffset e, e.block, prevHash e, eventHash e⟩

/-- The events a history accepted, newest first. -/
def walLog (hist : List (Op × Reply)) : List SEBEvent :=
  ((hist.filterMap (acceptedEvent fixedFooterSize)).map fun a => toSEBEvent a.event).reverse

lemma walLog_concat_accepted {hist : List (Op × Reply)} {c : Op × Reply}
    {a : Accepted fixedFooterSize} (h : acceptedEvent fixedFooterSize c = some a) :
    walLog (hist ++ [c]) = toSEBEvent a.event :: walLog hist := by
  simp [walLog, h]

lemma walLog_concat_other {hist : List (Op × Reply)} {c : Op × Reply}
    (h : acceptedEvent fixedFooterSize c = none) : walLog (hist ++ [c]) = walLog hist := by
  simp [walLog, h]

/-- The handle stands for the log. -/
structure Stands (h : WalHandle) (log : List SEBEvent) : Prop where
  tipHash : h.tipHash = tipHash log
  tipOffset : h.tipOffset = tipOffset log
  eventsSealed : h.eventsSealed = UInt64.ofNat log.length

/-- The counter wraps, so it is 0 on the empty log and at every multiple of
`2 ^ 64`. -/
lemma ofNat_pos_iff (n : ℕ) : UInt64.ofNat n > 0 ↔ ¬ 2 ^ 64 ∣ n := by
  rw [gt_iff_lt, UInt64.lt_iff_toNat_lt, UInt64.toNat_ofNat', UInt64.toNat_zero]
  omega

lemma Stands.eventsSealed_pos_iff {h : WalHandle} {log : List SEBEvent} (hst : Stands h log) :
    h.eventsSealed > 0 ↔ ¬ 2 ^ 64 ∣ log.length := by
  rw [hst.eventsSealed, ofNat_pos_iff]

/-- The obligations the NIF tests only when something has been sealed. -/
def Linked (older : List SEBEvent) (e : SEBEvent) : Prop :=
  ChainLink e (tipHash older) ∧ OffsetAdvances e (tipOffset older)

/-- What the NIF makes sure of. -/
def Checked (older : List SEBEvent) (e : SEBEvent) : Prop :=
  HashValid e (tipHash older) ∧ (¬ 2 ^ 64 ∣ older.length → Linked older e)

/-- An admitted event is checked against the log the handle stands for. -/
lemma Stands.checked {h : WalHandle} {log : List SEBEvent} (hst : Stands h log)
    {e : EventBytes fixedFooterSize} (hadm : Admitted h e) : Checked log (toSEBEvent e) := by
  refine ⟨?_, fun hpos => ⟨?_, ?_⟩⟩
  · rw [HashValid, ← hst.tipHash]
    exact hadm.commitment
  · rw [ChainLink, ← hst.tipHash]
    exact hadm.chain (hst.eventsSealed_pos_iff.mpr hpos)
  · rw [OffsetAdvances, ← hst.tipOffset]
    exact hadm.monotonic (hst.eventsSealed_pos_iff.mpr hpos)

/-- The commit of an event puts it in front of the log. -/
lemma Stands.commit {h : WalHandle} {log : List SEBEvent} (hst : Stands h log)
    (e : EventBytes fixedFooterSize) : Stands (h.commit e) (toSEBEvent e :: log) where
  tipHash := rfl
  tipOffset := rfl
  eventsSealed := by
    rw [List.length_cons, UInt64.ofNat_add, ← hst.eventsSealed]
    rfl

/-- Once something has been sealed, an admitted event is an `appendEvent` of
the protocol. -/
theorem commit_refines_appendEvent {h : WalHandle} {log : ValidLogState}
    (hst : Stands h log.events) (hpos : h.eventsSealed > 0) {e : EventBytes fixedFooterSize}
    (hadm : Admitted h e) :
    ∃ hobl : Admissible log.events (toSEBEvent e),
      Stands (h.commit e) (appendEvent log (toSEBEvent e) hobl).events := by
  obtain ⟨hhash, hlinked⟩ := hst.checked hadm
  obtain ⟨hchain, hoff⟩ := hlinked (hst.eventsSealed_pos_iff.mp hpos)
  exact ⟨⟨hchain, hhash, hoff⟩, hst.commit e⟩

/-- The run invariant: the handle stands for the log of the accepted events,
all of them checked. -/
lemma stands_exec {h : WalHandle} (h0 : Stands h []) (calls : List (List Term)) :
    let run := Machine.exec step h (calls.map .append)
    Stands run.2 (walLog run.1)
      ∧ ∀ e older, (e :: older) <:+ walLog run.1 → Checked older e := by
  refine Machine.exec_induction step (C := fun op => ∃ argv, op = .append argv)
    (P := fun hist t => Stands t (walLog hist)
      ∧ ∀ e older, (e :: older) <:+ walLog hist → Checked older e)
    ⟨h0, by simp [walLog]⟩ ?_ (calls.map .append) (by simp)
  rintro hist t _ ⟨argv, rfl⟩ ⟨hst, hall⟩
  rcases nifAppendEvent_cases t argv with ⟨hne, hsame⟩ | ⟨e, rfl, hadm, heq⟩
  · rw [step, hsame, walLog_concat_other (acceptedEvent_of_ne hne)]
    exact ⟨hst, hall⟩
  · rw [step, heq, walLog_concat_accepted (acceptedEvent_append e _)]
    refine ⟨hst.commit e, fun d older hsuf => ?_⟩
    rcases List.suffix_cons_iff.mp hsuf with hd | hsuf'
    · obtain ⟨rfl, rfl⟩ := List.cons.inj hd
      exact hst.checked hadm
    · exact hall d older hsuf'

lemma stands_init {alloc : Bool} {argv : List Term} {h : WalHandle}
    (hinit : nifInitKernel alloc argv = .ok h) : Stands h [] := by
  rw [nifInitKernel] at hinit
  split at hinit
  · exact absurd hinit (by simp)
  · obtain rfl := Except.ok.inj hinit
    exact ⟨rfl, rfl, rfl⟩

/-- The WAL NIF against the protocol, over every run of appends on a handle
that `init_kernel` created: `older` are the events accepted before `e`. -/
theorem wal_refines_protocol {alloc : Bool} {argv : List Term} {h : WalHandle}
    (hinit : nifInitKernel alloc argv = .ok h) (calls : List (List Term)) :
    let run := Machine.exec step h (calls.map .append)
    (∀ e older, (e :: older) <:+ walLog run.1 →
        HashValid e (tipHash older) ∧ (¬ 2 ^ 64 ∣ older.length → Linked older e))
      ∧ ((∃ log : ValidLogState, log.events = walLog run.1)
          ↔ ∀ e older, (e :: older) <:+ walLog run.1 → 2 ^ 64 ∣ older.length → Linked older e)
      ∧ Stands run.2 (walLog run.1)
      ∧ ∀ argv', (∀ n, (nifAppendEvent run.2 argv').1 ≠ .ok n) →
          (nifAppendEvent run.2 argv').2 = run.2 := by
  intro run
  obtain ⟨hst, hall⟩ := stands_exec (stands_init hinit) calls
  refine ⟨hall, ⟨?_, fun hexempt => ?_⟩, hst, fun argv' => step_of_ne run.2 (.append argv')⟩
  · rintro ⟨log, hlog⟩ e older hsuf _
    have hobl := valid_iff_forall.mp (hlog ▸ log.valid) e older hsuf
    exact ⟨hobl.chain, hobl.offset⟩
  · refine ⟨⟨walLog run.1, valid_iff_forall.mpr fun e older hsuf => ?_⟩, rfl⟩
    obtain ⟨hhash, hlinked⟩ := hall e older hsuf
    have hl : Linked older e :=
      if hdvd : 2 ^ 64 ∣ older.length then hexempt e older hsuf hdvd else hlinked hdvd
    exact ⟨hl.1, hhash, hl.2⟩

/-- A first event that neither links to the genesis hash nor has an offset
above 0. -/
def rogueEvent : EventBytes fixedFooterSize :=
  offsetEvent (fun _ => 255) firstWal.tipHash 0

/-- The kernel after it. -/
def rogueWal : WalHandle := firstWal.commit rogueEvent

lemma step_rogueEvent :
    step firstWal (.append rogueEvent.argv) = (.ok firstWal.tipOffset, rogueWal) := by
  have hadm : Admitted firstWal rogueEvent :=
    admitted_offsetEvent (by simp [firstWal]) (by simp [firstWal])
  rw [step, nifAppendEvent_eq_ok rfl hadm]
  rfl

/-- A run of that event alone is answered with `ok`. -/
lemma exec_rogueEvent :
    (Machine.exec step firstWal ([rogueEvent.argv].map .append)).1
      = [(.append rogueEvent.argv, .ok 0)] := by
  simp only [List.map_cons, List.map_nil, Machine.exec, step_rogueEvent]
  rfl

lemma walLog_rogueEvent :
    walLog (Machine.exec step firstWal ([rogueEvent.argv].map .append)).1
      = [toSEBEvent rogueEvent] := by
  rw [exec_rogueEvent, ← List.nil_append [(_, _)],
    walLog_concat_accepted (acceptedEvent_append _ _)]
  rfl

/-- The rogue event does not link to the genesis hash. -/
lemma not_chainLink_rogueEvent : ¬ ChainLink (toSEBEvent rogueEvent) (tipHash []) := by
  intro h
  have hprev : prevHash rogueEvent = 0 := h
  rw [rogueEvent, prevHash_offsetEvent] at hprev
  exact absurd (congrFun hprev 0) (by decide)

/-- An event that links to the rogue event and advances the offset. -/
def linkedEvent : EventBytes fixedFooterSize := offsetEvent rogueWal.tipHash rogueWal.tipHash 1

lemma walLog_linkedEvent :
    walLog (Machine.exec step firstWal ([rogueEvent.argv, linkedEvent.argv].map .append)).1
      = [toSEBEvent linkedEvent, toSEBEvent rogueEvent] := by
  have hoff : rogueWal.tipOffset = 0 := newOffset_offsetEvent _ _ _
  have hadm : Admitted rogueWal linkedEvent :=
    admitted_offsetEvent (fun _ => rfl) (by rw [hoff]; decide)
  have hcall : step rogueWal (.append linkedEvent.argv)
      = (.ok rogueWal.tipOffset, rogueWal.commit linkedEvent) := by
    rw [step, nifAppendEvent_eq_ok rfl hadm]
  simp only [List.map_cons, List.map_nil, Machine.exec, step_rogueEvent, hcall]
  rw [show [(_, _), (_, _)] = [(_, _)] ++ [(_, _)] from rfl, walLog_concat_accepted
    (acceptedEvent_append _ _), ← List.nil_append [(_, _)],
    walLog_concat_accepted (acceptedEvent_append _ _)]
  rfl

/-- The hash of the rogue event is tested, and all of the event behind it; the log of the
two is not a valid one. -/
theorem wal_refines_protocol_linked :
    let run := Machine.exec step firstWal ([rogueEvent.argv, linkedEvent.argv].map .append)
    HashValid (toSEBEvent rogueEvent) (tipHash [])
      ∧ HashValid (toSEBEvent linkedEvent) (tipHash [toSEBEvent rogueEvent])
      ∧ Linked [toSEBEvent rogueEvent] (toSEBEvent linkedEvent)
      ∧ ¬ ∃ log : ValidLogState, log.events = walLog run.1 := by
  intro run
  have hlog : walLog run.1 = [toSEBEvent linkedEvent, toSEBEvent rogueEvent] := walLog_linkedEvent
  obtain ⟨hall, hvalid, -⟩ :=
    wal_refines_protocol nifInitKernel_firstWal [rogueEvent.argv, linkedEvent.argv]
  obtain ⟨hhash, hlinked⟩ :=
    hall (toSEBEvent linkedEvent) [toSEBEvent rogueEvent] (by rw [walLog_linkedEvent])
  have hrogue : [toSEBEvent rogueEvent] <:+ walLog run.1 := ⟨[toSEBEvent linkedEvent], hlog.symm⟩
  refine ⟨(hall _ [] hrogue).1, hhash, hlinked (by decide), fun hexists => ?_⟩
  exact not_chainLink_rogueEvent (hvalid.mp hexists _ [] hrogue (dvd_zero _)).1

/-- The call with the rogue event is answered with `ok`, and the log it starts
breaks both obligations. -/
theorem wal_accepts_rogue :
    let run := Machine.exec step firstWal ([rogueEvent.argv].map .append)
    nifInitKernel true [.int 1, .int 0] = .ok firstWal
      ∧ run.1 = [(.append rogueEvent.argv, .ok 0)]
      ∧ walLog run.1 = [toSEBEvent rogueEvent]
      ∧ ¬ ChainIntact (walLog run.1)
      ∧ ¬ OffsetAdvances (toSEBEvent rogueEvent) (tipOffset [])
      ∧ ¬ ∃ log : ValidLogState, log.events = walLog run.1 := by
  have hchain : ¬ ChainIntact [toSEBEvent rogueEvent] := not_chainLink_rogueEvent
  have hoff : newOffset rogueEvent = 0 := newOffset_offsetEvent _ _ _
  refine ⟨nifInitKernel_firstWal, exec_rogueEvent, walLog_rogueEvent, ?_, ?_, ?_⟩
  · rw [walLog_rogueEvent]
    exact hchain
  · rw [OffsetAdvances, toSEBEvent, hoff]
    decide
  · rintro ⟨log, hevents⟩
    rw [walLog_rogueEvent] at hevents
    exact hchain (hevents ▸ log.valid.chainIntact)

end WalNif

end SovereignBus
