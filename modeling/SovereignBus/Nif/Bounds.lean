import SovereignBus.Nif.Wal

/-!
The size and the payload of an event at the WAL NIF.

* `accepts_iff`: an event is accepted if the handle is initialized and the four checks pass.
  None of them looks at the payload.
* `SizeCheckExact`: the check of the size is one of integers. `sizeCheckExact_iff`: it is
  below the width of the sum, and not from there on.
* `PayloadBound`: a header and a footer are accepted with one payload only, of the size the
  header declares. `payloadBound_iff`: they are if they are not accepted at all.
-/

namespace SovereignBus

namespace WalNif

open Framing

/-- The call answers `ok`. -/
def Accepts (h : WalHandle) (argv : List Term) : Prop := ∃ n, (nifAppendEvent h argv).1 = .ok n

lemma argv_injective {e e' : EventBytes fixedFooterSize} (h : e.argv = e'.argv) : e = e' := by
  obtain ⟨header, payload, footer, _, _⟩ := e
  simp only [EventBytes.argv, List.cons.injEq, Term.bin.injEq] at h
  obtain ⟨-, rfl, rfl, rfl, -⟩ := h
  rfl

/-- No call on a handle that is not initialized is accepted. -/
lemma initialized_of_accepts {h : WalHandle} {argv : List Term} (haccepts : Accepts h argv) :
    h.initialized = true := by
  obtain ⟨n, hn⟩ := haccepts
  by_contra hinit
  rw [Bool.not_eq_true] at hinit
  match argv with
  | [] | [_] | [_, _] | [_, _, _] | _ :: _ :: _ :: _ :: _ :: _ => simp [nifAppendEvent] at hn
  | [resource, header, payload, footer] =>
      rw [nifAppendEvent] at hn
      split_ifs at hn

/-- When an event is accepted. -/
lemma accepts_iff (h : WalHandle) (e : EventBytes fixedFooterSize) :
    Accepts h e.argv ↔ h.initialized = true ∧ Admitted h e := by
  constructor
  · intro haccepts
    refine ⟨initialized_of_accepts haccepts, ?_⟩
    obtain ⟨n, hn⟩ := haccepts
    rcases nifAppendEvent_cases h e.argv with ⟨hne, -⟩ | ⟨e', hargv, hadm, -⟩
    · exact absurd hn (hne n)
    · rwa [argv_injective hargv]
  · rintro ⟨hinit, hadm⟩
    exact ⟨h.tipOffset, by rw [nifAppendEvent_eq_ok hinit hadm]⟩

/-- An accepted call carries an event. -/
lemma exists_event_of_accepts {h : WalHandle} {argv : List Term} (haccepts : Accepts h argv) :
    ∃ e : EventBytes fixedFooterSize, argv = e.argv := by
  obtain ⟨n, hn⟩ := haccepts
  rcases nifAppendEvent_cases h argv with ⟨hne, -⟩ | ⟨e, hargv, -⟩
  · exact absurd hn (hne n)
  · exact ⟨e, hargv⟩

/-! ### The size -/

/-- The field `payload_size` of a header, the number whose digits are the bytes 24 to 27. -/
def declaredSize (header : List UInt8) : ℕ :=
  Nat.ofDigits 256 ((List.range 4).map fun i => (header.getD (24 + i) 0).toNat)

lemma payloadSize_toNat (e : EventBytes fixedFooterSize) :
    (payloadSize e).toNat = declaredSize e.header :=
  toNat_foldl_or_shiftLeft (fun i => e.header.getD (24 + i) 0) le_rfl

/-- The size of the event in the width of its sum. -/
lemma eventSize_toNat (e : EventBytes fixedFooterSize) :
    (eventSize e).toNat = (68 + declaredSize e.header + 128) % 2 ^ 32 := by
  rw [eventSize, UInt32.toNat_toUInt64, UInt32.toNat_add, UInt32.toNat_add, payloadSize_toNat,
    Nat.mod_add_mod]
  rfl

/-- The checks an event has to pass, but for that of its size. -/
structure OtherChecks (h : WalHandle) (e : EventBytes fixedFooterSize) : Prop where
  initialized : h.initialized = true
  chain : h.eventsSealed > 0 → prevHash e = h.tipHash
  commitment : eventHash e = sebLatticeCommit h.tipHash e.block
  monotonic : h.eventsSealed > 0 → h.tipOffset < newOffset e

/-- The event is accepted if and only if it fits into a segment. -/
def SizeCheckExact (h : WalHandle) (e : EventBytes fixedFooterSize) : Prop :=
  Accepts h e.argv ↔ 68 + declaredSize e.header + 128 ≤ 2 ^ 30

lemma accepts_iff_size {h : WalHandle} {e : EventBytes fixedFooterSize}
    (hchecks : OtherChecks h e) :
    Accepts h e.argv ↔ (68 + declaredSize e.header + 128) % 2 ^ 32 ≤ 2 ^ 30 := by
  have hfits : eventSize e ≤ segmentSize
      ↔ (68 + declaredSize e.header + 128) % 2 ^ 32 ≤ 2 ^ 30 := by
    rw [UInt64.le_iff_toNat_le, eventSize_toNat, segmentSize_toNat]
  rw [accepts_iff, ← hfits]
  exact ⟨fun haccepts => haccepts.2.fits, fun hsize =>
    ⟨hchecks.initialized, hchecks.chain, hchecks.commitment, hchecks.monotonic, hsize⟩⟩

/-- Behind the other checks, the check of the size does what it is for exactly if the sum of
the sizes is one of 32 bits. -/
theorem sizeCheckExact_iff {h : WalHandle} {e : EventBytes fixedFooterSize}
    (hchecks : OtherChecks h e) :
    SizeCheckExact h e ↔ 68 + declaredSize e.header + 128 < 2 ^ 32 := by
  have hdeclared : declaredSize e.header < 2 ^ 32 := by
    rw [← payloadSize_toNat]
    exact (payloadSize e).toNat_lt
  rw [SizeCheckExact, accepts_iff_size hchecks]
  constructor
  · intro hexact
    -- a wrapped sum is less than 196, so the event passes, far beyond a segment
    by_contra hwrap
    have hfits := hexact.1 (by omega)
    omega
  · intro hlt
    rw [Nat.mod_eq_of_lt hlt]

/-- The event with a header and a payload, committed to `tip`. -/
def committedEvent (tip : Poly) (header payload : List UInt8)
    (hlen : header.length = fixedHeaderSize) : EventBytes fixedFooterSize where
  header := header
  payload := payload
  footer := List.ofFn tip
    ++ (List.ofFn (sebLatticeCommit tip (field header 64 0)) ++ List.replicate 64 0)
  header_length := hlen
  footer_length := by
    rw [List.length_append, List.length_append, List.length_ofFn, List.length_ofFn,
      List.length_replicate]

/-- Such an event passes the checks of a handle that has sealed nothing. -/
lemma otherChecks_committedEvent {h : WalHandle} (hinit : h.initialized = true)
    (hnone : ¬ h.eventsSealed > 0) (header payload : List UInt8)
    (hlen : header.length = fixedHeaderSize) :
    OtherChecks h (committedEvent h.tipHash header payload hlen) where
  initialized := hinit
  chain hpos := absurd hpos hnone
  commitment := by
    rw [eventHash, committedEvent, field_append_right _ (by rw [List.length_ofFn]),
      List.length_ofFn, Nat.sub_self, field_append_left _ (by rw [List.length_ofFn]), field_ofFn]
    rfl
  monotonic hpos := absurd hpos hnone

/-- A header of zeros. -/
def zeroHeader : List UInt8 := List.replicate 68 0

/-- A header that declares a payload of one byte less than 4 GiB. -/
def hugeHeader : List UInt8 :=
  List.replicate 24 0 ++ (List.replicate 4 255 ++ List.replicate 40 0)

lemma zeroHeader_length : zeroHeader.length = fixedHeaderSize := rfl

lemma hugeHeader_length : hugeHeader.length = fixedHeaderSize := rfl

/-- The size check on an event without a payload. -/
theorem sizeCheckExact_iff_zero :
    SizeCheckExact firstWal (committedEvent firstWal.tipHash zeroHeader [] zeroHeader_length)
      ↔ 68 + declaredSize zeroHeader + 128 < 2 ^ 32 :=
  sizeCheckExact_iff (otherChecks_committedEvent rfl (by decide) _ _ _)

/-- An event that claims almost 4 GiB is accepted. -/
theorem not_sizeCheckExact_huge :
    ¬ SizeCheckExact firstWal
      (committedEvent firstWal.tipHash hugeHeader [] hugeHeader_length) := by
  have hchecks := otherChecks_committedEvent (h := firstWal) rfl (by decide) hugeHeader []
    hugeHeader_length
  have hdeclared : declaredSize hugeHeader = 2 ^ 32 - 1 := by decide
  intro hexact
  have hle := hexact.1 ((accepts_iff_size hchecks).2 (by
    rw [show (committedEvent firstWal.tipHash hugeHeader [] hugeHeader_length).header
      = hugeHeader from rfl, hdeclared]
    decide))
  rw [show (committedEvent firstWal.tipHash hugeHeader [] hugeHeader_length).header
    = hugeHeader from rfl, hdeclared] at hle
  exact absurd hle (by decide)

/-! ### The payload -/

/-- The call that appends the three binaries. -/
def eventArgv (header payload footer : List UInt8) : List Term :=
  [.handle, .bin header, .bin payload, .bin footer]

/-- Whatever is accepted with the header and the footer has the size the header declares, and
there is one such payload at most. -/
structure PayloadBound (h : WalHandle) (header footer : List UInt8) : Prop where
  size : ∀ payload, Accepts h (eventArgv header payload footer) →
    payload.length = declaredSize header
  content : ∀ payload payload', Accepts h (eventArgv header payload footer) →
    Accepts h (eventArgv header payload' footer) → payload = payload'

/-- The header and the footer pass the checks of the handle. -/
def Passes (h : WalHandle) (header footer : List UInt8) : Prop :=
  h.initialized = true
    ∧ ∃ e : EventBytes fixedFooterSize, e.header = header ∧ e.footer = footer ∧ Admitted h e

/-- Acceptance does not depend on the payload. -/
lemma accepts_eventArgv_iff (h : WalHandle) (header payload footer : List UInt8) :
    Accepts h (eventArgv header payload footer) ↔ Passes h header footer := by
  constructor
  · intro haccepts
    obtain ⟨e, hargv⟩ := exists_event_of_accepts haccepts
    rw [hargv, accepts_iff] at haccepts
    simp only [eventArgv, EventBytes.argv, List.cons.injEq, Term.bin.injEq] at hargv
    exact ⟨haccepts.1, e, hargv.2.1.symm, hargv.2.2.2.1.symm, haccepts.2⟩
  · rintro ⟨hinit, e, rfl, rfl, hadm⟩
    have hadm' : Admitted h { e with payload := payload } :=
      ⟨hadm.chain, hadm.commitment, hadm.monotonic, hadm.fits⟩
    exact (accepts_iff h { e with payload := payload }).2 ⟨hinit, hadm'⟩

/-- A header and a footer are bound to a payload exactly if they are accepted with none. -/
theorem payloadBound_iff (h : WalHandle) (header footer : List UInt8) :
    PayloadBound h header footer ↔ ¬ Passes h header footer := by
  constructor
  · intro hbound hpasses
    have haccepts := fun payload => (accepts_eventArgv_iff h header payload footer).2 hpasses
    exact absurd (hbound.content [] [0] (haccepts _) (haccepts _)) (by decide)
  · intro hpasses
    have hnone := fun payload => mt (accepts_eventArgv_iff h header payload footer).1 hpasses
    exact ⟨fun payload haccepts => absurd haccepts (hnone payload),
      fun payload _ haccepts => absurd haccepts (hnone payload)⟩

/-- A first event whose header declares no payload is accepted with any. -/
theorem not_payloadBound_zero :
    ¬ PayloadBound firstWal zeroHeader
      (committedEvent firstWal.tipHash zeroHeader [] zeroHeader_length).footer := by
  intro hbound
  have hchecks := otherChecks_committedEvent (h := firstWal) rfl (by decide) zeroHeader [0]
    zeroHeader_length
  have haccepts : Accepts firstWal
      (committedEvent firstWal.tipHash zeroHeader [0] zeroHeader_length).argv :=
    (accepts_iff_size hchecks).2 (by decide)
  exact absurd (hbound.size [0] haccepts) (by decide)

end WalNif

end SovereignBus
