import SovereignBus.Lattice.Circuit
import SovereignBus.Library.Framing
import SovereignBus.Library.Machine

/-!
What the two NIF bridges of `seb/runtime/c_src` share: the terms they are
called with, the terms they answer with, and the reading of their arguments.

* `Term`, `Reply`: arguments and answers. `enifGetUint64`, `inspectBinary` and
  `inspectSized` are the tests of the arguments, and `EventBytes` is an event
  that passed the tests on its size.
* `circuit`: the commitment of 96 bytes, a tip and the first 64 bytes of a
  header.
* `rotateRequest`: the arguments of `rotate_segment` and its one check.
* `Op`, `Accepted`: the calls of a run on one handle and the events it
  accepted, with `segments` to tell which segment an event went into.
-/

namespace SovereignBus

open Framing

/-- An argument of a NIF: the handle the run works on, an integer, a binary or
anything else. -/
inductive Term where
  | handle
  | int (n : ℤ)
  | bin (b : List UInt8)
  | other
  deriving DecidableEq

/-- The atoms behind `error` in `{error, Reason}`. -/
inductive Reason where
  | notInitialized
  | invalidHeader
  | invalidPayload
  | invalidFooter
  | segmentFull
  | hashChainBroken
  | invalidCommitment
  | offsetNotMonotonic
  | sequenceNotMonotonic
  deriving DecidableEq

/-- An answer: the `badarg` exception, the atom `error`, `{error, Reason}` or
`{ok, N}`. -/
inductive Reply where
  | badarg
  | error
  | err (reason : Reason)
  | ok (n : UInt64)
  deriving DecidableEq

/-- `enif_get_uint64`: the integers a `uint64_t` can hold. -/
def enifGetUint64 : Term → Option UInt64
  | .int n => if 0 ≤ n ∧ n < 2 ^ 64 then some (UInt64.ofNat n.toNat) else none
  | _ => none

/-- `enif_inspect_binary`. -/
def inspectBinary : Term → Option (List UInt8)
  | .bin b => some b
  | _ => none

/-- `enif_inspect_binary` on a binary that has to have `size` bytes. -/
def inspectSized (size : ℕ) (t : Term) : Option {b : List UInt8 // b.length = size} :=
  match inspectBinary t with
  | some b => if h : b.length = size then some ⟨b, h⟩ else none
  | none => none

lemma inspectBinary_eq_some {t : Term} {b : List UInt8} :
    inspectBinary t = some b ↔ t = .bin b := by
  cases t <;> simp [inspectBinary]

lemma inspectSized_eq_some {size : ℕ} {t : Term} {b : {b : List UInt8 // b.length = size}} :
    inspectSized size t = some b ↔ t = .bin b := by
  cases t with
  | bin b' =>
      rw [inspectSized, inspectBinary]
      by_cases h : b'.length = size
      · simp [h, Subtype.ext_iff]
      · simpa [h] using fun hb : b' = b => h (hb ▸ b.2)
  | handle | int _ | other => simp [inspectSized, inspectBinary]

/-- `FIXED_HEADER_SIZE` of both bridges. -/
abbrev fixedHeaderSize : ℕ := 68

/-- `1ULL << 30`, the bytes of a segment. -/
def segmentSize : UInt64 := (1 : UInt64) <<< (30 : UInt64)

@[simp] lemma segmentSize_toNat : segmentSize.toNat = 2 ^ 30 := by decide

/-- The binaries of an event whose header and footer have their sizes. -/
structure EventBytes (footerSize : ℕ) where
  header : List UInt8
  payload : List UInt8
  footer : List UInt8
  header_length : header.length = fixedHeaderSize
  footer_length : footer.length = footerSize

/-- The tests of both bridges on the three binaries of an event. -/
def inspectEvent (footerSize : ℕ) (header payload footer : Term) :
    Except Reason (EventBytes footerSize) :=
  match inspectSized fixedHeaderSize header with
  | none => .error .invalidHeader
  | some hdr =>
      match inspectBinary payload with
      | none => .error .invalidPayload
      | some pay =>
          match inspectSized footerSize footer with
          | none => .error .invalidFooter
          | some ftr => .ok ⟨hdr, pay, ftr, hdr.2, ftr.2⟩

/-- An event passes the tests as the three binaries it consists of. -/
lemma inspectEvent_eq_ok {footerSize : ℕ} {header payload footer : Term}
    {e : EventBytes footerSize} :
    inspectEvent footerSize header payload footer = .ok e
      ↔ header = .bin e.header ∧ payload = .bin e.payload ∧ footer = .bin e.footer := by
  rw [inspectEvent]
  obtain ⟨hdr, pay, ftr, hhdr, hftr⟩ := e
  constructor
  · intro h
    split at h
    · simp at h
    · next hdr' hh =>
        split at h
        · simp at h
        · next pay' hp =>
            split at h
            · simp at h
            · next ftr' hf =>
                obtain ⟨rfl, rfl, rfl⟩ := by simpa using h
                exact ⟨inspectSized_eq_some.mp hh, inspectBinary_eq_some.mp hp,
                  inspectSized_eq_some.mp hf⟩
  · rintro ⟨rfl, rfl, rfl⟩
    simp only [inspectSized, inspectBinary, hhdr, hftr, dif_pos]

/-- The first 64 bytes of the header, the part the circuit commits to. -/
def EventBytes.block {footerSize : ℕ} (e : EventBytes footerSize) : Payload := field e.header 64 0

/-- `circuit` on the 96 bytes of the buffer `in96`. -/
def circuit (in96 : List UInt8) : Poly := sebLatticeCommit (field in96 32 0) (field in96 64 32)

/-- The circuit on a tip and the first 64 bytes of a header commits the header
to the tip. -/
lemma circuit_tip_header {footerSize : ℕ} (tip : Poly) (e : EventBytes footerSize) :
    circuit (List.ofFn tip ++ e.header.take 64) = sebLatticeCommit tip e.block := by
  have htip : (List.ofFn tip).length = 32 := by rw [List.length_ofFn]
  have htake : field (e.header.take 64) 64 0 = e.block := by
    funext i
    have hi := i.isLt
    simp [EventBytes.block, field_apply, List.getD_eq_getElem?_getD, hi]
  rw [circuit, field_append_left _ (by rw [htip]), field_append_right _ (by rw [htip]), htip,
    Nat.sub_self, field_ofFn, htake]

/-- The arguments with which an event is appended to the handle. -/
def EventBytes.argv {footerSize : ℕ} (e : EventBytes footerSize) : List Term :=
  [.handle, .bin e.header, .bin e.payload, .bin e.footer]

/-- The arguments of `init_kernel`, the id and the sequence of the first
segment; `alloc` tells whether the resource could be allocated. -/
def initRequest (alloc : Bool) : List Term → Except Reply (UInt64 × UInt64)
  | [id, seq] =>
      match enifGetUint64 id with
      | none => .error .badarg
      | some segmentId =>
          match enifGetUint64 seq with
          | none => .error .badarg
          | some segmentSequence =>
              if alloc then .ok (segmentId, segmentSequence) else .error .error
  | _ => .error .badarg

/-- The arguments of `rotate_segment`, the new id and the new sequence, which
has to be above the current one. -/
def rotateRequest (current : UInt64) : List Term → Except Reply (UInt64 × UInt64)
  | [resource, id, seq] =>
      if resource ≠ .handle then .error .error
      else
        match enifGetUint64 id with
        | none => .error .badarg
        | some newId =>
            match enifGetUint64 seq with
            | none => .error .badarg
            | some newSeq =>
                if newSeq ≤ current then .error (.err .sequenceNotMonotonic)
                else .ok (newId, newSeq)
  | _ => .error .badarg

/-! ### Runs on one handle -/

/-- The calls of a run that can change its handle. -/
inductive Op where
  | append (argv : List Term)
  | rotate (argv : List Term)

def Op.argv : Op → List Term
  | append argv => argv
  | rotate argv => argv

/-- Every binary of the call is shorter than `2 ^ 63` bytes. -/
def Op.Short (op : Op) : Prop := ∀ b, Term.bin b ∈ op.argv → b.length < 2 ^ 63

/-- An accepted event and the offset returned for it. -/
structure Accepted (footerSize : ℕ) where
  event : EventBytes footerSize
  offset : UInt64

/-- The first place of an accepted event in its segment. -/
def Accepted.start {footerSize : ℕ} (a : Accepted footerSize) : ℕ := a.offset.toNat

/-- The bytes of an event on the wire. -/
def Accepted.size {footerSize : ℕ} (a : Accepted footerSize) : ℕ :=
  fixedHeaderSize + a.event.payload.length + footerSize

lemma Accepted.size_pos {footerSize : ℕ} (a : Accepted footerSize) : 0 < a.size := by
  rw [size, fixedHeaderSize]
  omega

/-- The event a call got accepted, if it did. -/
def acceptedEvent (footerSize : ℕ) : Op × Reply → Option (Accepted footerSize)
  | (.append [_, header, payload, footer], .ok n) =>
      match inspectEvent footerSize header payload footer with
      | .ok e => some ⟨e, n⟩
      | .error _ => none
  | _ => none

/-- The sequence a call rotated to, if it did. -/
def rotatedTo : Op × Reply → Option UInt64
  | (.rotate [_, _, seq], .ok _) => enifGetUint64 seq
  | _ => none

/-- The accepted events of a history, segment by segment. -/
def segments (footerSize : ℕ) (hist : List (Op × Reply)) : Epochs (Accepted footerSize) :=
  Epochs.of (fun c => (rotatedTo c).isSome) (acceptedEvent footerSize) hist

/-- The sequences a history rotated to. -/
def rotations (hist : List (Op × Reply)) : List UInt64 := hist.filterMap rotatedTo

/-- A request is either turned down, and not answered with `ok`, or it asks for
a higher sequence, which the call rotates to. -/
lemma rotateRequest_cases (current : UInt64) (argv : List Term) :
    (∃ reply, rotateRequest current argv = .error reply ∧ ∀ n, reply ≠ .ok n)
      ∨ ∃ newId newSeq, rotateRequest current argv = .ok (newId, newSeq) ∧ current < newSeq
          ∧ ∀ n, rotatedTo (.rotate argv, .ok n) = some newSeq := by
  match argv with
  | [] | [_] | [_, _] | _ :: _ :: _ :: _ :: _ => exact Or.inl ⟨.badarg, by simp [rotateRequest]⟩
  | [resource, id, seq] =>
      rw [rotateRequest]
      split_ifs with hres
      · exact Or.inl ⟨.error, by simp⟩
      cases enifGetUint64 id with
      | none => exact Or.inl ⟨.badarg, by simp⟩
      | some newId =>
          cases hseq : enifGetUint64 seq with
          | none => exact Or.inl ⟨.badarg, by simp⟩
          | some newSeq =>
              by_cases hle : newSeq ≤ current
              · exact Or.inl ⟨.err .sequenceNotMonotonic, by simp [hle]⟩
              · exact Or.inr ⟨newId, newSeq, by simp [hle], UInt64.not_le.mp hle, fun _ => hseq⟩

section History

variable {footerSize : ℕ} (hist : List (Op × Reply))

lemma acceptedEvent_append (e : EventBytes footerSize) (n : UInt64) :
    acceptedEvent footerSize (.append e.argv, .ok n) = some ⟨e, n⟩ := by
  have h : inspectEvent footerSize (.bin e.header) (.bin e.payload) (.bin e.footer) = .ok e :=
    inspectEvent_eq_ok.mpr ⟨rfl, rfl, rfl⟩
  simp [acceptedEvent, EventBytes.argv, h]

lemma rotatedTo_append (argv : List Term) (reply : Reply) :
    rotatedTo (.append argv, reply) = none := rfl

/-- A call without `ok` is neither an accepted event nor a rotation. -/
lemma acceptedEvent_of_ne {op : Op} {reply : Reply} (h : ∀ n, reply ≠ .ok n) :
    acceptedEvent footerSize (op, reply) = none := by
  unfold acceptedEvent
  split
  · next heq => exact absurd (Prod.ext_iff.mp heq).2 (h _)
  · rfl

lemma rotatedTo_of_ne {op : Op} {reply : Reply} (h : ∀ n, reply ≠ .ok n) :
    rotatedTo (op, reply) = none := by
  unfold rotatedTo
  split
  · next heq => exact absurd (Prod.ext_iff.mp heq).2 (h _)
  · rfl

lemma segments_concat_accepted {c : Op × Reply} {a : Accepted footerSize}
    (hrot : rotatedTo c = none) (hacc : acceptedEvent footerSize c = some a) :
    segments footerSize (hist ++ [c])
      = ⟨(segments footerSize hist).past, (segments footerSize hist).current ++ [a]⟩ := by
  rw [segments, Epochs.of_concat, Epochs.push_item (by simp [hrot]) hacc]
  rfl

lemma segments_concat_rotated {c : Op × Reply} {seq : UInt64} (hrot : rotatedTo c = some seq) :
    segments footerSize (hist ++ [c])
      = ⟨(segments footerSize hist).past ++ [(segments footerSize hist).current], []⟩ := by
  rw [segments, Epochs.of_concat, Epochs.push_mark (by simp [hrot])]
  rfl

lemma segments_concat_other {c : Op × Reply} (hrot : rotatedTo c = none)
    (hacc : acceptedEvent footerSize c = none) :
    segments footerSize (hist ++ [c]) = segments footerSize hist := by
  rw [segments, Epochs.of_concat, Epochs.push_other (by simp [hrot]) hacc]
  rfl

lemma rotations_concat_none {c : Op × Reply} (hrot : rotatedTo c = none) :
    rotations (hist ++ [c]) = rotations hist := by
  simp [rotations, hrot]

lemma rotations_concat_some {c : Op × Reply} {seq : UInt64} (hrot : rotatedTo c = some seq) :
    rotations (hist ++ [c]) = rotations hist ++ [seq] := by
  simp [rotations, hrot]

end History

/-- A number above the last of increasing numbers is above all of them. -/
lemma pairwise_lt_concat {seqs : List UInt64} {seq : UInt64} (hne : seqs ≠ [])
    (h : seqs.Pairwise (· < ·)) (hlast : seqs.getLast hne < seq) :
    (seqs ++ [seq]).Pairwise (· < ·) := by
  refine List.pairwise_append.mpr ⟨h, List.pairwise_singleton _ _, fun x hx y hy => ?_⟩
  obtain rfl := List.mem_singleton.mp hy
  rw [← List.dropLast_append_getLast hne] at h hx
  rcases List.mem_append.mp hx with hx' | hx'
  · exact UInt64.lt_trans ((List.pairwise_append.mp h).2.2 x hx' _ (by simp)) hlast
  · rwa [List.mem_singleton.mp hx']

end SovereignBus
