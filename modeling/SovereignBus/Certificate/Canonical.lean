import SovereignBus.Library.Printed
import SovereignBus.Obligations.Store

/-!
The proof certificates of `src/certificate/sov_cert.c` and their canonical form.

* `ProofCertificate`: the record of the header, as far as it is printed or copied;
  `sovCertNew`, `sovCertSetProgram`, `sovCertSetStacks`, `sovCertAddObligation` build it,
  and `built` is what calls of them leave.
* `sovCertCanonicalize`, `sovCertHash`, `sovCertSerializeCbor`: the functions that write the
  canonical form and read it. They fail where they leave its buffer.
* `canonicalText`, `canonicalLength`: what is written with room enough, and its length.
* `built_staysInside_iff`: a certificate is written and read inside the buffer exactly if the
  estimate of its size is not below the length.
* `stack_leaves_buffer`: a stack of 4096 zeros needs more than that.
-/

namespace SovereignBus

namespace Certificate

open Cursor Printed
open Obligations (text)

/-- An obligation, with the number of its kind. -/
structure Obligation where
  id : UInt32
  kind : Int32
  startPc : UInt32
  endPc : UInt32
  deriving DecidableEq

/-- `canonical_json` in its allocation, with `canonical_json_len`. -/
structure Canonical where
  buf : ℕ → UInt8
  size : ℕ
  len : ℕ

structure ProofCertificate where
  version : UInt32
  timestamp : UInt64
  programHash : Fin 32 → UInt8
  programSize : UInt32
  obligations : List Obligation
  initialStack : List Int64
  finalStack : List Int64
  canonicalJson : Option Canonical
  certHash : Fin 32 → UInt8

/-- `sov_cert_new`, at the time `now`. -/
def sovCertNew (now : UInt64) : ProofCertificate where
  version := 1
  timestamp := now
  programHash _ := 0
  programSize := 0
  obligations := []
  initialStack := []
  finalStack := []
  canonicalJson := none
  certHash _ := 0

def sovCertSetProgram (cert : ProofCertificate) (programHash : Option (Fin 32 → UInt8))
    (programSize : UInt32) : ProofCertificate :=
  match programHash with
  | some programHash => { cert with programHash, programSize }
  | none => cert

def sovCertSetStacks (cert : ProofCertificate) (initStack finalStack : List Int64) :
    ProofCertificate :=
  { cert with initialStack := initStack, finalStack }

/-- `sov_cert_add_obligation`: at most 256 of them. -/
def sovCertAddObligation (cert : ProofCertificate) (kind : Int32) (startPc endPc : UInt32) :
    Int32 × ProofCertificate :=
  if cert.obligations.length ≥ 256 then (-1, cert)
  else
    let obl : Obligation := ⟨UInt32.ofNat cert.obligations.length, kind, startPc, endPc⟩
    (0, { cert with obligations := cert.obligations ++ [obl] })

/-- The calls that build a certificate. -/
inductive Call where
  | setProgram (programHash : Option (Fin 32 → UInt8)) (programSize : UInt32)
  | setStacks (initStack finalStack : List Int64)
  | addObligation (kind : Int32) (startPc endPc : UInt32)

def apply (cert : ProofCertificate) : Call → ProofCertificate
  | .setProgram programHash programSize => sovCertSetProgram cert programHash programSize
  | .setStacks initStack finalStack => sovCertSetStacks cert initStack finalStack
  | .addObligation kind startPc endPc => (sovCertAddObligation cert kind startPc endPc).2

/-- The certificate after calls on a new one. -/
def built (now : UInt64) (calls : List Call) : ProofCertificate :=
  calls.foldl apply (sovCertNew now)

/-! ### The canonical form -/

/-- `buf_size`, as a `size_t`. -/
def ProofCertificate.bufSize (cert : ProofCertificate) : ℕ :=
  (8192 + cert.obligations.length * 128) % 2 ^ 64

/-- What is printed before the list of obligations. -/
def headText (cert : ProofCertificate) : List UInt8 :=
  text "\x7b\"version\":" ++ decimal cert.version.toNat ++ text ",\"timestamp\":"
    ++ decimal cert.timestamp.toNat ++ text ",\"program_size\":"
    ++ decimal cert.programSize.toNat ++ text ",\"obligations\":["

def obligationText (obl : Obligation) : List UInt8 :=
  text "\x7b\"id\":" ++ decimal obl.id.toNat ++ text ",\"kind\":" ++ signed obl.kind.toInt
    ++ text ",\"start_pc\":" ++ decimal obl.startPc.toNat ++ text ",\"end_pc\":"
    ++ decimal obl.endPc.toNat ++ text "\x7d"

/-- The text of a value of a stack. -/
def valueText (v : Int64) : List UInt8 := signed v.toInt

def writeCanonical (cert : ProofCertificate) (size : ℕ) (c : Cursor) : Except Overrun Cursor := do
  let c ← snprintf size (headText cert) c
  let c ← separated size (text ",") (fun obl => snprintf size (obligationText obl))
    cert.obligations c
  let c ← snprintf size (text "],\"stacks\":\x7b\"initial\":[") c
  let c ← separated size (text ",") (fun v => snprintf size (valueText v)) cert.initialStack c
  let c ← snprintf size (text "],\"final\":[") c
  let c ← separated size (text ",") (fun v => snprintf size (valueText v)) cert.finalStack c
  snprintf size (text "]\x7d\x7d") c

/-- `sov_cert_canonicalize`, when its buffer is allocated with the contents `buf`. -/
def sovCertCanonicalize (buf : ℕ → UInt8) (cert : ProofCertificate) :
    Except Overrun ProofCertificate := do
  let c ← writeCanonical cert cert.bufSize ⟨0, buf⟩
  return { cert with canonicalJson := some ⟨c.buf, cert.bufSize, c.pos⟩ }

/-- The first `n` bytes of the canonical form. -/
def Canonical.read (j : Canonical) (n : ℕ) : Except Overrun (List UInt8) :=
  if n ≤ j.size then .ok ((List.range n).map j.buf) else .error .outOfBounds

/-- `sov_cert_hash`: every byte of the hash is zero, and then exclusive or with a byte of
the canonical form, if that has so many. -/
def sovCertHash (buf : ℕ → UInt8) (cert : ProofCertificate) :
    Except Overrun (Int32 × ProofCertificate) :=
  match cert.canonicalJson with
  | none => .ok (-1, cert)
  | some _ => do
      let cert ← sovCertCanonicalize buf cert
      match cert.canonicalJson with
      | none => .ok (-1, cert)
      | some j => do
          let bytes ← j.read (min j.len 32)
          return (0, { cert with certHash := fun i => 0 ^^^ bytes.getD i 0 })

/-- `sov_cert_serialize_cbor`: the bytes and the certificate it leaves. -/
def sovCertSerializeCbor (buf : ℕ → UInt8) (cert : ProofCertificate) :
    Except Overrun (List UInt8 × ProofCertificate) := do
  let cert ← sovCertCanonicalize buf cert
  match cert.canonicalJson with
  | none => .ok ([], cert)
  | some j => do
      let bytes ← j.read j.len
      return (bytes, cert)

/-! ### What is written -/

def canonicalText (cert : ProofCertificate) : List UInt8 :=
  headText cert ++ (joined (text ",") (cert.obligations.map obligationText)
    ++ (text "],\"stacks\":\x7b\"initial\":["
    ++ (joined (text ",") (cert.initialStack.map valueText)
    ++ (text "],\"final\":["
    ++ (joined (text ",") (cert.finalStack.map valueText)
    ++ text "]\x7d\x7d")))))

/-- Items of these lengths with a comma between them. -/
def listLength (ns : List ℕ) : ℕ := ns.sum + (ns.length - 1)

def obligationLength (obl : Obligation) : ℕ :=
  37 + (decimal obl.id.toNat).length + (signed obl.kind.toInt).length
    + (decimal obl.startPc.toNat).length + (decimal obl.endPc.toNat).length

/-- The bytes a certificate needs: its numbers and what stands between them. -/
def canonicalLength (cert : ProofCertificate) : ℕ :=
  93 + (decimal cert.version.toNat).length + (decimal cert.timestamp.toNat).length
    + (decimal cert.programSize.toNat).length
    + listLength (cert.obligations.map obligationLength)
    + listLength (cert.initialStack.map fun v => (valueText v).length)
    + listLength (cert.finalStack.map fun v => (valueText v).length)

lemma length_joined_map {A : Type*} {enc : A → List UInt8} {len : A → ℕ}
    (h : ∀ a, (enc a).length = len a) (l : List A) :
    (joined (text ",") (l.map enc)).length = listLength (l.map len) := by
  have hlen : (text ",").length = 1 := rfl
  rw [length_joined, List.map_map, listLength, hlen, mul_one, List.length_map, List.length_map,
    show List.length ∘ enc = len from funext h]

lemma length_obligationText (obl : Obligation) :
    (obligationText obl).length = obligationLength obl := by
  simp [obligationText, obligationLength, text]
  omega

lemma length_canonicalText (cert : ProofCertificate) :
    (canonicalText cert).length = canonicalLength cert := by
  simp only [canonicalText, headText, List.length_append, length_joined_map length_obligationText,
    length_joined_map fun _ => rfl, canonicalLength]
  simp [text]
  omega

lemma writes_canonical (cert : ProofCertificate) (size : ℕ) :
    Writes size (writeCanonical cert size) (canonicalText cert) := by
  have hobligations : Writes size (separated size (text ",")
      (fun obl => snprintf size (obligationText obl)) cert.obligations) _ :=
    .separated fun obl _ => .snprintf (obligationText obl)
  have hinitial : Writes size (separated size (text ",")
      (fun v => snprintf size (valueText v)) cert.initialStack) _ :=
    .separated fun v _ => .snprintf (valueText v)
  have hfinal : Writes size (separated size (text ",")
      (fun v => snprintf size (valueText v)) cert.finalStack) _ :=
    .separated fun v _ => .snprintf (valueText v)
  exact (Writes.snprintf _).andThen (hobligations.andThen ((Writes.snprintf _).andThen
    (hinitial.andThen ((Writes.snprintf _).andThen (hfinal.andThen (Writes.snprintf _))))))

/-- The canonical form is written inside its buffer, its length does not pass it, and the
functions that read it stay inside, whatever stood in their buffers. -/
def StaysInside (cert : ProofCertificate) (buf buf' buf'' : ℕ → UInt8) : Prop :=
  ∃ canonical j, sovCertCanonicalize buf cert = .ok canonical ∧ canonical.canonicalJson = some j
    ∧ j.len ≤ cert.bufSize ∧ (∃ r, sovCertSerializeCbor buf' cert = .ok r)
    ∧ ∃ r, sovCertHash buf'' canonical = .ok r

lemma sovCertCanonicalize_eq_ok {buf : ℕ → UInt8} {cert cert' : ProofCertificate} :
    sovCertCanonicalize buf cert = .ok cert' ↔
      ∃ c, writeCanonical cert cert.bufSize ⟨0, buf⟩ = .ok c
        ∧ cert' = { cert with canonicalJson := some ⟨c.buf, cert.bufSize, c.pos⟩ } := by
  rw [sovCertCanonicalize, Except.bind_eq_ok]
  exact exists_congr fun c => and_congr_right fun _ => ⟨fun h => (Except.ok.inj h).symm,
    fun h => congrArg Except.ok h.symm⟩

/-- What is read of a canonical form inside its buffer. -/
lemma read_eq_ok {j : Canonical} {n : ℕ} (h : n ≤ j.size) :
    j.read n = .ok ((List.range n).map j.buf) := by
  rw [Canonical.read, if_pos h]

lemma range_map_buf (c : Cursor) (n : ℕ) :
    (List.range (min c.pos n)).map c.buf = c.content.take n := by
  rw [content, ← List.map_take, List.take_range, min_comm]

/-- The serialized bytes are what was written. -/
lemma serialize_of_write {buf : ℕ → UInt8} {cert : ProofCertificate} {c : Cursor}
    (h : writeCanonical cert cert.bufSize ⟨0, buf⟩ = .ok c) (hle : c.pos ≤ cert.bufSize) :
    sovCertSerializeCbor buf cert
      = .ok (c.content, { cert with canonicalJson := some ⟨c.buf, cert.bufSize, c.pos⟩ }) := by
  have hcanonical := sovCertCanonicalize_eq_ok.mpr ⟨c, h, rfl⟩
  exact Except.bind_eq_ok.mpr ⟨_, hcanonical, Except.bind_eq_ok.mpr ⟨_, read_eq_ok hle, rfl⟩⟩

/-- The hash is made of the first bytes of what is written again. -/
lemma hash_of_write {buf : ℕ → UInt8} {cert : ProofCertificate} {c : Cursor}
    (h : writeCanonical cert cert.bufSize ⟨0, buf⟩ = .ok c) (hle : c.pos ≤ cert.bufSize)
    (j : Canonical) :
    sovCertHash buf { cert with canonicalJson := some j }
      = .ok (0, { cert with
          canonicalJson := some ⟨c.buf, cert.bufSize, c.pos⟩
          certHash := fun i => 0 ^^^ (c.content.take 32).getD i 0 }) := by
  have hcanonical : sovCertCanonicalize buf { cert with canonicalJson := some j }
      = .ok { cert with canonicalJson := some ⟨c.buf, cert.bufSize, c.pos⟩ } :=
    sovCertCanonicalize_eq_ok.mpr ⟨c, h, rfl⟩
  have hread := read_eq_ok (j := ⟨c.buf, cert.bufSize, c.pos⟩) ((min_le_left c.pos 32).trans hle)
  rw [range_map_buf] at hread
  exact Except.bind_eq_ok.mpr ⟨_, hcanonical, Except.bind_eq_ok.mpr ⟨_, hread, rfl⟩⟩

lemma staysInside_iff (cert : ProofCertificate) (buf buf' buf'' : ℕ → UInt8) :
    StaysInside cert buf buf' buf'' ↔ canonicalLength cert ≤ cert.bufSize := by
  have hinside := (writes_canonical cert cert.bufSize).inside_iff
  rw [length_canonicalText] at hinside
  constructor
  · rintro ⟨canonical, j, hcanonical, hj, hle, -⟩
    obtain ⟨c, hwrite, rfl⟩ := sovCertCanonicalize_eq_ok.mp hcanonical
    obtain rfl := Option.some.inj hj
    exact (hinside buf).mp ⟨c, hwrite, hle⟩
  · intro h
    obtain ⟨c, hwrite, hle⟩ := (hinside buf).mpr h
    obtain ⟨c', hwrite', hle'⟩ := (hinside buf').mpr h
    obtain ⟨c'', hwrite'', hle''⟩ := (hinside buf'').mpr h
    exact ⟨_, _, sovCertCanonicalize_eq_ok.mpr ⟨c, hwrite, rfl⟩, rfl, hle,
      ⟨_, serialize_of_write hwrite' hle'⟩, ⟨_, hash_of_write hwrite'' hle'' _⟩⟩

/-- Every certificate the calls build is written and read inside its buffer exactly if the
estimate is not below the bytes it needs. -/
theorem built_staysInside_iff (now : UInt64) (calls : List Call) (buf buf' buf'' : ℕ → UInt8) :
    StaysInside (built now calls) buf buf' buf''
      ↔ canonicalLength (built now calls) ≤ (built now calls).bufSize :=
  staysInside_iff (built now calls) buf buf' buf''

/-- A stack of zeros. -/
def zeros : List Call := [.setStacks (List.replicate 4096 0) []]

/-- It does not fit. -/
theorem stack_leaves_buffer : ¬ ∃ buf buf' buf'', StaysInside (built 0 zeros) buf buf' buf'' := by
  rintro ⟨buf, buf', buf'', h⟩
  have hle := (staysInside_iff (built 0 zeros) buf buf' buf'').mp h
  have hstack : (built 0 zeros).initialStack = List.replicate 4096 0 := rfl
  have hsize : (built 0 zeros).bufSize = 8192 := rfl
  have hpos : 0 < (valueText 0).length := List.length_pos_of_ne_nil (signed_ne_nil _)
  have hlist : listLength (List.replicate 4096 (valueText 0).length)
      = 4096 * (valueText 0).length + 4095 := by
    rw [listLength, List.sum_replicate, List.length_replicate, smul_eq_mul]
  rw [canonicalLength, hstack, hsize, List.map_replicate, hlist] at hle
  omega

end Certificate

end SovereignBus
