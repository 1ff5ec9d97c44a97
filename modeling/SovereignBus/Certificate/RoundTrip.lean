import SovereignBus.Certificate.Binding

/-!
`sov_cert_deserialize_cbor` of `src/certificate/sov_cert.c` against
`sov_cert_serialize_cbor`.

* `sovCertDeserializeCbor`: a new certificate that holds the bytes as its canonical form.
* `RoundTrips`: what is read back is the certificate that was written, and is written the
  same way again.
* `roundTrips_iff`: this is so only of a certificate nothing was set in, read back in the
  second it was made.
-/

namespace SovereignBus

namespace Certificate

open Cursor Printed

/-- `sov_cert_deserialize_cbor`, at the time `now`. -/
def sovCertDeserializeCbor (now : UInt64) (bytes : List UInt8) : Option ProofCertificate :=
  if bytes.length = 0 then none
  else
    some { sovCertNew now with
      canonicalJson := some ⟨fun i => bytes.getD i 0, bytes.length, bytes.length⟩ }

/-- The bytes of a certificate are read back to one that says the same, and that has the same
bytes again; `now` is the time they are read. -/
def RoundTrips (buf buf' : ℕ → UInt8) (now : UInt64) (cert : ProofCertificate) : Prop :=
  ∃ r cert', sovCertSerializeCbor buf cert = .ok r ∧ sovCertDeserializeCbor now r.1 = some cert'
    ∧ SamePrinted cert cert' ∧ ∃ r', sovCertSerializeCbor buf' cert' = .ok r' ∧ r'.1 = r.1

/-- Nothing is set in a certificate that was made at the time `now`. -/
structure Unset (now : UInt64) (cert : ProofCertificate) : Prop where
  timestamp : cert.timestamp = now
  programSize : cert.programSize = 0
  obligations : cert.obligations = []
  initialStack : cert.initialStack = []
  finalStack : cert.finalStack = []

lemma version_built (now : UInt64) (calls : List Call) : (built now calls).version = 1 := by
  induction calls using List.reverseRecOn with
  | nil => rfl
  | append_singleton calls c ih =>
      rw [built, List.foldl_concat, ← built, ← ih]
      generalize built now calls = cert
      cases c with
      | setProgram programHash programSize => cases programHash <;> rfl
      | setStacks initStack finalStack => rfl
      | addObligation kind startPc endPc =>
          rw [apply, sovCertAddObligation]
          split_ifs <;> rfl

variable {cert : ProofCertificate} {now : UInt64}

lemma canonicalText_ne_nil (cert : ProofCertificate) : canonicalText cert ≠ [] := fun h => by
  have hlen := le_length_canonicalText cert
  rw [h] at hlen
  simp at hlen

/-- What is read back of a certificate. -/
lemma deserialize_eq_some (now : UInt64) (cert : ProofCertificate) :
    ∃ j, sovCertDeserializeCbor now (canonicalText cert)
      = some { sovCertNew now with canonicalJson := some j } := by
  rw [sovCertDeserializeCbor, if_neg (by simp [canonicalText_ne_nil])]
  exact ⟨_, rfl⟩

lemma unset_of_roundTrips (h : Fits cert) {buf buf' : ℕ → UInt8}
    (hround : RoundTrips buf buf' now cert) : Unset now cert := by
  obtain ⟨r, cert', hr, hcert', hsame, -⟩ := hround
  obtain ⟨canonical, hserialize⟩ := h.serialize buf
  obtain rfl := Except.ok.inj (hserialize.symm.trans hr)
  obtain ⟨j, hread⟩ := deserialize_eq_some now cert
  obtain rfl := Option.some.inj (hread.symm.trans hcert')
  exact ⟨hsame.timestamp, hsame.programSize, List.map_eq_nil_iff.mp hsame.obligations,
    hsame.initialStack, hsame.finalStack⟩

lemma roundTrips_of_unset (h : Fits cert) (hn : Numbered cert) (hversion : cert.version = 1)
    (hunset : Unset now cert) (buf buf' : ℕ → UInt8) : RoundTrips buf buf' now cert := by
  obtain ⟨canonical, hserialize⟩ := h.serialize buf
  obtain ⟨j, hread⟩ := deserialize_eq_some now cert
  have hsame : SamePrinted cert { sovCertNew now with canonicalJson := some j } :=
    ⟨hversion, hunset.timestamp, hunset.programSize, by rw [hunset.obligations]; rfl,
      hunset.initialStack, hunset.finalStack⟩
  have hn' : Numbered { sovCertNew now with canonicalJson := some j } := rfl
  have htext := (canonicalText_eq_iff hn hn').mpr hsame
  have hsize : cert.bufSize = 8192 := by rw [ProofCertificate.bufSize, hunset.obligations]; rfl
  have hfits : Fits { sovCertNew now with canonicalJson := some j } := by
    rw [Fits, ← length_canonicalText, htext, length_canonicalText, hsize] at h
    exact h
  obtain ⟨canonical', hserialize'⟩ := hfits.serialize buf'
  exact ⟨_, _, hserialize, hread, hsame, _, hserialize', htext.symm⟩

/-- A certificate that the calls build and that fits its buffer is read back from its bytes
exactly if nothing was set in it, and it was made at the time it is read. -/
theorem roundTrips_iff {made : UInt64} {calls : List Call} (h : Fits (built made calls))
    (buf buf' : ℕ → UInt8) :
    RoundTrips buf buf' now (built made calls) ↔ Unset now (built made calls) :=
  ⟨unset_of_roundTrips h, fun hunset => roundTrips_of_unset h (numbered_built made calls)
    (version_built made calls) hunset buf buf'⟩

/-- A new certificate. -/
theorem roundTrips_iff_new : RoundTrips (fun _ => 0) (fun _ => 0) 5 (built 5 []) :=
  (roundTrips_iff (by decide) _ _).mpr ⟨rfl, rfl, rfl, rfl, rfl⟩

/-- An obligation is lost. -/
theorem obligation_not_read_back :
    ¬ RoundTrips (fun _ => 0) (fun _ => 0) 5 (built 5 [.addObligation 0 0 10]) := fun h => by
  have hunset := unset_of_roundTrips (by decide) h
  exact absurd hunset.obligations (by decide)

end Certificate

end SovereignBus
