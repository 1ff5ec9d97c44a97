import SovereignBus.Universe.Manifest

/-!
The documents of `serde_json` for the records of `seb/universe/src/manifest.rs`.

* `Document`: a JSON document before it is printed and behind its parser.
* `ArtifactManifest.document`, `Document.artifact`: the derived writer and reader of a manifest,
  which the round trip `artifact_document` puts together.
-/

namespace SovereignBus

namespace Substrate

/-- A JSON document. A `time` is a string in RFC 3339, which `chrono` prints and reads. -/
inductive Document where
  | null
  | bool (b : Bool)
  | number (n : ℕ)
  | string (s : String)
  | time (t : DateTime)
  | array (items : List Document)
  | object (members : List (String × Document))

namespace Document

/-! ### Readers -/

/-- The member of an object. -/
def member (name : String) : Document → Option Document
  | .object members => members.lookup name
  | _ => none

def readString : Document → Option String
  | .string s => some s
  | _ => none

def readBool : Document → Option Bool
  | .bool b => some b
  | _ => none

def readTime : Document → Option DateTime
  | .time t => some t
  | _ => none

/-- A `usize`. -/
def readCount : Document → Option UInt64
  | .number n => if n < 2 ^ 64 then some (UInt64.ofNat n) else none
  | _ => none

/-- An `Option`. -/
def readOption {A : Type} (read : Document → Option A) : Document → Option (Option A)
  | .null => some none
  | d => (read d).map some

/-- A `Vec`. -/
def readArray {A : Type} (read : Document → Option A) : Document → Option (List A)
  | .array items => items.mapM read
  | _ => none

lemma readArray_array {A : Type} {read : Document → Option A} {write : A → Document}
    (h : ∀ a, read (write a) = some a) (l : List A) :
    readArray read (.array (l.map write)) = some l := by
  rw [readArray]
  induction l with
  | nil => rfl
  | cons a l ih => simp [h, ih]

end Document

open Document

/-! ### The records -/

/-- The name of the variant. -/
def ArtifactTier.document : ArtifactTier → Document
  | .t0 => .string "T0"
  | .t1 => .string "T1"
  | .t2 => .string "T2"
  | .t3 => .string "T3"

def Document.tier : Document → Option ArtifactTier
  | .string "T0" => some .t0
  | .string "T1" => some .t1
  | .string "T2" => some .t2
  | .string "T3" => some .t3
  | _ => none

/-- The name of the variant, or an object with the other language. -/
def Language.document : Language → Document
  | .rust => .string "Rust"
  | .lean4 => .string "Lean4"
  | .ada => .string "Ada"
  | .pl1 => .string "PL1"
  | .prolog => .string "Prolog"
  | .haskell => .string "Haskell"
  | .other s => .object [("Other", .string s)]

def Document.language : Document → Option Language
  | .string "Rust" => some .rust
  | .string "Lean4" => some .lean4
  | .string "Ada" => some .ada
  | .string "PL1" => some .pl1
  | .string "Prolog" => some .prolog
  | .string "Haskell" => some .haskell
  | .object [("Other", .string s)] => some (.other s)
  | _ => none

def optionDocument : Option String → Document
  | none => .null
  | some s => .string s

def Invariant.document (i : Invariant) : Document :=
  .object [("name", .string i.name), ("description", .string i.description),
    ("proof_reference", optionDocument i.proofReference)]

def Document.invariant (d : Document) : Option Invariant := do
  return ⟨← (← d.member "name").readString, ← (← d.member "description").readString,
    ← readOption readString ((d.member "proof_reference").getD .null)⟩

def ProofMetadata.document (p : ProofMetadata) : Document :=
  .object [("id", .string p.id), ("language", .string p.language), ("hash", .string p.hash),
    ("created_at", .time p.createdAt)]

def Document.proof (d : Document) : Option ProofMetadata := do
  return ⟨← (← d.member "id").readString, ← (← d.member "language").readString,
    ← (← d.member "hash").readString, ← (← d.member "created_at").readTime⟩

def TestMetadata.document (t : TestMetadata) : Document :=
  .object [("id", .string t.id), ("framework", .string t.framework),
    ("pass_count", .number t.passCount.toNat), ("last_run", .time t.lastRun)]

def Document.test (d : Document) : Option TestMetadata := do
  return ⟨← (← d.member "id").readString, ← (← d.member "framework").readString,
    ← (← d.member "pass_count").readCount, ← (← d.member "last_run").readTime⟩

def ArtifactManifest.document (a : ArtifactManifest) : Document :=
  .object [("artifact_id", .string a.artifactId), ("name", .string a.name),
    ("version", .string a.version), ("language", a.language.document), ("tier", a.tier.document),
    ("invariants", .array (a.invariants.map Invariant.document)),
    ("proofs", .array (a.proofs.map ProofMetadata.document)),
    ("tests", .array (a.tests.map TestMetadata.document)),
    ("source_path", optionDocument a.sourcePath), ("doc_url", optionDocument a.docUrl),
    ("content_hash", .string a.contentHash), ("cvm_gate_passed", .bool a.cvmGatePassed),
    ("created_at", .time a.createdAt), ("updated_at", .time a.updatedAt)]

def Document.artifact (d : Document) : Option ArtifactManifest := do
  return {
    artifactId := ← (← d.member "artifact_id").readString
    name := ← (← d.member "name").readString
    version := ← (← d.member "version").readString
    language := ← (← d.member "language").language
    tier := ← (← d.member "tier").tier
    invariants := ← readArray Document.invariant (← d.member "invariants")
    proofs := ← readArray Document.proof (← d.member "proofs")
    tests := ← readArray Document.test (← d.member "tests")
    sourcePath := ← readOption readString ((d.member "source_path").getD .null)
    docUrl := ← readOption readString ((d.member "doc_url").getD .null)
    contentHash := ← (← d.member "content_hash").readString
    -- the field has a default
    cvmGatePassed := ← ((d.member "cvm_gate_passed").getD (.bool false)).readBool
    createdAt := ← (← d.member "created_at").readTime
    updatedAt := ← (← d.member "updated_at").readTime }

/-! ### Round trips -/

@[simp] lemma tier_document (tier : ArtifactTier) : tier.document.tier = some tier := by
  cases tier <;> rfl

@[simp] lemma language_document (language : Language) :
    language.document.language = some language := by
  cases language <;> rfl

@[simp] lemma readOption_document (s : Option String) :
    readOption readString (optionDocument s) = some s := by
  cases s <;> rfl

@[simp] lemma readCount_number (n : UInt64) : readCount (.number n.toNat) = some n := by
  have hlt := n.toNat_lt
  rw [readCount, if_pos hlt, UInt64.ofNat_toNat]

lemma invariant_document (i : Invariant) : i.document.invariant = some i := by
  have hoption := readOption_document i.proofReference
  simp [Invariant.document, Document.invariant, member, readString, List.lookup, hoption]

lemma proof_document (p : ProofMetadata) : p.document.proof = some p := rfl

lemma test_document (t : TestMetadata) : t.document.test = some t := by
  have hcount := readCount_number t.passCount
  simp [TestMetadata.document, Document.test, member, readString, readTime, List.lookup, hcount]

/-- A manifest that is written is read back. -/
theorem artifact_document (a : ArtifactManifest) : a.document.artifact = some a := by
  have hinvariants := readArray_array invariant_document a.invariants
  have hproofs := readArray_array proof_document a.proofs
  have htests := readArray_array test_document a.tests
  simp [ArtifactManifest.document, Document.artifact, member, readString, readBool, readTime,
    List.lookup, hinvariants, hproofs, htests]

end Substrate

end SovereignBus
