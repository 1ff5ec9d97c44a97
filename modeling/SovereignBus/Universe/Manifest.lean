import Mathlib

/-!
The artifact manifests of `seb/universe/src/manifest.rs`.

* `ArtifactTier`, `Language`, `Invariant`, `ProofMetadata`, `TestMetadata`,
  `ArtifactManifest`: the records of the source, without the custom metadata that no
  function reads.
* The builder operations and `verifyInvariantsCovered`, `getLeanProofs` have the
  source's names. A reading of the clock is an argument.
-/

namespace SovereignBus

namespace Substrate

inductive ArtifactTier where
  | t0
  | t1
  | t2
  | t3
  deriving DecidableEq

/-- `as_u8`. -/
def ArtifactTier.asU8 : ArtifactTier → UInt8
  | .t0 => 0
  | .t1 => 1
  | .t2 => 2
  | .t3 => 3

/-- `from_u8`. -/
def ArtifactTier.fromU8 (val : UInt8) : Option ArtifactTier :=
  if val = 0 then some .t0
  else if val = 1 then some .t1
  else if val = 2 then some .t2
  else if val = 3 then some .t3
  else none

inductive Language where
  | rust
  | lean4
  | ada
  | pl1
  | prolog
  | haskell
  | other (s : String)

/-- `as_str`. -/
def Language.asStr : Language → String
  | .rust => "rust"
  | .lean4 => "lean4"
  | .ada => "ada"
  | .pl1 => "pl1"
  | .prolog => "prolog"
  | .haskell => "haskell"
  | .other s => s

/-- `from_str`. -/
def Language.fromStr (s : String) : Language :=
  if s = "rust" then .rust
  else if s = "lean4" then .lean4
  else if s = "ada" then .ada
  else if s = "pl1" then .pl1
  else if s = "prolog" then .prolog
  else if s = "haskell" then .haskell
  else .other s

structure Invariant where
  name : String
  description : String
  proofReference : Option String

/-- A time, in nanoseconds. -/
abbrev DateTime := ℤ

structure ProofMetadata where
  id : String
  language : String
  hash : String
  createdAt : DateTime

structure TestMetadata where
  id : String
  framework : String
  passCount : UInt64
  lastRun : DateTime

structure ArtifactManifest where
  artifactId : String
  name : String
  version : String
  language : Language
  tier : ArtifactTier
  invariants : List Invariant
  proofs : List ProofMetadata
  tests : List TestMetadata
  sourcePath : Option String
  docUrl : Option String
  contentHash : String
  cvmGatePassed : Bool
  createdAt : DateTime
  updatedAt : DateTime

/-- `new`; a tier out of range is `T2`. -/
def ArtifactManifest.new (artifactId name version language : String) (tier : UInt8)
    (createdAt updatedAt : DateTime) : ArtifactManifest where
  artifactId := artifactId
  name := name
  version := version
  language := .fromStr language
  tier := (ArtifactTier.fromU8 tier).getD .t2
  invariants := []
  proofs := []
  tests := []
  sourcePath := none
  docUrl := none
  contentHash := ""
  cvmGatePassed := false
  createdAt := createdAt
  updatedAt := updatedAt

namespace ArtifactManifest

variable (a : ArtifactManifest)

def addInvariant (invariant : Invariant) : ArtifactManifest :=
  { a with invariants := a.invariants ++ [invariant] }

def addProof (proof : ProofMetadata) : ArtifactManifest := { a with proofs := a.proofs ++ [proof] }

def addTest (test : TestMetadata) : ArtifactManifest := { a with tests := a.tests ++ [test] }

def withSourcePath (path : String) : ArtifactManifest := { a with sourcePath := some path }

def withDocUrl (url : String) : ArtifactManifest := { a with docUrl := some url }

/-- `compute_hash`, with the hexadecimal text of the hash. -/
def computeHash (blake3Hex : List UInt8 → String) (content : List UInt8) (now : DateTime) :
    ArtifactManifest :=
  { a with contentHash := blake3Hex content, updatedAt := now }

def verifyInvariantsCovered : Bool := a.invariants.all fun inv => inv.proofReference.isSome

def getLeanProofs : List String := (a.proofs.filter fun p => p.language == "lean4").map (·.id)

def markCvmPassed (now : DateTime) : ArtifactManifest :=
  { a with cvmGatePassed := true, updatedAt := now }

end ArtifactManifest

end Substrate

end SovereignBus
