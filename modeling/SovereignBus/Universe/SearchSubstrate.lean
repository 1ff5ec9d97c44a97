import SovereignBus.Library.Index
import SovereignBus.Universe.Document

/-!
The searchable universe of `seb/universe/src/search_substrate.rs`.

* `Universe`: the artifacts and their three indexes; `addArtifact`, the queries and
  `statistics`.
* `Order`: the order in which a map runs over its values; `Codec`: the JSON of a file, as
  `Codec.document` has it. `saveToFile`, `loadFromFile` save and load a universe.
* `Consistent`: the queries tell what is stored, the tier counts add up, and a saved
  universe comes back.
* `consistent_iff`: the sequences of artifacts that leave a universe so.
-/

namespace SovereignBus

namespace Substrate

open Index
open scoped List

/-- A `HashMap<String, ArtifactManifest>`. -/
abbrev Artifacts := AList fun _ : String => ArtifactManifest

structure Universe where
  artifacts : Artifacts
  invariantIndex : AList fun _ : String => List String
  tierIndex : AList fun _ : ArtifactTier => List String
  languageIndex : AList fun _ : String => List String

namespace Universe

/-- `new`. -/
def new : Universe := ⟨∅, ∅, ∅, ∅⟩

/-- `add_artifact`. -/
def addArtifact (u : Universe) (artifact : ArtifactManifest) : Universe where
  artifacts := u.artifacts.insert artifact.artifactId artifact
  tierIndex := push artifact.artifactId u.tierIndex artifact.tier
  languageIndex := push artifact.artifactId u.languageIndex artifact.language.asStr
  invariantIndex :=
    (artifact.invariants.map (·.name)).foldl (push artifact.artifactId) u.invariantIndex

variable (u : Universe)

def queryByInvariant (invariant : String) : List ArtifactManifest :=
  fetch u.artifacts (entry u.invariantIndex invariant)

def queryByTier (tier : ArtifactTier) : List ArtifactManifest :=
  fetch u.artifacts (entry u.tierIndex tier)

def queryByLanguage (language : String) : List ArtifactManifest :=
  fetch u.artifacts (entry u.languageIndex language)

def getArtifact (artifactId : String) : Option ArtifactManifest := u.artifacts.lookup artifactId

end Universe

/-- The order in which a map runs over its values. -/
structure Order where
  values : Artifacts → List ArtifactManifest
  perm : ∀ m, (values m).Perm (Index.values m)

/-- `RepositoryManifest`. -/
structure RepositoryManifest where
  version : String
  createdAt : String
  artifacts : Artifacts

/-- `RepositoryManifest::new`, at a time in RFC 3339. -/
def RepositoryManifest.new (now : String) : RepositoryManifest := ⟨"1.0.0", now, ∅⟩

/-- `RepositoryManifest::add_artifact`. -/
def RepositoryManifest.addArtifact (m : RepositoryManifest) (artifact : ArtifactManifest) :
    RepositoryManifest :=
  { m with artifacts := m.artifacts.insert artifact.artifactId artifact }

/-- The JSON of a repository: the artifacts that are written are read back. -/
structure Codec (Text : Type*) where
  toStringPretty : RepositoryManifest → Text
  fromStr : Text → Option RepositoryManifest
  fromStr_toStringPretty : ∀ m, ∃ m', fromStr (toStringPretty m) = some m'
    ∧ m'.artifacts.entries.Perm m.artifacts.entries

/-! ### The documents of `serde_json` -/

/-- The members of an object, in the order of the map. -/
def RepositoryManifest.document (m : RepositoryManifest) : Document :=
  .object [("version", .string m.version), ("created_at", .string m.createdAt),
    ("artifacts", .object (m.artifacts.entries.map fun e => (e.1, e.2.document)))]

/-- A member of the map. -/
def Document.entry (m : String × Document) : Option ((_ : String) × ArtifactManifest) :=
  m.2.artifact.map fun a => ⟨m.1, a⟩

/-- The members of an object, inserted one after the other. -/
def Document.artifacts : Document → Option Artifacts
  | .object members => (members.mapM Document.entry).map
      (·.foldl (fun map e => map.insert e.1 e.2) ∅)
  | _ => none

def Document.repository (d : Document) : Option RepositoryManifest := do
  return ⟨← (← d.member "version").readString, ← (← d.member "created_at").readString,
    ← (← d.member "artifacts").artifacts⟩

/-- Entries with different keys are all in the map they are inserted into. -/
lemma entries_foldl_insert {entries : List ((_ : String) × ArtifactManifest)}
    (h : entries.NodupKeys) :
    (entries.foldl (fun map e => map.insert e.1 e.2) (∅ : Artifacts)).entries ~ entries := by
  induction entries using List.reverseRecOn with
  | nil => exact .refl _
  | append_singleton entries e ih =>
      have hkeys := h
      rw [List.NodupKeys, List.keys, List.map_append, List.nodup_append] at hkeys
      have ih := ih hkeys.1
      have hnew : e.1 ∉ entries.foldl (fun map e => map.insert e.1 e.2) (∅ : Artifacts) := by
        intro hmem
        have hmem' : e.1 ∈ entries.map Sigma.fst := (ih.map Sigma.fst).mem_iff.mp hmem
        exact hkeys.2.2 e.1 hmem' e.1 (by simp) rfl
      rw [List.foldl_concat, AList.entries_insert_of_notMem hnew]
      exact (ih.cons e).trans (List.perm_append_singleton e entries).symm

lemma artifacts_document (entries : List ((_ : String) × ArtifactManifest)) :
    (Document.object (entries.map fun e => (e.1, e.2.document))).artifacts
      = some (entries.foldl (fun map e => map.insert e.1 e.2) ∅) := by
  have hentries :
      (entries.map fun e => (e.1, e.2.document)).mapM Document.entry = some entries := by
    induction entries with
    | nil => rfl
    | cons e entries ih => simp [Document.entry, artifact_document, ih]
  rw [Document.artifacts, hentries, Option.map_some]

/-- The writer and the reader that are derived for a repository. -/
def Codec.document : Codec Document where
  toStringPretty := RepositoryManifest.document
  fromStr := Document.repository
  fromStr_toStringPretty m := by
    refine ⟨⟨m.version, m.createdAt, _⟩, ?_, entries_foldl_insert m.artifacts.nodupKeys⟩
    have hartifacts := artifacts_document m.artifacts.entries
    simp [RepositoryManifest.document, Document.repository, Document.member, Document.readString,
      List.lookup, hartifacts]

namespace Universe

variable {Text : Type*}

/-- `get_all`. -/
def getAll (order : Order) (u : Universe) : List ArtifactManifest := order.values u.artifacts

/-- `search_by_name`, with the lower case of the characters of a text. -/
def searchByName (order : Order) (toLowercase : String → List Char) (u : Universe)
    (query : String) : List ArtifactManifest :=
  (order.values u.artifacts).filter fun a =>
    decide (toLowercase query <:+: toLowercase a.name)

/-- `save_to_file`: the text of the file. -/
def saveToFile (codec : Codec Text) (order : Order) (now : String) (u : Universe) : Text :=
  codec.toStringPretty
    ((order.values u.artifacts).foldl RepositoryManifest.addArtifact (.new now))

/-- `load_from_file`. -/
def loadFromFile (codec : Codec Text) (order : Order) (content : Text) : Option Universe := do
  let manifest ← codec.fromStr content
  return (order.values manifest.artifacts).foldl addArtifact new

end Universe

/-- The map `statistics` returns. -/
structure Statistics where
  totalArtifacts : ℕ
  t0Count : ℕ
  t1Count : ℕ
  t2Count : ℕ
  t3Count : ℕ
  cvmGatePassed : ℕ
  invariants : ℕ
  languages : ℕ

namespace Universe

/-- `statistics`. -/
def statistics (u : Universe) : Statistics where
  totalArtifacts := u.artifacts.entries.length
  t0Count := (u.queryByTier .t0).length
  t1Count := (u.queryByTier .t1).length
  t2Count := (u.queryByTier .t2).length
  t3Count := (u.queryByTier .t3).length
  cvmGatePassed := ((values u.artifacts).filter (·.cvmGatePassed)).length
  invariants := u.invariantIndex.entries.length
  languages := u.languageIndex.entries.length

/-- The universe after a sequence of calls of `add_artifact`. -/
def after (adds : List ArtifactManifest) : Universe := adds.foldl addArtifact new

/-- Every query finds the stored artifacts it asks for, each once. -/
structure Queries (u : Universe) : Prop where
  tier : ∀ tier, (u.queryByTier tier).Perm ((values u.artifacts).filter fun a => a.tier = tier)
  language : ∀ language, (u.queryByLanguage language).Perm
    ((values u.artifacts).filter fun a => a.language.asStr = language)
  invariant : ∀ invariant, (u.queryByInvariant invariant).Perm
    ((values u.artifacts).filter fun a => invariant ∈ a.invariants.map (·.name))

/-- Two universes answer every query with the same artifacts. -/
structure SameAnswers (order order' : Order) (u u' : Universe) : Prop where
  tier : ∀ tier, (u.queryByTier tier).Perm (u'.queryByTier tier)
  language : ∀ language, (u.queryByLanguage language).Perm (u'.queryByLanguage language)
  invariant : ∀ invariant, (u.queryByInvariant invariant).Perm (u'.queryByInvariant invariant)
  artifact : ∀ artifactId, u.getArtifact artifactId = u'.getArtifact artifactId
  all : (u.getAll order).Perm (u'.getAll order')
  name : ∀ toLowercase query,
    (u.searchByName order toLowercase query).Perm (u'.searchByName order' toLowercase query)

/-- The queries tell what is stored, the tier counts add up, and the universe that is
loaded from the saved file answers the same. -/
structure Consistent (codec : Codec Text) (order order' : Order) (now : String) (u : Universe) :
    Prop where
  queries : u.Queries
  counts : u.statistics.t0Count + u.statistics.t1Count + u.statistics.t2Count
    + u.statistics.t3Count = u.statistics.totalArtifacts
  reloaded : ∃ u', loadFromFile codec order' (u.saveToFile codec order now) = some u'
    ∧ SameAnswers order order' u u'

/-! ### What a sequence of artifacts leaves -/

variable {adds : List ArtifactManifest}

/-- The keys an artifact has in each of the indexes. -/
def tierKeys (a : ArtifactManifest) : List ArtifactTier := [a.tier]

def languageKeys (a : ArtifactManifest) : List String := [a.language.asStr]

def invariantKeys (a : ArtifactManifest) : List String := a.invariants.map (·.name)

lemma after_eq (adds : List ArtifactManifest) :
    after adds =
      { artifacts := stored (·.artifactId) adds
        invariantIndex := indexed (·.artifactId) invariantKeys adds
        tierIndex := indexed (·.artifactId) tierKeys adds
        languageIndex := indexed (·.artifactId) languageKeys adds } := by
  induction adds using List.reverseRecOn with
  | nil => rfl
  | append_singleton adds a ih =>
      rw [after, List.foldl_concat, ← after, ih, addArtifact]
      simp only [stored, indexed, List.foldl_concat, tierKeys, languageKeys, invariantKeys,
        List.foldl_cons, List.foldl_nil]

/-- The queries are right exactly if the three look-ups are exact. -/
lemma queries_after_iff :
    (after adds).Queries ↔
      Exact tierKeys (stored (·.artifactId) adds) (indexed (·.artifactId) tierKeys adds)
        ∧ Exact languageKeys (stored (·.artifactId) adds)
          (indexed (·.artifactId) languageKeys adds)
        ∧ Exact invariantKeys (stored (·.artifactId) adds)
          (indexed (·.artifactId) invariantKeys adds) := by
  rw [after_eq]
  constructor
  · intro h
    refine ⟨fun tier => ?_, fun language => ?_, h.invariant⟩
    · simpa [queryByTier, tierKeys, eq_comm] using h.tier tier
    · simpa [queryByLanguage, languageKeys, eq_comm] using h.language language
  · rintro ⟨htier, hlanguage, hinvariant⟩
    refine ⟨fun tier => ?_, fun language => ?_, hinvariant⟩
    · simpa [queryByTier, tierKeys, eq_comm] using htier tier
    · simpa [queryByLanguage, languageKeys, eq_comm] using hlanguage language

/-- The artifacts have different ids, and none lists an invariant twice. -/
def Distinct (adds : List ArtifactManifest) : Prop :=
  (adds.map (·.artifactId)).Nodup ∧ ∀ a ∈ adds, (invariantKeys a).Nodup

lemma queries_iff_distinct : (after adds).Queries ↔ Distinct adds := by
  rw [queries_after_iff]
  constructor
  · rintro ⟨htier, -, hinvariant⟩
    have hid := nodup_of_exact (·.artifactId) tierKeys (by simp [tierKeys]) htier
    exact ⟨hid, fun a ha => keys_nodup_of_exact _ _ hid hinvariant ha⟩
  · rintro ⟨hid, hinvariants⟩
    exact ⟨exact_of_nodup _ _ hid (by simp [tierKeys]),
      exact_of_nodup _ _ hid (by simp [languageKeys]), exact_of_nodup _ _ hid hinvariants⟩

lemma Distinct.perm {adds' : List ArtifactManifest} (h : Distinct adds) (hperm : adds'.Perm adds) :
    Distinct adds' :=
  ⟨(hperm.map _).nodup_iff.mpr h.1, fun a ha => h.2 a (hperm.subset ha)⟩

/-! ### Statistics -/

/-- Every artifact has one of the four tiers. -/
lemma sum_tiers (artifacts : List ArtifactManifest) :
    (artifacts.filter fun a => a.tier = .t0).length
      + (artifacts.filter fun a => a.tier = .t1).length
      + (artifacts.filter fun a => a.tier = .t2).length
      + (artifacts.filter fun a => a.tier = .t3).length = artifacts.length := by
  induction artifacts with
  | nil => rfl
  | cons a artifacts ih =>
      cases htier : a.tier <;> simp [htier] <;> omega

lemma Queries.counts {u : Universe} (h : u.Queries) :
    u.statistics.t0Count + u.statistics.t1Count + u.statistics.t2Count
      + u.statistics.t3Count = u.statistics.totalArtifacts := by
  simp only [statistics, (h.tier _).length_eq]
  rw [sum_tiers, values, List.length_map]

/-! ### Saving and loading -/

lemma artifacts_foldl_addArtifact (artifacts : List ArtifactManifest) (now : String) :
    (artifacts.foldl RepositoryManifest.addArtifact (.new now)).artifacts
      = stored (·.artifactId) artifacts := by
  induction artifacts using List.reverseRecOn with
  | nil => rfl
  | append_singleton artifacts a ih =>
      rw [List.foldl_concat, RepositoryManifest.addArtifact, ih, stored_concat]

/-- A saved universe is loaded by adding its artifacts in some order. -/
lemma loadFromFile_saveToFile (codec : Codec Text) (order order' : Order) (now : String)
    (h : Distinct adds) : ∃ adds', adds'.Perm adds
      ∧ loadFromFile codec order' ((after adds).saveToFile codec order now)
        = some (after adds') := by
  have hvalues : (order.values (after adds).artifacts).Perm adds := by
    rw [after_eq]
    exact (order.perm _).trans (values_stored_perm _ h.1)
  obtain ⟨m, hm, hentries⟩ := codec.fromStr_toStringPretty
    ((order.values (after adds).artifacts).foldl RepositoryManifest.addArtifact (.new now))
  refine ⟨order'.values m.artifacts, ?_, ?_⟩
  · rw [artifacts_foldl_addArtifact] at hentries
    calc order'.values m.artifacts
        ~ values m.artifacts := order'.perm _
      _ ~ values (stored (·.artifactId) (order.values (after adds).artifacts)) := hentries.map _
      _ ~ order.values (after adds).artifacts := values_stored_perm _ (h.perm hvalues).1
      _ ~ adds := hvalues
  · rw [loadFromFile, saveToFile, hm]
    rfl

lemma sameAnswers {order order' : Order} {adds' : List ArtifactManifest} (h : Distinct adds)
    (hperm : adds'.Perm adds) : SameAnswers order order' (after adds) (after adds') := by
  have hqueries := queries_iff_distinct.mpr h
  have hqueries' := queries_iff_distinct.mpr (h.perm hperm)
  have hvalues : (values (after adds).artifacts).Perm (values (after adds').artifacts) := by
    rw [after_eq, after_eq]
    calc values (stored (·.artifactId) adds)
        ~ adds := values_stored_perm _ h.1
      _ ~ adds' := hperm.symm
      _ ~ values (stored (·.artifactId) adds') := (values_stored_perm _ (h.perm hperm).1).symm
  have hall : ((after adds).getAll order).Perm ((after adds').getAll order') :=
    calc (after adds).getAll order
        ~ values (after adds).artifacts := order.perm _
      _ ~ values (after adds').artifacts := hvalues
      _ ~ (after adds').getAll order' := (order'.perm _).symm
  -- a query tells what is stored, so two universes that store the same answer the same
  have hanswer : ∀ {l l' : List ArtifactManifest} {p : ArtifactManifest → Bool},
      l.Perm ((values (after adds).artifacts).filter p) →
        l'.Perm ((values (after adds').artifacts).filter p) → l.Perm l' :=
    fun hl hl' => (hl.trans (hvalues.filter _)).trans hl'.symm
  exact
    { tier := fun t => hanswer (hqueries.tier t) (hqueries'.tier t)
      language := fun l => hanswer (hqueries.language l) (hqueries'.language l)
      invariant := fun i => hanswer (hqueries.invariant i) (hqueries'.invariant i)
      artifact := fun i => by
        rw [getArtifact, getArtifact, after_eq, after_eq]
        exact (lookup_stored_of_perm _ h.1 hperm i).symm
      all := hall
      name := fun _ _ => hall.filter _ }

/-- The indexes tell what is stored exactly if no id is added twice and no artifact
lists an invariant twice. -/
theorem consistent_iff (codec : Codec Text) (order order' : Order) (now : String)
    (adds : List ArtifactManifest) :
    Consistent codec order order' now (after adds) ↔
      (adds.map (·.artifactId)).Nodup ∧ ∀ a ∈ adds, (a.invariants.map (·.name)).Nodup := by
  constructor
  · intro h
    exact queries_iff_distinct.mp h.queries
  · intro h
    have hqueries : (after adds).Queries := queries_iff_distinct.mpr h
    obtain ⟨adds', hperm, hload⟩ := loadFromFile_saveToFile codec order order' now h
    exact ⟨hqueries, hqueries.counts, after adds', hload, sameAnswers h hperm⟩

/-- An artifact that is promoted and added again: it is still found among the proposals. -/
theorem readded_found_twice :
    ¬ ∀ (Text : Type) (codec : Codec Text) (order order' : Order) (now : String)
      (adds : List ArtifactManifest), Consistent codec order order' now (after adds) := by
  intro hall
  have h := hall Document Codec.document
    ⟨values, fun _ => .refl _⟩ ⟨values, fun _ => .refl _⟩ ""
    [.new "a" "A" "1.0.0" "rust" 2 0 0, .new "a" "A" "1.0.0" "rust" 1 0 0]
  exact absurd (queries_iff_distinct.mp h.queries).1 (by simp [ArtifactManifest.new])

end Universe

end Substrate

end SovereignBus
