import SovereignBus.Universe.SearchSubstrate

/-!
Saving and loading any universe of `seb/universe/src/search_substrate.rs`.

* `Reloaded`: what `load_from_file` makes of the file of `save_to_file`, against the universe
  that was saved.
* `reload_repairs`: this is so behind every sequence of calls of `add_artifact`, whatever ids
  were added again and whatever is left of them in the indexes.
-/

namespace SovereignBus

namespace Substrate

namespace Universe

open Index
open scoped List

variable {Text : Type*} {order order' : Order} {adds adds' : List ArtifactManifest}

/-- The universe `u'` has the artifacts of `u`. It finds every artifact by its tier and its
language, once, and by an invariant as often as it lists it, and no other artifacts. Nothing is
found in it that is not found in `u`. -/
structure Reloaded (order order' : Order) (u u' : Universe) : Prop where
  artifact : ∀ artifactId, u'.getArtifact artifactId = u.getArtifact artifactId
  all : (u'.getAll order').Perm (u.getAll order)
  name : ∀ toLowercase query,
    (u'.searchByName order' toLowercase query).Perm (u.searchByName order toLowercase query)
  tier : ∀ tier, (u'.queryByTier tier).Perm ((values u.artifacts).filter fun a => a.tier = tier)
  language : ∀ language, (u'.queryByLanguage language).Perm
    ((values u.artifacts).filter fun a => a.language.asStr = language)
  invariant : ∀ invariant, (u'.queryByInvariant invariant).Perm ((values u.artifacts).flatMap
    fun a => List.replicate ((a.invariants.map (·.name)).count invariant) a)
  invariant_once : (∀ invariant, (u'.queryByInvariant invariant).Perm
      ((values u.artifacts).filter fun a => invariant ∈ a.invariants.map (·.name)))
    ↔ ∀ a ∈ values u.artifacts, (a.invariants.map (·.name)).Nodup
  counts : u'.statistics.t0Count + u'.statistics.t1Count + u'.statistics.t2Count
    + u'.statistics.t3Count = u'.statistics.totalArtifacts
  tier_le : ∀ tier, (u'.queryByTier tier).Subperm (u.queryByTier tier)
  language_le : ∀ language, (u'.queryByLanguage language).Subperm (u.queryByLanguage language)
  invariant_le : ∀ invariant,
    (u'.queryByInvariant invariant).Subperm (u.queryByInvariant invariant)

/-- The artifacts that are added again have different ids. -/
lemma nodup_again (h : adds'.Perm (values (after adds).artifacts)) :
    (adds'.map (·.artifactId)).Nodup := by
  rw [(h.map _).nodup_iff, after_eq, map_id_values]
  exact AList.keys_nodup _

lemma values_again (h : adds'.Perm (values (after adds).artifacts)) :
    (values (after adds').artifacts).Perm (values (after adds).artifacts) := by
  have hvalues := (values_stored_perm (·.artifactId) (nodup_again h)).trans h
  rw [after_eq adds']
  exact hvalues

/-- The artifacts that are added again are found by keys that no artifact has twice. -/
lemma exact_again {K : Type} [DecidableEq K] (keys : ArtifactManifest → List K)
    (h : adds'.Perm (values (after adds).artifacts)) (hkeys : ∀ v ∈ adds', (keys v).Nodup) (k : K) :
    (fetch (stored (·.artifactId) adds') (entry (indexed (·.artifactId) keys adds') k)).Perm
      ((values (after adds).artifacts).filter fun v => k ∈ keys v) := by
  have hvalues := values_again h
  rw [after_eq adds'] at hvalues
  exact (exact_of_nodup (·.artifactId) keys (nodup_again h) hkeys k).trans (hvalues.filter _)

lemma reloaded (h : adds'.Perm (values (after adds).artifacts)) :
    Reloaded order order' (after adds) (after adds') := by
  have hvalues := values_again h
  have hall : ((after adds').getAll order').Perm ((after adds).getAll order) :=
    ((order'.perm _).trans hvalues).trans (order.perm _).symm
  have htier : ∀ tier, ((after adds').queryByTier tier).Perm
      ((values (after adds).artifacts).filter fun a => a.tier = tier) := fun tier => by
    have hexact := exact_again tierKeys h (by simp [tierKeys]) tier
    rw [after_eq adds']
    simpa [queryByTier, tierKeys, eq_comm] using hexact
  have hsub := h
  rw [after_eq] at hsub
  refine
    { artifact := fun artifactId => ?_
      all := hall
      name := fun _ _ => hall.filter _
      tier := htier
      language := fun language => ?_
      invariant := fun invariant => ?_
      invariant_once := ⟨fun hfound a ha => ?_, fun hnodup invariant => ?_⟩
      counts := ?_
      tier_le := fun tier => ?_
      language_le := fun language => ?_
      invariant_le := fun invariant => ?_ }
  · rw [getArtifact, getArtifact, after_eq, after_eq]
    exact lookup_stored_again _ hsub artifactId
  · have hexact := exact_again languageKeys h (by simp [languageKeys]) language
    rw [after_eq adds']
    simpa [queryByLanguage, languageKeys, eq_comm] using hexact
  · rw [after_eq adds', queryByInvariant, fetch_entry _ invariantKeys (nodup_again h)]
    exact h.flatMap_right _
  · refine keys_nodup_of_exact (·.artifactId) invariantKeys (nodup_again h) (fun invariant => ?_)
      (h.symm.subset ha)
    have hquery := (hfound invariant).trans (hvalues.symm.filter _)
    rw [after_eq adds'] at hquery
    exact hquery
  · have hexact := exact_again invariantKeys h (fun v hv => hnodup v (h.subset hv)) invariant
    rw [after_eq adds']
    exact hexact
  · simp only [statistics, (htier _).length_eq]
    rw [sum_tiers, ← hvalues.length_eq, values, List.length_map]
  · rw [queryByTier, queryByTier, after_eq, after_eq]
    exact fetch_entry_subperm _ tierKeys hsub tier
  · rw [queryByLanguage, queryByLanguage, after_eq, after_eq]
    exact fetch_entry_subperm _ languageKeys hsub language
  · rw [queryByInvariant, queryByInvariant, after_eq, after_eq]
    exact fetch_entry_subperm _ invariantKeys hsub invariant

end Universe

end Substrate

end SovereignBus
