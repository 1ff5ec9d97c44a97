import SovereignBus.Library.Machine

/-!
Stores with a secondary index that only grows.

* `stored`: the values that were added, the last one under each identifier.
* `indexed`: for every key, the identifiers of the values that were added with it.
* `collected`: the values themselves, each under its one key.
* `lookup_stored_eq_find`, `mem_values_collected`, `sum_length_collected`: what these maps hold.
* `Exact`: a look-up of any key finds the stored values that have it, each once.
* `lookup_stored_again`, `fetch_entry_subperm`: the values of a map, added again.
* `exact_of_nodup`, `nodup_of_exact`, `keys_nodup_of_exact`: when this is so.
-/

namespace Index

open List

variable {I K V : Type*} [DecidableEq I] [DecidableEq K]

/-- The values of a map. -/
def values (m : AList fun _ : I => V) : List V := m.entries.map Sigma.snd

/-- The list under a key. -/
def entry (index : AList fun _ : K => List I) (k : K) : List I := (index.lookup k).getD []

/-- One more identifier under a key. -/
def push (i : I) (index : AList fun _ : K => List I) (k : K) : AList fun _ : K => List I :=
  index.insert k (entry index k ++ [i])

/-- The values that are stored under the identifiers of a list. -/
def fetch (m : AList fun _ : I => V) (ids : List I) : List V := ids.filterMap (m.lookup ·)

variable (id : V → I) (keys : V → List K)

/-- The map after the values were added. -/
def stored (adds : List V) : AList fun _ : I => V := adds.foldl (fun m v => m.insert (id v) v) ∅

/-- The index after the values were added. -/
def indexed (adds : List V) : AList fun _ : K => List I :=
  adds.foldl (fun index v => (keys v).foldl (push (id v)) index) ∅

/-- A look-up of any key finds the stored values that have it, each once. -/
def Exact (m : AList fun _ : I => V) (index : AList fun _ : K => List I) : Prop :=
  ∀ k, fetch m (entry index k) ~ (values m).filter fun v => k ∈ keys v

/-! ### The index -/

omit [DecidableEq I] in
lemma entry_push (i : I) (index : AList fun _ : K => List I) (k k' : K) :
    entry (push i index k) k' = entry index k' ++ replicate ([k].count k') i := by
  by_cases h : k' = k
  · subst h
    simp [entry, push]
  · simp [entry, push, h, Ne.symm h]

omit [DecidableEq I] in
lemma entry_foldl_push (i : I) (index : AList fun _ : K => List I) (ks : List K) (k' : K) :
    entry (ks.foldl (push i) index) k' = entry index k' ++ replicate (ks.count k') i := by
  induction ks generalizing index with
  | nil => simp
  | cons k ks ih =>
      rw [foldl_cons, ih, entry_push, append_assoc, replicate_append_replicate, ← count_append,
        singleton_append]

omit [DecidableEq I] in
/-- Every value leaves its identifier under each of its keys, as often as it has it. -/
lemma entry_indexed (adds : List V) (k : K) :
    entry (indexed id keys adds) k
      = adds.flatMap fun v => replicate ((keys v).count k) (id v) := by
  induction adds using List.reverseRecOn with
  | nil => simp [indexed, entry]
  | append_singleton adds v ih =>
      rw [indexed, foldl_concat, ← indexed, entry_foldl_push, ih, flatMap_append, flatMap_singleton]

/-- The values, each under its key. -/
def collected (key : V → K) (adds : List V) : AList fun _ : K => List V :=
  adds.foldl (fun index v => push v index (key v)) ∅

/-- Under a key are the values that have it, in their order. -/
lemma entry_collected (key : V → K) (adds : List V) (k : K) :
    entry (collected key adds) k = adds.filter fun v => key v = k := by
  induction adds using List.reverseRecOn with
  | nil => rfl
  | append_singleton adds v ih =>
      rw [collected, foldl_concat, ← collected, entry_push, ih, filter_append]
      by_cases h : key v = k <;> simp [h]

lemma mem_keys_collected (key : V → K) (adds : List V) (k : K) :
    k ∈ (collected key adds).keys ↔ k ∈ adds.map key := by
  induction adds using List.reverseRecOn with
  | nil => simp [collected]
  | append_singleton adds v ih =>
      rw [collected, foldl_concat, ← collected, push, ← AList.mem_keys, AList.mem_insert,
        AList.mem_keys, ih, map_append, mem_append, map_singleton, mem_singleton, or_comm]

/-- The values under one key are never none. -/
lemma mem_values_collected (key : V → K) (adds : List V) (vs : List V) :
    vs ∈ values (collected key adds)
      ↔ ∃ k ∈ adds.map key, vs = adds.filter fun v => key v = k := by
  constructor
  · intro h
    obtain ⟨e, he, rfl⟩ := mem_map.mp h
    have hlookup := AList.mem_lookup_iff.mpr he
    refine ⟨e.1, (mem_keys_collected key adds e.1).mp ?_, ?_⟩
    · exact mem_map_of_mem he
    · rw [← entry_collected, entry, hlookup, Option.getD_some]
  · rintro ⟨k, hk, rfl⟩
    rw [← mem_keys_collected] at hk
    obtain ⟨vs, hvs⟩ := Option.isSome_iff_exists.mp (AList.lookup_isSome.mpr hk)
    refine mem_map.mpr ⟨⟨k, vs⟩, AList.mem_lookup_iff.mp hvs, ?_⟩
    rw [← entry_collected, entry, hvs, Option.getD_some]

lemma keys_collected_perm (key : V → K) (adds : List V) :
    (collected key adds).keys ~ (adds.map key).dedup :=
  (perm_ext_iff_of_nodup (AList.keys_nodup _) (nodup_dedup _)).mpr fun k => by
    rw [mem_keys_collected, mem_dedup]

/-- The groups are those of the keys. -/
lemma values_collected_perm (key : V → K) (adds : List V) :
    values (collected key adds) ~ (adds.map key).dedup.map fun k => adds.filter (key · = k) := by
  have hvalues : values (collected key adds)
      = (collected key adds).keys.map fun k => adds.filter (key · = k) := by
    rw [values, AList.keys, List.keys, map_map]
    refine map_congr_left fun e he => ?_
    rw [Function.comp_apply, ← entry_collected, entry, AList.mem_lookup_iff.mpr he,
      Option.getD_some]
  rw [hvalues]
  exact (keys_collected_perm key adds).map _

/-- Every value is under one key. -/
lemma sum_length_collected (key : V → K) (adds : List V) :
    ((values (collected key adds)).map length).sum = adds.length := by
  have hcount : (values (collected key adds)).map length
      = (collected key adds).keys.map fun k => (adds.map key).count k := by
    rw [values, AList.keys, List.keys, map_map, map_map]
    refine map_congr_left fun e he => ?_
    have hvs : e.2 = adds.filter fun v => key v = e.1 := by
      rw [← entry_collected, entry, AList.mem_lookup_iff.mpr he, Option.getD_some]
    rw [Function.comp_apply, Function.comp_apply, hvs, count_eq_countP, countP_map,
      countP_eq_length_filter]
    rfl
  rw [hcount, ((keys_collected_perm key adds).map _).sum_eq, sum_map_count_dedup_eq_length,
    length_map]

/-! ### The map -/

lemma stored_concat (adds : List V) (v : V) :
    stored id (adds ++ [v]) = (stored id adds).insert (id v) v := by
  rw [stored, foldl_concat, stored]

lemma id_of_lookup_stored {adds : List V} {i : I} {v : V}
    (h : (stored id adds).lookup i = some v) : id v = i ∧ v ∈ adds := by
  induction adds using List.reverseRecOn with
  | nil => simp [stored] at h
  | append_singleton adds w ih =>
      rw [stored_concat] at h
      by_cases hi : i = id w
      · subst hi
        obtain rfl := Option.some.inj ((AList.lookup_insert _).symm.trans h)
        simp
      · rw [AList.lookup_insert_ne hi] at h
        obtain ⟨hid, hmem⟩ := ih h
        exact ⟨hid, mem_append_left _ hmem⟩

/-- The last value with an identifier is stored. -/
lemma lookup_stored_eq_find (adds : List V) (i : I) :
    (stored id adds).lookup i = adds.reverse.find? fun v => id v = i := by
  induction adds using List.reverseRecOn with
  | nil => rfl
  | append_singleton adds v ih =>
      rw [stored_concat, reverse_append, reverse_singleton, singleton_append, find?_cons]
      by_cases hi : i = id v
      · rw [hi, AList.lookup_insert]
        simp
      · rw [AList.lookup_insert_ne hi, ih]
        simp [Ne.symm hi]

lemma mem_keys_stored (adds : List V) (i : I) :
    i ∈ (stored id adds).keys ↔ i ∈ adds.map id := by
  induction adds using List.reverseRecOn with
  | nil => simp [stored]
  | append_singleton adds v ih =>
      rw [stored_concat, ← AList.mem_keys, AList.mem_insert, AList.mem_keys, ih, map_append,
        mem_append, map_singleton, mem_singleton, or_comm]

/-- There are as many values as identifiers. -/
lemma length_values_stored (adds : List V) :
    (values (stored id adds)).length = (adds.map id).dedup.length := by
  have hperm : (stored id adds).keys ~ (adds.map id).dedup :=
    (perm_ext_iff_of_nodup (AList.keys_nodup _) (nodup_dedup _)).mpr fun i => by
      rw [mem_keys_stored, mem_dedup]
  rw [← hperm.length_eq, values, length_map, AList.keys, List.keys, length_map]

/-- Of two values with one identifier, the second one or a later one is stored. -/
lemma exists_sublist_of_sublist {adds : List V} {a b : V} (h : [a, b] <+ adds)
    (hid : id a = id b) : ∃ v, (stored id adds).lookup (id a) = some v ∧ [a, v] <+ adds := by
  induction adds using List.reverseRecOn with
  | nil => simp at h
  | append_singleton adds w ih =>
      rw [stored_concat]
      have hlast := (Machine.concat_sublist_concat_iff [a]).mp h
      by_cases hw : id a = id w
      · refine ⟨w, by rw [hw, AList.lookup_insert], ?_⟩
        have ha : [a] <+ adds := by
          rcases hlast with hab | ⟨-, ha⟩
          · exact (sublist_append_left [a] [b]).trans hab
          · exact ha
        exact ha.append (Sublist.refl [w])
      · rw [AList.lookup_insert_ne hw]
        rcases hlast with hab | ⟨rfl, -⟩
        · obtain ⟨v, hv, hav⟩ := ih hab
          exact ⟨v, hv, hav.trans (sublist_append_left adds [w])⟩
        · exact absurd hid hw

lemma entries_stored (adds : List V) :
    (stored id adds).entries = (values (stored id adds)).map fun v => ⟨id v, v⟩ := by
  rw [values, map_map]
  refine (List.map_id _).symm.trans (map_congr_left fun e he => ?_)
  rw [Function.comp_apply, (id_of_lookup_stored id (AList.mem_lookup_iff.mpr he)).1]
  rfl

lemma map_id_values (adds : List V) :
    (values (stored id adds)).map id = (stored id adds).keys := by
  rw [values, map_map, AList.keys, List.keys]
  refine map_congr_left fun e he => ?_
  exact (id_of_lookup_stored id (AList.mem_lookup_iff.mpr he)).1

lemma values_nodup (adds : List V) : (values (stored id adds)).Nodup :=
  Nodup.of_map id (by rw [map_id_values]; exact AList.keys_nodup _)

lemma mem_values_stored {adds : List V} {v : V} :
    v ∈ values (stored id adds) ↔ (stored id adds).lookup (id v) = some v := by
  constructor
  · intro h
    obtain ⟨e, he, rfl⟩ := mem_map.mp h
    have hlookup := AList.mem_lookup_iff.mpr he
    rwa [(id_of_lookup_stored id hlookup).1]
  · intro h
    exact mem_map.mpr ⟨⟨id v, v⟩, AList.mem_lookup_iff.mp h, rfl⟩

/-- Values with different identifiers are all stored. -/
lemma lookup_stored {adds : List V} (h : (adds.map id).Nodup) {v : V} (hv : v ∈ adds) :
    (stored id adds).lookup (id v) = some v := by
  induction adds using List.reverseRecOn with
  | nil => simp at hv
  | append_singleton adds w ih =>
      rw [map_append, nodup_append] at h
      rw [stored_concat]
      rcases mem_append.mp hv with hv | hv
      · rw [AList.lookup_insert_ne (h.2.2 _ (mem_map_of_mem hv) _ (by simp))]
        exact ih h.1 hv
      · obtain rfl := mem_singleton.mp hv
        exact AList.lookup_insert _

lemma values_stored_perm {adds : List V} (h : (adds.map id).Nodup) :
    values (stored id adds) ~ adds := by
  refine (perm_ext_iff_of_nodup (values_nodup id adds) (Nodup.of_map id h)).mpr fun v => ?_
  rw [mem_values_stored]
  exact ⟨fun hv => (id_of_lookup_stored id hv).2, lookup_stored id h⟩

/-- Values with different identifiers are stored alike in any order. -/
lemma lookup_stored_of_perm {adds adds' : List V} (h : (adds.map id).Nodup)
    (hperm : adds' ~ adds) (i : I) :
    (stored id adds').lookup i = (stored id adds).lookup i := by
  have h' : (adds'.map id).Nodup := (hperm.map id).nodup_iff.mpr h
  refine AList.perm_lookup ?_
  rw [entries_stored, entries_stored]
  exact (((values_stored_perm id h').trans hperm).trans (values_stored_perm id h).symm).map _

/-- The values of a map, added again in any order. -/
lemma lookup_stored_again {adds adds' : List V} (h : adds' ~ values (stored id adds)) (i : I) :
    (stored id adds').lookup i = (stored id adds).lookup i := by
  have hnodup : (adds'.map id).Nodup := by
    rw [(h.map id).nodup_iff, map_id_values]
    exact AList.keys_nodup _
  refine AList.perm_lookup ?_
  rw [entries_stored, entries_stored]
  exact ((values_stored_perm id hnodup).trans h).map _

/-! ### Look-ups -/

/-- With different identifiers, a look-up finds every value as often as it has the key. -/
lemma fetch_entry {adds : List V} (h : (adds.map id).Nodup) (k : K) :
    fetch (stored id adds) (entry (indexed id keys adds) k)
      = adds.flatMap fun v => replicate ((keys v).count k) v := by
  rw [fetch, entry_indexed, filterMap_flatMap]
  refine flatMap_congr fun v hv => ?_
  exact filterMap_replicate_of_some (f := ((stored id adds).lookup ·)) (lookup_stored id h hv)

/-- With different identifiers, the order of the values does not matter to a look-up. -/
lemma fetch_entry_perm {adds adds' : List V} (h : (adds.map id).Nodup) (hperm : adds' ~ adds)
    (k : K) :
    fetch (stored id adds') (entry (indexed id keys adds') k)
      ~ fetch (stored id adds) (entry (indexed id keys adds) k) := by
  rw [fetch_entry id keys h, fetch_entry id keys ((hperm.map id).nodup_iff.mpr h)]
  exact hperm.flatMap_right _

/-- A look-up among the values of a map that are added again finds no more than one in the map
with its whole past. -/
lemma fetch_entry_subperm {adds adds' : List V} (h : adds' ~ values (stored id adds)) (k : K) :
    fetch (stored id adds') (entry (indexed id keys adds') k)
      <+~ fetch (stored id adds) (entry (indexed id keys adds) k) := by
  have hsub : adds' <+~ adds :=
    subperm_of_subset ((h.nodup_iff).mpr (values_nodup id adds)) fun v hv =>
      (id_of_lookup_stored id ((mem_values_stored id).mp (h.subset hv))).2
  obtain ⟨l, hl, hladds⟩ := hsub
  have hnodup : (l.map id).Nodup := by
    rw [((hl.trans h).map id).nodup_iff, map_id_values]
    exact AList.keys_nodup _
  refine (fetch_entry_perm id keys hnodup hl.symm k).subperm.trans ?_
  have hfetch : fetch (stored id adds) (entry (indexed id keys l) k)
      = fetch (stored id l) (entry (indexed id keys l) k) := by
    rw [fetch, fetch]
    exact filterMap_congr fun i _ => (lookup_stored_again id (hl.trans h) i).symm
  rw [← hfetch, fetch, fetch, entry_indexed, entry_indexed]
  exact ((hladds.flatMap _).filterMap _).subperm

/-- Different identifiers and different keys of every value make all look-ups exact. -/
theorem exact_of_nodup {adds : List V} (h : (adds.map id).Nodup)
    (hkeys : ∀ v ∈ adds, (keys v).Nodup) :
    Exact keys (stored id adds) (indexed id keys adds) := by
  intro k
  rw [fetch_entry id keys h]
  refine Perm.trans ?_ ((values_stored_perm id h).symm.filter _)
  rw [← flatMap_singleton' adds, filter_flatMap, flatMap_singleton']
  refine Perm.of_eq (flatMap_congr fun v hv => ?_)
  by_cases hk : k ∈ keys v
  · simp [hk, count_eq_one_of_mem (hkeys v hv) hk]
  · simp [hk, count_eq_zero_of_not_mem hk]

/-- If every value has a key, look-ups are exact only if the identifiers differ: else the
identifier is also where an earlier value left it. -/
theorem nodup_of_exact {adds : List V} (hkeys : ∀ v ∈ adds, keys v ≠ [])
    (h : Exact keys (stored id adds) (indexed id keys adds)) : (adds.map id).Nodup := by
  rw [Nodup, pairwise_map, pairwise_iff_forall_sublist]
  intro a b hab hid
  obtain ⟨v, hlookup, hav⟩ := exists_sublist_of_sublist id hab hid
  have ha : a ∈ adds := hav.subset (by simp)
  obtain ⟨k, hk⟩ := exists_mem_of_ne_nil _ (hkeys a ha)
  have hself : ∀ w, k ∈ keys w → [id w] <+ replicate ((keys w).count k) (id w) := fun w hw =>
    singleton_sublist.mpr (mem_replicate.mpr ⟨(count_pos_iff.mpr hw).ne', rfl⟩)
  -- where `a` left the identifier the look-up finds `v`, so `v` has the key and left it too
  have hv : v ∈ fetch (stored id adds) (entry (indexed id keys adds) k) := by
    rw [fetch, entry_indexed, mem_filterMap]
    exact ⟨id a, mem_flatMap.mpr ⟨a, ha, (hself a hk).subset (by simp)⟩, hlookup⟩
  have hkv : k ∈ keys v := by simpa using (mem_filter.mp ((h k).subset hv)).2
  have htwice : [id a, id v] <+ entry (indexed id keys adds) k := by
    rw [entry_indexed]
    have hpair : [id a, id v] <+ [a, v].flatMap fun w => replicate ((keys w).count k) (id w) := by
      simpa using (hself a hk).append (hself v hkv)
    exact hpair.trans (hav.flatMap _)
  rw [(id_of_lookup_stored id hlookup).1] at htwice
  have htwice : [v, v] <+ fetch (stored id adds) (entry (indexed id keys adds) k) := by
    simpa [fetch, hlookup] using htwice.filterMap ((stored id adds).lookup ·)
  have hnodup := (h k).nodup_iff.mpr ((values_nodup id adds).filter _)
  exact absurd (hnodup.sublist htwice) (by simp)

/-- With different identifiers, look-ups are exact only if no value has a key twice. -/
theorem keys_nodup_of_exact {adds : List V} (hid : (adds.map id).Nodup)
    (h : Exact keys (stored id adds) (indexed id keys adds)) {v : V} (hv : v ∈ adds) :
    (keys v).Nodup := by
  refine nodup_iff_count_le_one.mpr fun k => ?_
  have hnodup := (h k).nodup_iff.mpr ((values_nodup id adds).filter _)
  rw [fetch_entry id keys hid] at hnodup
  have hsub := (singleton_sublist.mpr hv).flatMap fun w => replicate ((keys w).count k) w
  rw [flatMap_singleton] at hsub
  exact nodup_replicate.mp (hnodup.sublist hsub)

end Index
