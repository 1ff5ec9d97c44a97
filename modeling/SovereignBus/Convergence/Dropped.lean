import SovereignBus.Convergence.Sealing
import SovereignBus.Library.Labelled

/-!
Entries that are dropped.

* `Encodes`, `Has`: the event of an entry in a payload, and records in a chain file.
* `Clear`: a log whose entries have keys of their own, as far as the chain goes.
* `nothing_dropped`: over any runs, every entry of a clear log is sealed, and an entry
  that is not clear is dropped.
-/

namespace SovereignBus

namespace Convergence

open Dedupe Labelled

variable (rt : Runtime) (json : Json)

/-! ### Events in a chain -/

/-- The payload of the record has the type, the problem and the delta of the entry. -/
def Encodes (entry : Entry) (r : Stored) : Prop :=
  ∃ delta problemId payload, rt.toNumber entry.delta = some delta
    ∧ entry.hashed = some problemId ∧ rt.buffer r.payload = some payload
    ∧ payload.take 8 = writeUInt64LE (eventType delta)
    ∧ (payload.drop 16).take 32 = List.ofFn (rt.sha256 problemId)
    ∧ (payload.drop 48).take 8 = writeUInt64LE delta.toNat

/-- The chain file has such a record. -/
def Has (P : Stored → Prop) (chain : Option Text) : Prop :=
  ∃ l ∈ chainLines chain, ∃ r, json.parse l = some r ∧ P r

/-- The record of a key. -/
def OfKey (k : Text) (r : Stored) : Prop := key rt r.problemId r.timestamp = some k

/-- Every entry has a key, and its event is that of a record of this key, or there is no
such record and it can be sealed. -/
def Clear (chain : Option Text) (log : List Entry) : Prop :=
  ∀ entry ∈ log, ∃ k, entryKey rt entry = some k
    ∧ (Has json (fun r => OfKey rt k r ∧ Encodes rt entry r) chain
      ∨ ¬ Has json (OfKey rt k) chain ∧ sealable rt entry = true)

/-- A run over a state of the log. -/
def visit (chain : Option Text) (a : (ℕ → Clock) × List Entry) : Option (Option Text) :=
  some (run rt json a.1 a.2 chain).1

/-! ### Runs over a clear log -/

variable {rt json} {C : Set Clock} {entry : Entry} {r : Record} {chain : Option Text}
  {log : List Entry} {P Q : Stored → Prop}

lemma has_fileOf {rs : List Record} : Has json P (fileOf json rs) ↔ ∃ r ∈ rs, P r.stored := by
  simp only [Has, chainLines_fileOf, List.mem_map, exists_exists_and_eq_and, parse_record,
    Option.some.injEq, exists_eq_left']

lemma payloadBytes_parts (delta : UInt64) (ts : ℕ) (problemId : Text) :
    (payloadBytes rt delta ts problemId).take 8 = writeUInt64LE (eventType delta)
      ∧ ((payloadBytes rt delta ts problemId).drop 16).take 32 = List.ofFn (rt.sha256 problemId)
      ∧ ((payloadBytes rt delta ts problemId).drop 48).take 8 = writeUInt64LE delta.toNat := by
  have hdrop : ∀ x n, 8 ≤ n → (writeUInt64LE x).drop n = [] := fun x n hn =>
    List.drop_eq_nil_of_le (by simpa using hn)
  refine ⟨?_, ?_, ?_⟩
  · simp [payloadBytes]
  · simp [payloadBytes, List.drop_append, hdrop]
  · simp [payloadBytes, List.drop_append, hdrop]

/-- The record of an entry encodes it. -/
lemma SealedAs.encodes (h : SealedAs rt C entry r) : Encodes rt entry r.stored := by
  obtain ⟨clock, -, payload, hpayload, -, -, -, hbytes⟩ := h
  obtain ⟨delta, ms, problemId, hdelta, -, hhashed, rfl, -⟩ := buildPayload_eq_some hpayload
  refine ⟨delta, problemId, payloadBytes rt delta (ms * 1000000).toNat problemId, hdelta, hhashed,
    ?_, payloadBytes_parts _ _ _⟩
  simp only [Record.stored, hbytes, Runtime.buffer, fromHex_toHex]

/-- The record of an entry with a key has one. -/
lemma SealedAs.exists_recordKey (h : SealedAs rt C entry r) {k : Text}
    (hk : entryKey rt entry = some k) : ∃ k', recordKey rt r = some k' := by
  by_cases htruthy : entry.timestamp.truthy = true
  · exact ⟨k, by rw [h.recordKey_eq htruthy, hk]⟩
  · obtain ⟨clock, -, payload, hpayload, hid, -, htime, -⟩ := h
    obtain ⟨-, -, problemId, -, -, hhashed, -⟩ := buildPayload_eq_some hpayload
    simp only [entryKey, key, Option.bind_eq_bind, Option.bind_eq_some_iff] at hk
    obtain ⟨p, hp, -⟩ := hk
    rw [Value.or, if_neg htruthy] at htime
    refine ⟨p ++ ':' :: clock.iso, ?_⟩
    rw [recordKey, key, hid, htime, text_stored_of_hashed hhashed, hp]
    rfl

/-- The keys of records that all have one. -/
lemma exists_keys {rs : List Record} (h : ∀ r ∈ rs, ∃ k, recordKey rt r = some k) :
    ∃ keys, rs.mapM (recordKey rt) = some keys
      ∧ ∀ k, k ∈ keys ↔ ∃ r ∈ rs, recordKey rt r = some k := by
  induction rs with
  | nil => exact ⟨[], rfl, by simp⟩
  | cons r rs ih =>
      obtain ⟨k, hk⟩ := h r List.mem_cons_self
      obtain ⟨keys, hkeys, hmem⟩ := ih fun x hx => h x (List.mem_cons_of_mem r hx)
      refine ⟨k :: keys, by rw [List.mapM_cons, hk, hkeys]; rfl, fun k' => ?_⟩
      rw [List.mem_cons, List.exists_mem_cons_iff, hmem, hk, Option.some.injEq, eq_comm]

lemma exists_of_forall₂ {es : List Entry} {rs : List Record} {R : Entry → Record → Prop}
    (h : List.Forall₂ R es rs) : (∀ e ∈ es, ∃ r ∈ rs, R e r) ∧ ∀ r ∈ rs, ∃ e ∈ es, R e r := by
  induction h with
  | nil => simp
  | cons hr _ ih =>
      simp only [List.forall_mem_cons, List.exists_mem_cons_iff]
      exact ⟨⟨.inl hr, fun e he => .inr (ih.1 e he)⟩, ⟨.inl hr, fun r hr => .inr (ih.2 r hr)⟩⟩

variable (rt json) in
/-- What runs leave: the file of records that have keys. -/
def Kept (chain : Option Text) : Prop :=
  ∃ rs, chain = fileOf json rs ∧ ∀ r ∈ rs, ∃ k, recordKey rt r = some k

/-- A run over such a file: the keys that it finds, and the records that it appends. -/
lemma Kept.exists_run (h : Kept rt json chain) (clock : ℕ → Clock) (log : List Entry) :
    ∃ rs keys rs', chain = fileOf json rs ∧ (∀ k, k ∈ keys ↔ Has json (OfKey rt k) chain)
      ∧ (run rt json clock log chain).1 = fileOf json (rs ++ rs')
      ∧ List.Forall₂ (SealedAs rt Set.univ) (pass (entryKey rt) (sealable rt) keys log) rs'
      ∧ ∀ r ∈ rs ++ rs', ∃ k, recordKey rt r = some k := by
  obtain ⟨rs, rfl, hrs⟩ := h
  obtain ⟨keys, hkeys, hmem⟩ := exists_keys hrs
  obtain ⟨rs', hrun, hsealed⟩ := run_fileOf json Set.univ hkeys clock
    (fun i => Set.mem_univ (clock i)) log
  refine ⟨rs, keys, rs', rfl, fun k => ?_, by rw [hrun], hsealed, fun r hr => ?_⟩
  · rw [hmem, has_fileOf]
    rfl
  · rcases List.mem_append.mp hr with hr | hr
    · exact hrs r hr
    · obtain ⟨e, he, hsealedAs⟩ := (exists_of_forall₂ hsealed).2 r hr
      obtain ⟨-, -, k, -, -, hk, -⟩ := exists_of_mem_pass he
      exact hsealedAs.exists_recordKey hk

lemma kept_of_reaches {K : Option Text → (ℕ → Clock) × List Entry → Prop}
    (h : Reaches (visit rt json) K none chain) : Kept rt json chain := by
  refine h.invariant ⟨[], rfl, by simp⟩ fun v a v' hv _ hs => ?_
  obtain rfl := Option.some.inj hs
  obtain ⟨rs, -, rs', -, -, hrun, -, hkeys⟩ := hv.exists_run a.1 a.2
  exact ⟨rs ++ rs', hrun, hkeys⟩

/-- Every entry of a clear log is sealed. -/
lemma Clear.has_encodes (h : Clear rt json chain log) (hkept : Kept rt json chain)
    (clock : ℕ → Clock) :
    ∀ entry ∈ log, Has json (Encodes rt entry) (run rt json clock log chain).1 := by
  intro entry hmem
  obtain ⟨rs, keys, rs', hchain, hkeys, hrun, hsealed, -⟩ := hkept.exists_run clock log
  have hthrough : Through (entryKey rt) (sealable rt) keys log := by
    intro e he
    obtain ⟨k, hk, hor⟩ := h e he
    refine ⟨k, hk, ?_⟩
    rcases hor with ⟨l, hl, r, hr, hkey, -⟩ | ⟨-, hok⟩
    · exact .inl ((hkeys k).mpr ⟨l, hl, r, hr, hkey⟩)
    · exact .inr hok
  obtain ⟨k, hk, hor⟩ := h entry hmem
  rw [hrun, has_fileOf]
  rcases hor with hold | ⟨hnew, hok⟩
  · -- the entry is skipped, for a record of its own event
    rw [hchain, has_fileOf] at hold
    obtain ⟨r, hr, -, hencodes⟩ := hold
    exact ⟨r, List.mem_append_left _ hr, hencodes⟩
  · obtain ⟨p, q, rfl⟩ := List.append_of_mem hmem
    have htaken := (through_append.mp hthrough).1.mem_pass_append hk
      (fun hmem => hnew ((hkeys k).mp hmem)) hok q
    obtain ⟨r, hr, hsealedAs⟩ := (exists_of_forall₂ hsealed).1 entry htaken
    exact ⟨r, List.mem_append_right _ hr, hsealedAs.encodes⟩

/-- An entry that is not clear, and whose event is not sealed, is dropped. -/
lemma not_has_encodes (hkept : Kept rt json chain) (hclear : ¬ Clear rt json chain [entry])
    (hnot : ¬ Has json (Encodes rt entry) chain) (clock : ℕ → Clock) :
    ¬ Has json (Encodes rt entry) (run rt json clock [entry] chain).1 := by
  obtain ⟨rs, keys, rs', hchain, hkeys, hrun, hsealed, -⟩ := hkept.exists_run clock [entry]
  have hnil : pass (entryKey rt) (sealable rt) keys [entry] = [] := by
    by_contra hne
    obtain ⟨e, he⟩ := List.exists_mem_of_ne_nil _ hne
    obtain ⟨p, q, k, hsplit, -, hk, hnew, hok⟩ := exists_of_mem_pass he
    obtain rfl : entry = e := by
      have hmem : e ∈ [entry] := by rw [hsplit]; simp
      exact (List.mem_singleton.mp hmem).symm
    refine hclear fun x hx => ?_
    rw [List.mem_singleton.mp hx]
    exact ⟨k, hk, .inr ⟨fun h => hnew ((hkeys k).mpr h), hok⟩⟩
  rw [hnil] at hsealed
  obtain rfl := List.forall₂_nil_left_iff.mp hsealed
  rw [hrun, List.append_nil, ← hchain]
  exact hnot

/-- As long as every entry of the log is new to the chain and can be sealed, or has the
key of a record of its own event, no entry is dropped. Another one is, if its event is
in no record. -/
theorem nothing_dropped (rt : Runtime) (json : Json) :
    (∀ chain, Reaches (visit rt json) (fun v a => Clear rt json v a.2) none chain →
      ∀ clock log, Clear rt json chain log →
        ∀ entry ∈ log, Has json (Encodes rt entry) (run rt json clock log chain).1)
      ∧ ∀ chain, Reaches (visit rt json) (fun _ _ => True) none chain →
          ∀ clock entry, ¬ Clear rt json chain [entry] → ¬ Has json (Encodes rt entry) chain →
            ¬ Has json (Encodes rt entry) (run rt json clock [entry] chain).1 :=
  ⟨fun _ h clock _ hclear => hclear.has_encodes (kept_of_reaches h) clock,
    fun _ h clock _ hclear hnot => not_has_encodes (kept_of_reaches h) hclear hnot clock⟩

lemma sealable_solvedEntry : sealable sampleRuntime solvedEntry = true := by
  have htime : solvedEntry.time sampleRuntime epoch = some 1767225600000 := rfl
  exact Option.isSome_iff_exists.mpr ⟨_, buildPayload_of rfl htime rfl (by norm_num)⟩

lemma pass_solvedEntry :
    pass (entryKey sampleRuntime) (sealable sampleRuntime) [] [solvedEntry] = [solvedEntry] := by
  have hkey : entryKey sampleRuntime solvedEntry
      = some (['p'] ++ ':' :: "2026-01-01T00:00:00.000Z".toList) := rfl
  rw [pass_of_new hkey List.not_mem_nil sealable_solvedEntry]
  rfl

/-- A run over the solved problem, and one over the attack a day later. -/
lemma run_solvedEntry (json : Json) :
    run sampleRuntime json (fun _ => epoch) [solvedEntry] none
      = (fileOf json [solvedRecord], [solvedRecord]) := by
  have hkey : key sampleRuntime solvedEntry.problemId solvedEntry.timestamp
      = some (['p'] ++ ':' :: "2026-01-01T00:00:00.000Z".toList) := rfl
  have hload : load sampleRuntime json none = some genesis := rfl
  have hkeys : sealedKeys sampleRuntime json none = some [] := rfl
  have happend := append_solvedEntry json
  rw [run, hload, hkeys]
  simp only [sealEntries, hkey, List.not_mem_nil, if_false]
  rw [show (⟨none, genesis⟩ : State) = ⟨fileOf json [], genesis⟩ from rfl, happend]

lemma run_lateAttack (json : Json) :
    run sampleRuntime json (fun _ => epoch) [solvedEntry, lateAttack] (fileOf json [solvedRecord])
      = (fileOf json [solvedRecord, attackRecord], [attackRecord]) := by
  have hkey : key sampleRuntime solvedEntry.problemId solvedEntry.timestamp
      = some (['p'] ++ ':' :: "2026-01-01T00:00:00.000Z".toList) := rfl
  have hkey' : key sampleRuntime lateAttack.problemId lateAttack.timestamp
      = some (['p'] ++ ':' :: "2026-01-02T00:00:00.000Z".toList) := rfl
  have hload : load sampleRuntime json (fileOf json [solvedRecord])
      = some (fromHex solvedRecord.commitment) := load_fileOf [] solvedRecord
  have hkeys : sealedKeys sampleRuntime json (fileOf json [solvedRecord])
      = some [['p'] ++ ':' :: "2026-01-01T00:00:00.000Z".toList] := by
    rw [sealedKeys_fileOf]
    rfl
  have hnew : ['p'] ++ ':' :: "2026-01-02T00:00:00.000Z".toList
      ∉ [['p'] ++ ':' :: "2026-01-01T00:00:00.000Z".toList] := by decide
  rw [run, hload, hkeys]
  simp only [sealEntries, hkey, hkey', List.mem_singleton_self, if_true, if_neg hnew,
    append_lateAttack]

/-- The attack is sealed behind the problem, which the second run finds in the chain. -/
theorem nothing_dropped_attack :
    (run sampleRuntime sampleJson (fun _ => epoch) [solvedEntry, lateAttack]
        (fileOf sampleJson [solvedRecord])).1 = fileOf sampleJson [solvedRecord, attackRecord]
      ∧ ∀ entry ∈ [solvedEntry, lateAttack], Has sampleJson (Encodes sampleRuntime entry)
          (fileOf sampleJson [solvedRecord, attackRecord]) := by
  have hkey : entryKey sampleRuntime solvedEntry
      = some (['p'] ++ ':' :: "2026-01-01T00:00:00.000Z".toList) := rfl
  have hkey' : entryKey sampleRuntime lateAttack
      = some (['p'] ++ ':' :: "2026-01-02T00:00:00.000Z".toList) := rfl
  have hok : sealable sampleRuntime lateAttack = true := by
    rw [sealable, buildPayload_lateAttack]
    rfl
  have hfirst : Clear sampleRuntime sampleJson none [solvedEntry] := by
    intro entry hmem
    rw [List.mem_singleton.mp hmem]
    refine ⟨_, hkey, .inr ⟨?_, sealable_solvedEntry⟩⟩
    rintro ⟨l, hl, -⟩
    exact absurd hl List.not_mem_nil
  have hreach : Reaches (visit sampleRuntime sampleJson)
      (fun v a => Clear sampleRuntime sampleJson v a.2) none (fileOf sampleJson [solvedRecord]) :=
    Reaches.refl.tail (a := (fun _ => epoch, [solvedEntry])) hfirst
      (congrArg (fun out : Option Text × List Record => some out.1) (run_solvedEntry sampleJson))
  have hencodes : Encodes sampleRuntime solvedEntry solvedRecord.stored := by
    have h := (nothing_dropped sampleRuntime sampleJson).1 none .refl (fun _ => epoch) _ hfirst
      solvedEntry List.mem_cons_self
    rw [run_solvedEntry, has_fileOf] at h
    obtain ⟨r, hr, h⟩ := h
    rwa [List.mem_singleton.mp hr] at h
  have hclear : Clear sampleRuntime sampleJson (fileOf sampleJson [solvedRecord])
      [solvedEntry, lateAttack] := by
    intro entry hmem
    rcases List.mem_pair.mp hmem with rfl | rfl
    · exact ⟨_, hkey, .inl (has_fileOf.mpr ⟨solvedRecord, List.mem_cons_self, hkey, hencodes⟩)⟩
    · refine ⟨_, hkey', .inr ⟨fun hhas => ?_, hok⟩⟩
      obtain ⟨r, hr, hold⟩ := has_fileOf.mp hhas
      rw [List.mem_singleton.mp hr] at hold
      exact absurd (hkey.symm.trans hold) (by decide)
  have hsealed := (nothing_dropped sampleRuntime sampleJson).1 _ hreach (fun _ => epoch) _ hclear
  rw [run_lateAttack] at hsealed
  exact ⟨congrArg Prod.fst (run_lateAttack sampleJson), hsealed⟩

/-- The attack is found under the key of the solved problem. -/
lemma pass_attackEntry : pass (entryKey sampleRuntime) (sealable sampleRuntime)
    [['p'] ++ ':' :: "2026-01-01T00:00:00.000Z".toList] [solvedEntry, attackEntry] = [] := by
  have hkey : ∀ e ∈ [solvedEntry, attackEntry],
      ∃ k ∈ [['p'] ++ ':' :: "2026-01-01T00:00:00.000Z".toList],
        entryKey sampleRuntime e = some k := by
    intro e he
    refine ⟨_, List.mem_singleton_self _, ?_⟩
    rcases List.mem_pair.mp he with rfl | rfl
    · rfl
    · rfl
  exact pass_of_all_known hkey []

lemma Encodes.eventType_eq {e e' : Entry} {r : Stored} (h : Encodes rt e r)
    (h' : Encodes rt e' r) {delta delta' : UInt64} (hdelta : rt.toNumber e.delta = some delta)
    (hdelta' : rt.toNumber e'.delta = some delta') :
    writeUInt64LE (eventType delta) = writeUInt64LE (eventType delta') := by
  obtain ⟨d, -, payload, hd, -, hpayload, htype, -⟩ := h
  obtain ⟨d', -, payload', hd', -, hpayload', htype', -⟩ := h'
  obtain rfl := Option.some.inj (hd.symm.trans hdelta)
  obtain rfl := Option.some.inj (hd'.symm.trans hdelta')
  obtain rfl := Option.some.inj (hpayload.symm.trans hpayload')
  rw [← htype, ← htype']

/-- The attack has the key of the solved problem, and is dropped. -/
theorem attack_dropped :
    ¬ ∃ json : Json, ∀ chain,
      Reaches (visit sampleRuntime json) (fun _ _ => True) none chain → ∀ clock log,
        ∀ entry ∈ log, Has json (Encodes sampleRuntime entry)
          (run sampleRuntime json clock log chain).1 := by
  rintro ⟨json, hall⟩
  obtain ⟨rs, hrun, hsealed⟩ := run_fileOf json {epoch}
    (show ([] : List Record).mapM (recordKey sampleRuntime) = some [] from rfl)
    (fun _ => epoch) (fun _ => rfl) [solvedEntry]
  rw [pass_solvedEntry] at hsealed
  obtain ⟨r, rs, hr, hnil, rfl⟩ := List.forall₂_cons_left_iff.mp hsealed
  obtain rfl := List.forall₂_nil_left_iff.mp hnil
  have hreach : Reaches (visit sampleRuntime json) (fun _ _ => True) none (fileOf json [r]) :=
    Reaches.refl.tail (a := (fun _ => epoch, [solvedEntry])) trivial
      (congrArg (fun out : Option Text × List Record => some out.1) hrun)
  have hkeys : [r].mapM (recordKey sampleRuntime)
      = some [['p'] ++ ':' :: "2026-01-01T00:00:00.000Z".toList] := by
    rw [List.mapM_cons, hr.recordKey_eq rfl]
    rfl
  obtain ⟨rs', hrun', hsealed'⟩ := run_fileOf json {epoch} hkeys (fun _ => epoch)
    (fun _ => rfl) [solvedEntry, attackEntry]
  rw [pass_attackEntry] at hsealed'
  obtain rfl := List.forall₂_nil_left_iff.mp hsealed'
  have hattack := hall _ hreach (fun _ => epoch) [solvedEntry, attackEntry] attackEntry (by simp)
  rw [hrun', List.append_nil, has_fileOf] at hattack
  obtain ⟨r', hmem, hencodes⟩ := hattack
  rw [List.mem_singleton.mp hmem] at hencodes
  have hsolved : sampleRuntime.toNumber solvedEntry.delta = some 0x3FF0000000000000 := rfl
  have hattacked : sampleRuntime.toNumber attackEntry.delta = some 0xBFF0000000000000 := rfl
  exact absurd (hr.encodes.eventType_eq hencodes hsolved hattacked) (by decide)

end Convergence

end SovereignBus
