import SovereignBus.Convergence.Chain
import SovereignBus.Library.Dedupe

/-!
Entries that are sealed in several runs.

* `run_fileOf`: what a run makes of the chain file of a list of records: it seals what a `pass`
  over the log takes.
* `runs`, `Incremental`: runs after every state of a growing log, against one run.
* `Settles`: every entry that is sealed has a timestamp, and the log is settled.
* `incremental_iff`: a log can be sealed in steps exactly when it settles.
-/

namespace SovereignBus

namespace Convergence

open Dedupe

variable (rt : Runtime) (json : Json)

/-! ### Records -/

/-- The key that is read back of a record. -/
def recordKey (r : Record) : Option Text := key rt r.problemId.stored r.timestamp.stored

def entryKey (entry : Entry) : Option Text := key rt entry.problemId entry.timestamp

/-- The payload of an entry is no matter of the clock. -/
def sealable (entry : Entry) : Bool := (buildPayload rt epoch entry).isSome

/-- The record of an entry, at one of some readings of the clock. -/
def SealedAs (C : Set Clock) (entry : Entry) (r : Record) : Prop :=
  ∃ clock ∈ C, ∃ payload, buildPayload rt clock entry = some payload
    ∧ r.problemId = entry.problemId ∧ r.delta = entry.delta
    ∧ r.timestamp = entry.timestamp.or (.string clock.iso) ∧ r.payload = toHex payload

variable {rt json} {clock clock' : Clock} {entry : Entry} {r : Record} {C : Set Clock}

variable (rt json) in
lemma exists_load (chain : List Record) : ∃ tip, load rt json (fileOf json chain) = some tip := by
  rcases List.eq_nil_or_concat chain with rfl | ⟨rs, r, rfl⟩
  · exact ⟨genesis, rfl⟩
  · exact ⟨fromHex r.commitment, load_fileOf rs r⟩

lemma sealedKeys_fileOf (chain : List Record) :
    sealedKeys rt json (fileOf json chain) = chain.mapM (recordKey rt) := by
  rw [sealedKeys, chainLines_fileOf, List.mapM_map]
  congr 1
  funext r
  simp [parse_record, recordKey, Record.stored]

/-! ### Keys -/

lemma time_of_truthy (h : entry.timestamp.truthy = true) (clock : Clock) :
    entry.time rt clock = rt.getTime entry.timestamp := if_pos h

lemma buildPayload_of_truthy (h : entry.timestamp.truthy = true) (clock clock' : Clock) :
    buildPayload rt clock entry = buildPayload rt clock' entry := by
  simp only [buildPayload, time_of_truthy h]

lemma exists_buildPayload {payload : List UInt8} (h : buildPayload rt clock entry = some payload)
    (clock' : Clock) : ∃ payload', buildPayload rt clock' entry = some payload' := by
  by_cases htruthy : entry.timestamp.truthy = true
  · exact ⟨payload, by rw [buildPayload_of_truthy htruthy clock' clock, h]⟩
  · obtain ⟨delta, ms, problemId, hdelta, -, hhashed, -⟩ := buildPayload_eq_some h
    exact ⟨_, buildPayload_of hdelta (if_neg htruthy) hhashed clock'.ts_fits⟩

lemma exists_of_sealable (h : sealable rt entry = true) (clock : Clock) :
    ∃ payload, buildPayload rt clock entry = some payload := by
  obtain ⟨payload, hpayload⟩ := Option.isSome_iff_exists.mp h
  exact exists_buildPayload hpayload clock

lemma sealable_of_not_truthy {delta : UInt64} {problemId : Text}
    (hdelta : rt.toNumber entry.delta = some delta) (hhashed : entry.hashed = some problemId)
    (htruthy : entry.timestamp.truthy = false) : sealable rt entry = true :=
  Option.isSome_iff_exists.mpr
    ⟨_, buildPayload_of hdelta (if_neg (by simp [htruthy])) hhashed epoch.ts_fits⟩

lemma buildPayload_of_not_sealable (h : sealable rt entry = false) (clock : Clock) :
    buildPayload rt clock entry = none := by
  cases hpayload : buildPayload rt clock entry with
  | none => rfl
  | some payload =>
      obtain ⟨payload', hpayload'⟩ := exists_buildPayload hpayload epoch
      simp [sealable, hpayload'] at h

/-- A number that is hashed is 0, with or without its sign. -/
lemma text_stored_of_hashed {problemId : Text} (h : entry.hashed = some problemId) :
    rt.text entry.problemId.stored = rt.text entry.problemId := by
  cases hid : entry.problemId with
  | number x =>
      cases hzero : isZero x.1 with
      | true =>
          rw [Value.stored, if_pos hzero, Runtime.text, Runtime.text, if_pos hzero]
          rfl
      | false => simp [Entry.hashed, hid, Value.or, Value.truthy, hzero] at h
  | undefined | null | bool _ | string _ | object _ => rfl

/-- A number that is a date is finite. -/
lemma text_stored_of_getTime {v : Value} {ms : ℤ} (h : rt.getTime v = some ms) :
    rt.text v.stored = rt.text v := by
  cases v with
  | number x =>
      cases hzero : isZero x.1 with
      | true =>
          rw [Value.stored, if_pos hzero, Runtime.text, Runtime.text, if_pos hzero]
          rfl
      | false =>
          have hfinite : isFinite x.1 = true := by
            by_contra hnot
            simp [Runtime.getTime, hnot] at h
          rw [Value.stored, if_neg (by simp [hzero]), if_pos hfinite]
  | undefined | null | bool _ | string _ | object _ => rfl

/-- An entry that has a timestamp is found again by its key. -/
lemma SealedAs.recordKey_eq (h : SealedAs rt C entry r) (htruthy : entry.timestamp.truthy = true) :
    recordKey rt r = entryKey rt entry := by
  obtain ⟨clock, -, payload, hpayload, hid, -, htime, -⟩ := h
  obtain ⟨-, ms, problemId, -, hms, hhashed, -⟩ := buildPayload_eq_some hpayload
  rw [time_of_truthy htruthy] at hms
  rw [Value.or, if_pos htruthy] at htime
  rw [recordKey, entryKey, key, key, hid, htime, text_stored_of_hashed hhashed,
    text_stored_of_getTime hms]

/-! ### Runs -/

/-- What is sealed for an entry: its problem, its delta and its payload. -/
def Record.identity (r : Record) : Value × Value × Text :=
  (r.problemId.stored, r.delta.stored, r.payload)

variable (rt json) in
/-- The loop of a run seals what a pass takes. -/
lemma sealEntries_fileOf (keys : List Text) (entries : List Entry) (clock : ℕ → Clock)
    (hclock : ∀ i, clock i ∈ C) (chain : List Record) (tip : List UInt8) :
    ∃ rs tip', sealEntries rt json keys clock entries ⟨fileOf json chain, tip⟩
        = (⟨fileOf json (chain ++ rs), tip'⟩, rs)
      ∧ List.Forall₂ (SealedAs rt C) (pass (entryKey rt) (sealable rt) keys entries) rs := by
  induction entries generalizing clock chain tip with
  | nil => exact ⟨[], tip, by simp [sealEntries], List.Forall₂.nil⟩
  | cons entry entries ih =>
      rcases entry_cases (entryKey rt) (sealable rt) keys entry with
        ⟨k, hk, he⟩ | ⟨k, he, hk, hok⟩ | hblocks
      · have hkey : key rt entry.problemId entry.timestamp = some k := he
        have hrest := ih (fun i => clock (i + 1)) (fun i => hclock (i + 1)) chain tip
        rw [pass_of_known he hk]
        simpa only [sealEntries, hkey, if_pos hk] using hrest
      · have hkey : key rt entry.problemId entry.timestamp = some k := he
        obtain ⟨payload, hpayload⟩ := exists_of_sealable hok (clock 0)
        obtain ⟨rs, tip', hrest, hsealed⟩ :=
          ih (fun i => clock (i + 1)) (fun i => hclock (i + 1))
            (chain ++ [makeRecord (clock 0) entry payload ⟨fileOf json chain, tip⟩])
            (circuit tip payload)
        refine ⟨makeRecord (clock 0) entry payload ⟨fileOf json chain, tip⟩ :: rs, tip', ?_, ?_⟩
        · simp only [sealEntries, hkey, if_neg hk, appendToChain_of hpayload, appendFile_fileOf,
            hrest, List.append_assoc, List.singleton_append]
        · rw [pass_of_new he hk hok]
          exact .cons ⟨clock 0, hclock 0, payload, hpayload, rfl, rfl, rfl, rfl⟩ hsealed
      · refine ⟨[], tip, ?_, by rw [hblocks.pass_eq_nil]; exact .nil⟩
        rw [List.append_nil]
        cases hkey : key rt entry.problemId entry.timestamp with
        | none => simp only [sealEntries, hkey]
        | some k =>
            obtain ⟨hk, hok⟩ := hblocks k hkey
            have happend :
                appendToChain rt json (clock 0) entry ⟨fileOf json chain, tip⟩ = none := by
              rw [appendToChain, buildPayload_of_not_sealable hok]
              rfl
            simp only [sealEntries, hkey, if_neg hk, happend]

variable (json C) in
/-- What a run makes of a chain whose keys can be read. -/
lemma run_fileOf {chain : List Record} {keys : List Text}
    (hkeys : chain.mapM (recordKey rt) = some keys) (clock : ℕ → Clock)
    (hclock : ∀ i, clock i ∈ C) (log : List Entry) :
    ∃ rs, run rt json clock log (fileOf json chain) = (fileOf json (chain ++ rs), rs)
      ∧ List.Forall₂ (SealedAs rt C) (pass (entryKey rt) (sealable rt) keys log) rs := by
  obtain ⟨tip, htip⟩ := exists_load rt json chain
  obtain ⟨rs, tip', hseal, hsealed⟩ :=
    sealEntries_fileOf rt json keys log clock hclock chain tip
  refine ⟨rs, ?_, hsealed⟩
  simp only [run, htip, sealedKeys_fileOf, hkeys, hseal]

/-- A chain whose keys cannot be read is left as it is. -/
lemma run_of_none {chain : List Record} (hkeys : chain.mapM (recordKey rt) = none)
    (clock : ℕ → Clock) (log : List Entry) :
    run rt json clock log (fileOf json chain) = (fileOf json chain, []) := by
  obtain ⟨tip, htip⟩ := exists_load rt json chain
  rw [run, htip, sealedKeys_fileOf, hkeys]

/-- The keys behind a run whose entries all have timestamps. -/
lemma mapM_recordKey {es : List Entry} {rs : List Record}
    (h : List.Forall₂ (SealedAs rt C) es rs) (htruthy : ∀ e ∈ es, e.timestamp.truthy = true)
    (hkey : ∀ e ∈ es, ∃ k, entryKey rt e = some k) :
    rs.mapM (recordKey rt) = some (es.filterMap (entryKey rt)) := by
  induction h with
  | nil => rfl
  | @cons e r es rs hsealed _ ih =>
      obtain ⟨k, hk⟩ := hkey e List.mem_cons_self
      have hrest := ih (fun x hx => htruthy x (List.mem_cons_of_mem e hx))
        fun x hx => hkey x (List.mem_cons_of_mem e hx)
      have hrecord := hsealed.recordKey_eq (htruthy e List.mem_cons_self)
      rw [List.mapM_cons, hrest, hrecord, hk, List.filterMap_cons_some hk]
      rfl

/-! ### Steps -/

/-- What is sealed for an entry with a timestamp, at any time. -/
def identity (rt : Runtime) (entry : Entry) : Value × Value × Text :=
  (entry.problemId.stored, entry.delta.stored,
    toHex ((buildPayload rt epoch entry).getD []))

variable (rt json) in
/-- A run after every state of the log. -/
def runs : Option Text → List ((ℕ → Clock) × List Entry) → Option Text × List Record
  | chain, [] => (chain, [])
  | chain, (clock, log) :: cuts =>
      let (chain, rs) := run rt json clock log chain
      let (chain, rs') := runs chain cuts
      (chain, rs ++ rs')

variable (rt json) in
/-- Runs after the states of a growing log seal what one run over the log seals, at
whatever time each of them is. -/
def Incremental (chain : Option Text) (log : List Entry) : Prop :=
  ∀ (cuts : List ((ℕ → Clock) × List Entry)) (clock : ℕ → Clock),
    (cuts.map Prod.snd).IsChain (· <+: ·) → (cuts.map Prod.snd).getLast? = some log →
      (runs rt json chain cuts).2.map Record.identity
        = (run rt json clock log chain).2.map Record.identity

variable (rt) in
/-- Every entry that is sealed has a timestamp and a key of its own, and no entry of a
new key is behind one that ends the run and is skipped once its key is known. -/
structure Settles (keys : List Text) (log : List Entry) : Prop
    extends Settled (entryKey rt) (sealable rt) keys log where
  timestamps : ∀ p e q k, log = p ++ e :: q → Through (entryKey rt) (sealable rt) keys p →
    entryKey rt e = some k → k ∉ keys → sealable rt e = true → e.timestamp.truthy = true

lemma SealedAs.identity_eq (h : SealedAs rt C entry r) (htruthy : entry.timestamp.truthy = true) :
    r.identity = identity rt entry := by
  obtain ⟨clock, -, payload, hpayload, hid, hdelta, -, hbytes⟩ := h
  rw [buildPayload_of_truthy htruthy clock epoch] at hpayload
  rw [Record.identity, identity, hid, hdelta, hbytes, hpayload, Option.getD_some]

lemma map_identity {es : List Entry} {rs : List Record} (h : List.Forall₂ (SealedAs rt C) es rs)
    (htruthy : ∀ e ∈ es, e.timestamp.truthy = true) :
    rs.map Record.identity = es.map (identity rt) := by
  induction h with
  | nil => rfl
  | @cons e r es rs hsealed _ ih =>
      rw [List.map_cons, List.map_cons, hsealed.identity_eq (htruthy e List.mem_cons_self),
        ih fun x hx => htruthy x (List.mem_cons_of_mem e hx)]

/-- What a pass takes of a log that settles has timestamps. -/
lemma Settles.truthy {keys : List Text} {log : List Entry} (h : Settles rt keys log) :
    ∀ e ∈ pass (entryKey rt) (sealable rt) keys log, e.timestamp.truthy = true := by
  intro e hmem
  obtain ⟨p, q, k, hlog, hp, hk, hnew, hok⟩ := exists_of_mem_pass hmem
  exact h.timestamps p e q k hlog hp hk hnew hok

/-- The keys behind a run that seals entries with timestamps only. -/
lemma mapM_of_pass {chain rs : List Record} {keys : List Text} {p : List Entry}
    (hkeys : chain.mapM (recordKey rt) = some keys)
    (hsealed : List.Forall₂ (SealedAs rt C) (pass (entryKey rt) (sealable rt) keys p) rs)
    (htruthy : ∀ e ∈ pass (entryKey rt) (sealable rt) keys p, e.timestamp.truthy = true) :
    (chain ++ rs).mapM (recordKey rt)
      = some (keys ++ (pass (entryKey rt) (sealable rt) keys p).filterMap (entryKey rt)) := by
  have hrecords := mapM_recordKey hsealed htruthy fun e hmem => by
    obtain ⟨-, -, k, -, -, hk, -⟩ := exists_of_mem_pass hmem
    exact ⟨k, hk⟩
  rw [List.mapM_append, hkeys, hrecords]
  rfl

lemma prefix_last {c log : List Entry} {cuts : List (List Entry)}
    (hchain : (c :: cuts).IsChain (· <+: ·)) (hlast : (c :: cuts).getLast? = some log) :
    c <+: log := by
  induction cuts generalizing c with
  | nil =>
      obtain rfl := Option.some.inj hlast
      exact List.prefix_rfl
  | cons d cuts ih =>
      rw [List.getLast?_cons_cons] at hlast
      obtain ⟨hcd, hd⟩ := List.isChain_cons_cons.mp hchain
      exact hcd.trans (ih hd hlast)

variable (json) in
/-- The steps that are left seal what the log has beyond the part that is sealed. -/
lemma Settles.runs_eq {keys : List Text} {log : List Entry} (h : Settles rt keys log)
    {chain rs : List Record} (hkeys : chain.mapM (recordKey rt) = some keys)
    (cuts : List ((ℕ → Clock) × List Entry)) {p : List Entry}
    (hsealed : List.Forall₂ (SealedAs rt Set.univ) (pass (entryKey rt) (sealable rt) keys p) rs)
    (hchain : (p :: cuts.map Prod.snd).IsChain (· <+: ·))
    (hlast : (p :: cuts.map Prod.snd).getLast? = some log) :
    (rs ++ (runs rt json (fileOf json (chain ++ rs)) cuts).2).map Record.identity
      = (pass (entryKey rt) (sealable rt) keys log).map (identity rt) := by
  induction cuts generalizing p rs with
  | nil =>
      obtain rfl := Option.some.inj hlast
      rw [runs, List.append_nil]
      exact map_identity hsealed h.truthy
  | cons cut cuts ih =>
      obtain ⟨clock, c⟩ := cut
      obtain ⟨hpc, hc⟩ := List.isChain_cons_cons.mp hchain
      rw [List.map_cons, List.getLast?_cons_cons] at hlast
      have hlog := prefix_last hc hlast
      have htruthy : ∀ e ∈ pass (entryKey rt) (sealable rt) keys p, e.timestamp.truthy = true :=
        fun e hmem => h.truthy e ((pass_mono (hpc.trans hlog)).subset hmem)
      obtain ⟨rs', hrun, hsealed'⟩ := run_fileOf json Set.univ
        (mapM_of_pass hkeys hsealed htruthy) clock (fun i => Set.mem_univ (clock i)) c
      have hafter : pass (entryKey rt) (sealable rt) keys p ++ pass (entryKey rt) (sealable rt)
          (keys ++ (pass (entryKey rt) (sealable rt) keys p).filterMap (entryKey rt)) c
            = pass (entryKey rt) (sealable rt) keys c :=
        (h.toSettled.of_prefix hlog).pass_after hpc
      have hboth : List.Forall₂ (SealedAs rt Set.univ) (pass (entryKey rt) (sealable rt) keys c)
          (rs ++ rs') := hafter ▸ List.rel_append hsealed hsealed'
      have hrest := ih hboth hc hlast
      rw [← List.append_assoc chain, List.append_assoc rs] at hrest
      simpa only [runs, hrun] using hrest

/-- A chain whose keys cannot be read is left as it is by all runs. -/
lemma runs_of_none {chain : List Record} (hkeys : chain.mapM (recordKey rt) = none)
    (cuts : List ((ℕ → Clock) × List Entry)) :
    runs rt json (fileOf json chain) cuts = (fileOf json chain, []) := by
  induction cuts with
  | nil => rfl
  | cons cut cuts ih =>
      obtain ⟨clock, log⟩ := cut
      simp only [runs, run_of_none hkeys, ih, List.append_nil]

lemma incremental_of_settles {chain : List Record} {log : List Entry}
    (h : ∀ keys, chain.mapM (recordKey rt) = some keys → Settles rt keys log) :
    Incremental rt json (fileOf json chain) log := by
  intro cuts clock hchain hlast
  cases hkeys : chain.mapM (recordKey rt) with
  | none => rw [runs_of_none hkeys, run_of_none hkeys]
  | some keys =>
      have hsettles := h keys hkeys
      obtain ⟨rs, hrun, hsealed⟩ := run_fileOf json Set.univ hkeys clock
        (fun i => Set.mem_univ (clock i)) log
      have hstart : ([] :: cuts.map Prod.snd).IsChain (· <+: ·) :=
        List.isChain_cons.mpr ⟨fun _ _ => List.nil_prefix, hchain⟩
      have hend : ([] :: cuts.map Prod.snd).getLast? = some log := by
        rw [List.getLast?_cons, hlast]
        rfl
      have hnone : List.Forall₂ (SealedAs rt Set.univ)
          (pass (entryKey rt) (sealable rt) keys []) [] := .nil
      have hruns := hsettles.runs_eq json hkeys cuts hnone hstart hend
      rw [List.append_nil, List.nil_append] at hruns
      rw [hruns, hrun, map_identity hsealed hsettles.truthy]

/-! ### Logs that can be sealed in steps -/

/-- A millisecond later. -/
def tick : Clock := ⟨1, "1970-01-01T00:00:00.001Z".toList, by norm_num⟩

/-- An entry without a timestamp is another one a millisecond later. -/
lemma truthy_of_buildPayload {payload : List UInt8} (h : buildPayload rt epoch entry = some payload)
    (h' : buildPayload rt tick entry = some payload) : entry.timestamp.truthy = true := by
  by_contra htruthy
  have htime : ∀ clock : Clock, entry.time rt clock = some (clock.ms : ℤ) := fun _ => if_neg htruthy
  obtain ⟨delta, ms, id, hdelta, hms, hid, rfl, -⟩ := buildPayload_eq_some h
  obtain ⟨delta', ms', id', hdelta', hms', hid', heq, -⟩ := buildPayload_eq_some h'
  obtain rfl := Option.some.inj (hdelta.symm.trans hdelta')
  obtain rfl := Option.some.inj (hid.symm.trans hid')
  obtain rfl := Option.some.inj ((htime epoch).symm.trans hms)
  obtain rfl := Option.some.inj ((htime tick).symm.trans hms')
  simp only [payloadBytes, List.append_cancel_right_eq, List.append_cancel_left_eq] at heq
  exact absurd heq (by decide)

lemma truthy_of_identity {es : List Entry} {rs rs' : List Record}
    (h : List.Forall₂ (SealedAs rt {epoch}) es rs) (h' : List.Forall₂ (SealedAs rt {tick}) es rs')
    (hsame : rs.map Record.identity = rs'.map Record.identity) :
    ∀ e ∈ es, e.timestamp.truthy = true := by
  induction h generalizing rs' with
  | nil => simp
  | @cons e r es rs hsealed _ ih =>
      cases h' with
      | @cons _ r' _ rs' hsealed' hrest' =>
          obtain ⟨hid, hmap⟩ := List.cons_eq_cons.mp hsame
          obtain ⟨_, rfl, payload, hpayload, -, -, -, hbytes⟩ := hsealed
          obtain ⟨_, rfl, payload', hpayload', -, -, -, hbytes'⟩ := hsealed'
          have hhex : toHex payload = toHex payload' := by
            rw [← hbytes, ← hbytes']
            exact congrArg (fun i => i.2.2) hid
          rw [← toHex_injective hhex] at hpayload'
          intro x hx
          rcases List.mem_cons.mp hx with rfl | hx
          · exact truthy_of_buildPayload hpayload hpayload'
          · exact ih hrest' hmap x hx

lemma settles_of_incremental {chain : List Record} {log : List Entry}
    (h : Incremental rt json (fileOf json chain) log) {keys : List Text}
    (hkeys : chain.mapM (recordKey rt) = some keys) : Settles rt keys log := by
  obtain ⟨rs, hrun, hsealed⟩ := run_fileOf json {epoch} hkeys (fun _ => epoch)
    (fun _ => rfl) log
  have htruthy : ∀ e ∈ pass (entryKey rt) (sealable rt) keys log, e.timestamp.truthy = true := by
    obtain ⟨rs', hrun', hsealed'⟩ := run_fileOf json {tick} hkeys (fun _ => tick)
      (fun _ => rfl) log
    have hsame := h [(fun _ => tick, log)] (fun _ => epoch) (List.isChain_singleton log) rfl
    simp only [runs, hrun, hrun', List.append_nil] at hsame
    exact truthy_of_identity hsealed hsealed' hsame.symm
  refine ⟨settled_of_lengths fun p hp => ?_, fun p e q k hlog hp hk hnew hok => ?_⟩
  · -- a run over the part, and then one over the log
    obtain ⟨rs₁, hrun₁, hsealed₁⟩ := run_fileOf json {epoch} hkeys (fun _ => epoch)
      (fun _ => rfl) p
    have htruthy₁ := fun e hmem => htruthy e ((pass_mono hp).subset hmem)
    obtain ⟨rs₂, hrun₂, hsealed₂⟩ := run_fileOf json {epoch}
      (mapM_of_pass hkeys hsealed₁ htruthy₁) (fun _ => epoch) (fun _ => rfl) log
    have hsame := h [(fun _ => epoch, p), (fun _ => epoch, log)] (fun _ => epoch)
      (by simpa using hp) rfl
    simp only [runs, hrun, hrun₁, hrun₂, List.append_nil] at hsame
    have hlength := congrArg List.length hsame
    rw [List.length_map, List.length_map, List.length_append] at hlength
    rw [hsealed₁.length_eq, hsealed₂.length_eq, hsealed.length_eq]
    exact hlength
  · refine htruthy e ?_
    rw [hlog]
    exact hp.mem_pass_append hk hnew hok q

/-- A log can be sealed in any steps exactly when it settles. -/
theorem incremental_iff (rt : Runtime) (json : Json) (chain : List Record) (log : List Entry) :
    Incremental rt json (fileOf json chain) log
      ↔ ∀ keys, sealedKeys rt json (fileOf json chain) = some keys → Settles rt keys log := by
  rw [sealedKeys_fileOf]
  exact ⟨fun h keys hkeys => settles_of_incremental h hkeys, incremental_of_settles⟩

/-- A solved problem, whose entry has no timestamp. -/
def untimedEntry : Entry :=
  ⟨.string "PROBLEM_SOLVED".toList, .string ['p'], .undefined, .undefined, .undefined⟩

lemma pass_untimedEntry {keys : List Text}
    (h : ['p'] ++ ':' :: "undefined".toList ∉ keys) :
    pass (entryKey sampleRuntime) (sealable sampleRuntime) keys [untimedEntry]
      = [untimedEntry] := by
  have hkey : entryKey sampleRuntime untimedEntry = some (['p'] ++ ':' :: "undefined".toList) :=
    rfl
  have hok : sealable sampleRuntime untimedEntry = true := sealable_of_not_truthy rfl rfl rfl
  rw [pass_of_new hkey h hok]
  rfl

/-- Its record has the time of the clock for its timestamp, so the next run over the same
log seals it again. -/
theorem untimed_entry_sealed_again :
    ¬ ∃ json : Json, Incremental sampleRuntime json none [untimedEntry] := by
  rintro ⟨json, h⟩
  obtain ⟨rs, hrun, hsealed⟩ := run_fileOf json {epoch}
    (show ([] : List Record).mapM (recordKey sampleRuntime) = some [] from rfl)
    (fun _ => epoch) (fun _ => rfl) [untimedEntry]
  rw [pass_untimedEntry List.not_mem_nil] at hsealed
  obtain ⟨r, rs, hr, hnil, rfl⟩ := List.forall₂_cons_left_iff.mp hsealed
  obtain rfl := List.forall₂_nil_left_iff.mp hnil
  obtain ⟨_, rfl, payload, -, hid, -, htime, -⟩ := hr
  have hkeys : [r].mapM (recordKey sampleRuntime) = some [['p'] ++ ':' :: epoch.iso] := by
    rw [List.mapM_cons, recordKey, hid, htime]
    rfl
  obtain ⟨rs', hrun', hsealed'⟩ := run_fileOf json {epoch} hkeys (fun _ => epoch)
    (fun _ => rfl) [untimedEntry]
  rw [pass_untimedEntry (by decide)] at hsealed'
  have hsame := h [(fun _ => epoch, [untimedEntry]), (fun _ => epoch, [untimedEntry])]
    (fun _ => epoch) (by simp) rfl
  rw [fileOf, List.nil_append] at hrun
  simp only [runs, hrun, hrun', List.append_nil] at hsame
  have hlength := congrArg List.length hsame
  rw [List.length_map, List.length_map, List.length_append, ← hsealed'.length_eq] at hlength
  simp at hlength

end Convergence

end SovereignBus
