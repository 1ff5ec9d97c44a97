import SovereignBus.Convergence.Chain

/-!
Chains that stay verifiable.

* `follow`: the tip behind lines that `verifyChain` accepts.
* `Sound`: the tip in memory is the tip of the file, and the next record has a line of
  its own.
* `exec`: appends and restarts in any order, and `Sound.exec`, what they leave.
* `stays_verifiable_iff`: a verified chain stays verifiable exactly when nothing but
  white space stands behind its last line feed.
-/

namespace SovereignBus

namespace Convergence

open Lines

variable (rt : Runtime) (json : Json)

/-! ### Accepted lines -/

/-- The tip behind lines that are accepted. -/
def follow : List UInt8 → List Text → Option (List UInt8)
  | tip, [] => some tip
  | tip, l :: ls => do
      let r ← json.parse l
      let payload ← rt.buffer r.payload
      let stored ← rt.buffer r.commitment
      if circuit tip payload = stored then follow stored ls else none

variable {rt json}

lemma follow_cons_eq_some {tip tip' : List UInt8} {l : Text} {ls : List Text} :
    follow rt json tip (l :: ls) = some tip'
      ↔ ∃ r payload, json.parse l = some r ∧ rt.buffer r.payload = some payload
          ∧ rt.buffer r.commitment = some (circuit tip payload)
          ∧ follow rt json (circuit tip payload) ls = some tip' := by
  simp only [follow, Option.bind_eq_bind, Option.bind_eq_some_iff, Option.ite_none_right_eq_some]
  refine ⟨?_, ?_⟩
  · rintro ⟨r, hr, payload, hpayload, stored, hstored, rfl, h⟩
    exact ⟨r, payload, hr, hpayload, hstored, h⟩
  · rintro ⟨r, payload, hr, hpayload, hstored, h⟩
    exact ⟨r, hr, payload, hpayload, _, hstored, rfl, h⟩

lemma follow_append (tip : List UInt8) (ls ls' : List Text) :
    follow rt json tip (ls ++ ls')
      = (follow rt json tip ls).bind fun tip' => follow rt json tip' ls' := by
  induction ls generalizing tip with
  | nil => rfl
  | cons l ls ih =>
      ext tip'
      rw [List.cons_append, follow_cons_eq_some, Option.bind_eq_some_iff]
      simp only [follow_cons_eq_some, ih, Option.bind_eq_some_iff]
      refine ⟨?_, ?_⟩
      · rintro ⟨r, payload, hr, hpayload, hstored, mid, hmid, h⟩
        exact ⟨mid, ⟨r, payload, hr, hpayload, hstored, hmid⟩, h⟩
      · rintro ⟨mid, ⟨r, payload, hr, hpayload, hstored, hmid⟩, h⟩
        exact ⟨r, payload, hr, hpayload, hstored, mid, hmid, h⟩

/-- The last accepted line has the tip for its commitment. -/
lemma commitment_of_follow {tip tip' : List UInt8} {ls : List Text} {last : Text}
    (h : follow rt json tip (ls ++ [last]) = some tip') :
    ∃ r, json.parse last = some r ∧ rt.buffer r.commitment = some tip' := by
  rw [follow_append, Option.bind_eq_some_iff] at h
  obtain ⟨mid, -, h⟩ := h
  obtain ⟨r, payload, hr, -, hstored, htip⟩ := follow_cons_eq_some.mp h
  rw [← htip]
  exact ⟨r, hr, hstored⟩

/-- The verification of a line and of those behind it. -/
lemma verifyLines_eq_ok {i count : ℕ} {expectedTip : List UInt8} {tip : Option Text}
    {ls : List Text} :
    verifyLines rt json i expectedTip ls = some (.ok count tip)
      ↔ ∃ tip', follow rt json expectedTip ls = some tip' ∧ count = i + ls.length
          ∧ tip = some (toHex tip') := by
  induction ls generalizing i expectedTip with
  | nil =>
      simp only [verifyLines, follow, Option.some.injEq, Verdict.ok.injEq, List.length_nil,
        Nat.add_zero, exists_eq_left']
      exact ⟨fun ⟨hi, ht⟩ => ⟨hi.symm, ht.symm⟩, fun ⟨hi, ht⟩ => ⟨hi.symm, ht.symm⟩⟩
  | cons l ls ih =>
      simp only [verifyLines, Option.bind_eq_bind, Option.bind_eq_some_iff, follow_cons_eq_some,
        List.length_cons]
      refine ⟨?_, ?_⟩
      · rintro ⟨r, hr, payload, hpayload, stored, hstored, h⟩
        split_ifs at h with heq
        · obtain ⟨tip', hfollow, hcount, htip⟩ := ih.mp h
          rw [← heq] at hstored
          exact ⟨tip', ⟨r, payload, hr, hpayload, hstored, hfollow⟩, by omega, htip⟩
        · simp at h
      · rintro ⟨tip', ⟨r, payload, hr, hpayload, hstored, hfollow⟩, hcount, htip⟩
        refine ⟨r, hr, payload, hpayload, _, hstored, ?_⟩
        rw [if_pos rfl, ih]
        exact ⟨tip', hfollow, by omega, htip⟩

/-! ### Appends and restarts -/

/-- What is done with the chain: an entry is appended, or a new process loads the tip. -/
inductive Op where
  | append (clock : Clock) (entry : Entry)
  | restart

variable (rt json) in
/-- The records that are appended. An append that raises changes nothing; a process that
cannot load its tip is none. -/
def exec : List Op → State → Option (State × List Record)
  | [], s => some (s, [])
  | .append clock entry :: ops, s =>
      match appendToChain rt json clock entry s with
      | none => exec ops s
      | some (r, s) => (exec ops s).map fun (s, rs) => (s, r :: rs)
  | .restart :: ops, s => (load rt json s.chain).bind fun tip => exec ops ⟨s.chain, tip⟩

/-- Numbered records, each of which has the commitment of the one before it as its
previous tip. -/
def Chained : ℕ → Text → List Record → Prop
  | _, _, [] => True
  | n, tip, r :: rs => r.n = n ∧ r.prevTip = tip ∧ Chained (n + 1) r.commitment rs

variable (rt json) in
/-- A process on a verified chain file leaves a verified one: it counts the new records
and ends in the last commitment. -/
def StaysVerifiable (chain : Option Text) (count : ℕ) (tip : Option Text) (ops : List Op) :
    Prop :=
  ∃ s rs, ((load rt json chain).bind fun tip => exec rt json ops ⟨chain, tip⟩) = some (s, rs)
    ∧ verifyChain rt json s.chain
        = some (.ok (count + rs.length) ((rs.getLast?.map Record.commitment).or tip))
    ∧ Chained count (tip.getD (toHex genesis)) rs

variable (rt json) in
/-- The tip in memory is the tip of the file, and only white space stands behind the last
line feed. -/
structure Sound (s : State) : Prop where
  follows : follow rt json genesis (chainLines s.chain) = some s.tip
  blank : (rest (s.chain.getD [])).all jsonSpace = true

variable {s s' : State} {r : Record} {clock : Clock} {entry : Entry}

lemma Sound.load (h : Sound rt json s) : load rt json s.chain = some s.tip := by
  have hfollows := h.follows
  rcases List.eq_nil_or_concat (chainLines s.chain) with hnil | ⟨ls, last, hconcat⟩
  · rw [hnil, follow] at hfollows
    rw [Convergence.load, hnil]
    exact hfollows
  · rw [hconcat, List.concat_eq_append] at hfollows
    obtain ⟨r, hr, hstored⟩ := commitment_of_follow hfollows
    rw [Convergence.load, hconcat]
    simp [hr, hstored]

/-- The verification of a file that is there. -/
lemma Sound.verifyChain (h : Sound rt json s) (hchain : s.chain ≠ none) :
    verifyChain rt json s.chain
      = some (.ok (chainLines s.chain).length (some (toHex s.tip))) := by
  obtain ⟨file, hfile⟩ := Option.ne_none_iff_exists'.mp hchain
  have hfollows := h.follows
  rw [hfile] at hfollows ⊢
  rw [Convergence.verifyChain, verifyLines_eq_ok]
  exact ⟨s.tip, hfollows, (Nat.zero_add _).symm, rfl⟩

/-- A new record comes on a line of its own, and follows. -/
lemma Sound.append (h : Sound rt json s)
    (happend : appendToChain rt json clock entry s = some (r, s')) :
    Sound rt json s' ∧ (chainLines s'.chain).length = (chainLines s.chain).length + 1
      ∧ s'.chain ≠ none ∧ r.n = (chainLines s.chain).length ∧ r.prevTip = toHex s.tip
      ∧ r.commitment = toHex s'.tip := by
  obtain ⟨payload, -, hr, rfl⟩ := appendToChain_eq_some happend
  have hfile : ∃ file, s.chain.getD [] = file ∧ chainLines s.chain = lines file := by
    cases hchain : s.chain with
    | none => exact ⟨[], rfl, lines_nil.symm⟩
    | some file => exact ⟨file, rfl, rfl⟩
  obtain ⟨file, hget, hlines⟩ := hfile
  have hblank : (rest file).all jsonSpace = true := hget ▸ h.blank
  obtain ⟨ls, hold, hnew⟩ := lines_append_record json file r
  rw [lines_of_blank (all_isSpace hblank) (rest_line file), List.append_nil] at hold
  have hchain : chainLines (appendFile s.chain (json.stringify r ++ ['\n']))
      = chainLines s.chain ++ [rest file ++ json.stringify r] := by
    rw [hlines, hold, ← hnew, ← hget]
    rfl
  refine ⟨⟨?_, ?_⟩, by simp [hchain], by simp [appendFile], by rw [hr]; rfl, by rw [hr]; rfl,
    by rw [hr]; rfl⟩
  · rw [hchain, follow_append, h.follows]
    refine follow_cons_eq_some.mpr ⟨r.stored, payload, ?_, ?_, ?_, rfl⟩
    · rw [json.parse_stringify, if_pos hblank]
    · simp [Record.stored, Runtime.buffer, hr, makeRecord]
    · simp [Record.stored, Runtime.buffer, hr, makeRecord]
  · simp [appendFile, rest, ← List.append_assoc]

variable (rt json) in
/-- What appends and restarts leave of a sound chain. -/
structure Grown (s s' : State) (rs : List Record) : Prop where
  sound : Sound rt json s'
  count : (chainLines s'.chain).length = (chainLines s.chain).length + rs.length
  chained : Chained (chainLines s.chain).length (toHex s.tip) rs
  idle : rs = [] → s' = s
  last : ∀ r, rs.getLast? = some r → s'.chain ≠ none ∧ r.commitment = toHex s'.tip

lemma Grown.cons {s₁ : State} {rs : List Record} (h : Sound rt json s)
    (happend : appendToChain rt json clock entry s = some (r, s₁))
    (hgrown : Grown rt json s₁ s' rs) : Grown rt json s s' (r :: rs) := by
  obtain ⟨-, hcount, hchain, hn, hprev, hcommitment⟩ := h.append happend
  refine ⟨hgrown.sound, ?_, ⟨hn, hprev, ?_⟩, by simp, fun last hlast => ?_⟩
  · rw [hgrown.count, hcount, List.length_cons]
    omega
  · rw [hcommitment, ← hcount]
    exact hgrown.chained
  · cases rs with
    | nil =>
        obtain rfl := Option.some.inj hlast
        rw [hgrown.idle rfl]
        exact ⟨hchain, hcommitment⟩
    | cons r' rs =>
        rw [List.getLast?_cons_cons] at hlast
        exact hgrown.last last hlast

/-- Appends and restarts keep the chain sound, and number and link the records. -/
lemma Sound.exec (h : Sound rt json s) (ops : List Op) :
    ∃ s' rs, exec rt json ops s = some (s', rs) ∧ Grown rt json s s' rs := by
  induction ops generalizing s with
  | nil => exact ⟨s, [], rfl, h, rfl, trivial, fun _ => rfl, by simp⟩
  | cons op ops ih =>
      cases op with
      | append clock entry =>
          rw [Convergence.exec]
          cases happend : appendToChain rt json clock entry s with
          | none => exact ih h
          | some p =>
              obtain ⟨r, s₁⟩ := p
              obtain ⟨s', rs, hexec, hgrown⟩ := ih (h.append happend).1
              exact ⟨s', r :: rs, by simp [hexec], hgrown.cons h happend⟩
      | restart =>
          rw [Convergence.exec, h.load]
          exact ih h

/-- A chain that starts sound stays verifiable. -/
lemma Sound.staysVerifiable {chain : Option Text} {count : ℕ} {tip : Option Text}
    {loaded : List UInt8} (h : Sound rt json ⟨chain, loaded⟩)
    (hverify : Convergence.verifyChain rt json chain = some (.ok count tip)) (ops : List Op) :
    StaysVerifiable rt json chain count tip ops := by
  obtain ⟨s, rs, hexec, hgrown⟩ := h.exec ops
  have hload : Convergence.load rt json chain = some loaded := h.load
  have hold : count = (chainLines chain).length ∧ tip.getD (toHex genesis) = toHex loaded := by
    cases chain with
    | none =>
        obtain ⟨rfl, rfl⟩ := Verdict.ok.inj (Option.some.inj hverify)
        obtain rfl := Option.some.inj hload
        exact ⟨rfl, rfl⟩
    | some file =>
        obtain ⟨rfl, rfl⟩ := Verdict.ok.inj
          (Option.some.inj (hverify.symm.trans (h.verifyChain (by simp))))
        exact ⟨rfl, rfl⟩
  refine ⟨s, rs, by rw [hload]; exact hexec, ?_, by rw [hold.1, hold.2]; exact hgrown.chained⟩
  cases hlast : rs.getLast? with
  | none =>
      obtain rfl := List.getLast?_eq_none_iff.mp hlast
      rw [hgrown.idle rfl]
      exact hverify
  | some r =>
      obtain ⟨hchain, hcommitment⟩ := hgrown.last r hlast
      rw [hgrown.sound.verifyChain hchain, hgrown.count, ← hcommitment, ← hold.1]
      rfl

/-- A chain file without its rest has a sound tip if it is verified. -/
lemma sound_of_verifyChain {chain : Option Text} {count : ℕ} {tip : Option Text}
    (hverify : Convergence.verifyChain rt json chain = some (.ok count tip))
    (hblank : (rest (chain.getD [])).all jsonSpace = true) :
    ∃ loaded, Sound rt json ⟨chain, loaded⟩ := by
  cases chain with
  | none => exact ⟨genesis, rfl, hblank⟩
  | some file =>
      obtain ⟨loaded, hfollows, -⟩ := verifyLines_eq_ok.mp hverify
      exact ⟨loaded, hfollows, hblank⟩

/-- An entry without any field. -/
def emptyEntry : Entry := ⟨.undefined, .undefined, .undefined, .undefined, .undefined⟩

variable (rt) in
lemma buildPayload_emptyEntry (clock : Clock) :
    buildPayload rt clock emptyEntry
      = some (payloadBytes rt 0 ((clock.ms : ℤ) * 1000000).toNat []) :=
  buildPayload_of rfl rfl rfl clock.ts_fits

/-- The line of a record is read behind white space only. -/
lemma blank_of_follow {chain : Option Text} {tip tip' : List UInt8}
    (h : follow rt json tip (chainLines (appendFile chain (json.stringify r ++ ['\n'])))
      = some tip') : (rest (chain.getD [])).all jsonSpace = true := by
  obtain ⟨ls, -, hnew⟩ := lines_append_record json (chain.getD []) r
  rw [appendFile, chainLines, hnew] at h
  obtain ⟨r', hparse, -⟩ := commitment_of_follow h
  rw [json.parse_stringify] at hparse
  by_contra hnot
  rw [if_neg hnot] at hparse
  exact Option.some_ne_none _ hparse.symm

/-- Without that, the chain is lost with the next record. -/
lemma blank_of_staysVerifiable {chain : Option Text} {count : ℕ} {tip : Option Text}
    (h : StaysVerifiable rt json chain count tip [.append epoch emptyEntry]) :
    (rest (chain.getD [])).all jsonSpace = true := by
  obtain ⟨s, rs, hrun, hverify, -⟩ := h
  obtain ⟨loaded, -, hexec⟩ := Option.bind_eq_some_iff.mp hrun
  rw [exec, appendToChain_of (buildPayload_emptyEntry rt epoch)] at hexec
  obtain ⟨rfl, -⟩ := Prod.mk.inj (Option.some.inj hexec)
  obtain ⟨tip', hfollow, -⟩ := verifyLines_eq_ok.mp hverify
  exact blank_of_follow hfollow

/-- A verified chain file stays verifiable, whatever is appended by however many
processes, exactly when nothing but white space stands behind its last line feed. -/
theorem stays_verifiable_iff {chain : Option Text} {count : ℕ} {tip : Option Text}
    (hverify : Convergence.verifyChain rt json chain = some (.ok count tip)) :
    (∀ ops, StaysVerifiable rt json chain count tip ops)
      ↔ (rest (chain.getD [])).all jsonSpace = true := by
  refine ⟨fun h => blank_of_staysVerifiable (h _), fun hblank ops => ?_⟩
  obtain ⟨loaded, hsound⟩ := sound_of_verifyChain hverify hblank
  exact hsound.staysVerifiable hverify ops

/-- A verified chain of one record, to which an attack is appended before the next start. -/
theorem stays_verifiable_linked :
    exec sampleRuntime sampleJson [.append epoch lateAttack, .restart]
        ⟨fileOf sampleJson [solvedRecord], fromHex solvedRecord.commitment⟩
      = some (⟨fileOf sampleJson [solvedRecord, attackRecord], fromHex attackRecord.commitment⟩,
          [attackRecord])
      ∧ verifyChain sampleRuntime sampleJson (fileOf sampleJson [solvedRecord, attackRecord])
        = some (.ok 2 (some attackRecord.commitment)) := by
  have hlines : lines (sampleJson.stringify solvedRecord ++ ['\n'])
      = [sampleJson.stringify solvedRecord] := by
    rw [lines_feed, lines_nil, List.append_nil, lines_stringify]
  have hfollow : follow sampleRuntime sampleJson genesis [sampleJson.stringify solvedRecord]
      = some (fromHex solvedRecord.commitment) :=
    follow_cons_eq_some.mpr ⟨solvedRecord.stored, fromHex solvedRecord.payload,
      parse_record solvedRecord, rfl, congrArg some circuit_solvedRecord.symm,
      congrArg some circuit_solvedRecord⟩
  have hverify : verifyChain sampleRuntime sampleJson (fileOf sampleJson [solvedRecord])
      = some (.ok 1 (some solvedRecord.commitment)) := by
    have hfile : fileOf sampleJson [solvedRecord]
        = some (sampleJson.stringify solvedRecord ++ ['\n']) := by simp [fileOf]
    rw [hfile, verifyChain, hlines, verifyLines_eq_ok]
    exact ⟨_, hfollow, rfl, by decide +kernel⟩
  have hload : load sampleRuntime sampleJson (fileOf sampleJson [solvedRecord])
      = some (fromHex solvedRecord.commitment) := load_fileOf [] solvedRecord
  have hload' : load sampleRuntime sampleJson (fileOf sampleJson [solvedRecord, attackRecord])
      = some (fromHex attackRecord.commitment) := load_fileOf [solvedRecord] attackRecord
  have hexec : exec sampleRuntime sampleJson [.append epoch lateAttack, .restart]
      ⟨fileOf sampleJson [solvedRecord], fromHex solvedRecord.commitment⟩
      = some (⟨fileOf sampleJson [solvedRecord, attackRecord], fromHex attackRecord.commitment⟩,
          [attackRecord]) := by
    simp only [exec, append_lateAttack, hload', Option.bind_some, Option.map_some]
  obtain ⟨s, rs, hrun, hchain, -⟩ := (stays_verifiable_iff hverify).mpr
    (by simp [fileOf, rest]) [.append epoch lateAttack, .restart]
  rw [hload, Option.bind_some, hexec] at hrun
  obtain ⟨rfl, rfl⟩ := Prod.mk.inj (Option.some.inj hrun)
  exact ⟨hexec, hchain⟩

/-- The first record of a chain. -/
def firstRecord : Record :=
  makeRecord epoch emptyEntry (payloadBytes sampleRuntime 0 0 []) ⟨none, genesis⟩

lemma follow_firstRecord (json : Json) :
    follow sampleRuntime json genesis [json.stringify firstRecord]
      = some (circuit genesis (payloadBytes sampleRuntime 0 0 [])) := by
  refine follow_cons_eq_some.mpr
    ⟨_, payloadBytes sampleRuntime 0 0 [], parse_record firstRecord, ?_, ?_, rfl⟩
  · simp [Record.stored, Runtime.buffer, firstRecord, makeRecord]
  · simp [Record.stored, Runtime.buffer, firstRecord, makeRecord]

/-- A record that was written without its line feed. The next one comes on its line. -/
theorem torn_record_lost :
    ¬ ∃ json : Json, ∀ chain count tip,
      verifyChain sampleRuntime json chain = some (.ok count tip) →
        ∀ ops, StaysVerifiable sampleRuntime json chain count tip ops := by
  rintro ⟨json, hall⟩
  have hverify : verifyChain sampleRuntime json (some (json.stringify firstRecord))
      = some (.ok 1 (some (toHex (circuit genesis (payloadBytes sampleRuntime 0 0 []))))) := by
    rw [verifyChain, lines_stringify, verifyLines_eq_ok]
    exact ⟨_, follow_firstRecord json, rfl, rfl⟩
  have hblank := blank_of_staysVerifiable (hall _ _ _ hverify [.append epoch emptyEntry])
  -- the rest of the file is the record
  have hrest : rest (json.stringify firstRecord) = json.stringify firstRecord :=
    unfinished_of_not fun c hc => by
      simpa using fun h : c = '\n' => json.oneLine firstRecord (h ▸ hc)
  rw [Option.getD_some, hrest] at hblank
  exact absurd (all_isSpace hblank) (by simpa using stringify_not_blank json [] firstRecord)

end Convergence

end SovereignBus
