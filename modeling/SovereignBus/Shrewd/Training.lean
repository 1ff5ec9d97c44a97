import SovereignBus.Library.Checked

/-!
The training windows that `seb/runtime/shrewd/shrew_train_onnx.py` cuts from a log.

* `extractFeatures`, `loadWormLog`: the functions of the source, which may raise.
* `Covered`: one sample for every start on the stride whose window fits, each of a whole window
  and with a most frequent verdict of its last entries as its label. `covered_iff` says for
  which lengths of the log this holds.
-/

namespace SovereignBus

namespace Shrewd

namespace Training

/-- The exceptions that end a function. -/
inductive Raised where
  | keyError
  | overflowError
  | valueError

/-- The keys of an entry that are read. A key may be absent. -/
structure Entry where
  tick : Option ℤ
  ts : Option ℤ
  verdict : Option String
  proofHash : Option String
  agentKey : Option String
  op : Option String
  shrewSeal : Option String

/-- `VERDICT_ENC`. -/
def verdictEnc : String → Option ℕ
  | "SKER_PROVEN" => some 0
  | "SKER_SHREWD" => some 1
  | "SKER_CAUSAL" => some 2
  | "SKER_NOISE" => some 3
  | _ => none

/-- `SOVEREIGN_AGENTS`. -/
def sovereignAgents : List String :=
  ["cipher", "veil", "vault", "ledger", "sentinel", "ward", "atlas", "dawn",
    "ledge", "mnemex", "oracle", "mira", "axiom", "prism", "herald", "lyra",
    "flux", "storm", "phantom", "shade", "nexus", "bridge", "forge", "ember",
    "nova", "echo", "ahmad", "edaulc", "lens", "stalas", "loc", "shrew"]

/-- `VERDICT_ENC.get(e.get("verdict", "SKER_NOISE"), 3)`. -/
def Entry.enc (e : Entry) : ℕ := (verdictEnc (e.verdict.getD "SKER_NOISE")).getD 3

lemma verdictEnc_lt {s : String} {v : ℕ} (h : verdictEnc s = some v) : v < 4 := by
  rw [verdictEnc.eq_def] at h
  split at h <;> simp at h <;> omega

lemma Entry.enc_lt (e : Entry) : e.enc < 4 := by
  rw [Entry.enc]
  cases h : verdictEnc (e.verdict.getD "SKER_NOISE") with
  | none => exact Nat.lt_succ_self 3
  | some v => exact verdictEnc_lt h

/-! ### The features of a window -/

section Features

variable (sha256 : List UInt8 → List UInt8) (int16 : List Char → Option ℤ)

/-- The first four hexadecimal digits of a digest, as a number. -/
def hash16 (s : String) : ℕ :=
  ((sha256 s.toUTF8.toList).take 2).foldl (fun n b => 256 * n + b.toNat) 0

/-- An integer that is divided by a float becomes a float first. -/
def toFloat (n : ℤ) : Except Raised Float :=
  if n.natAbs < 2 ^ 1024 - 2 ^ 970 then .ok (.ofInt n) else .error .overflowError

/-- `e["tick"]`. -/
def Entry.getTick (e : Entry) : Except Raised ℤ :=
  match e.tick with
  | some tick => .ok tick
  | none => .error .keyError

/-- `s_ent`, where `int16` reads a number to the base 16. -/
def sealEntropy (e : Entry) : Except Raised Float :=
  let digits := (e.shrewSeal.getD "00").toList
  if 2 ≤ digits.length then
    match int16 (digits.take 2) with
    | some n => .ok (.ofInt n / 255)
    | none => .error .valueError
  else .ok 0

/-- The features of an entry. -/
def Entry.features (e : Entry) (delta entropy : Float) : List Float :=
  [.ofNat e.enc / 3,
    if e.proofHash.getD "" = "" then 0 else 1,
    .ofNat (hash16 sha256 (e.agentKey.getD "")) / 65535,
    if 1 < delta then 1 else delta,
    .ofInt (e.ts.getD 0 / 3600000 % 24) / 24,
    .ofNat (hash16 sha256 (e.op.getD "")) / 65535,
    if e.agentKey.getD "" ∈ sovereignAgents then 1 else 0,
    entropy]

/-- The loop of `extract_features`. -/
def featuresFrom (prevTick : ℤ) : List Entry → Except Raised (List (List Float))
  | [] => .ok []
  | e :: entries => do
      let tick ← e.getTick
      let delta ← toFloat (tick - prevTick)
      let entropy ← sealEntropy int16 e
      let features ← featuresFrom tick entries
      return e.features sha256 (delta / 1000) entropy :: features

/-- `extract_features`. -/
def extractFeatures : List Entry → Except Raised (List (List Float))
  | [] => .ok []
  | e :: entries => do
      let prevTick ← e.getTick
      featuresFrom sha256 int16 prevTick (e :: entries)

/-! ### The windows of a log -/

/-- `counts`. -/
def counts (entries : List Entry) (v : ℕ) : ℕ := entries.countP fun e => e.enc = v

/-- `window[-100:]`. -/
def last100 (window : List Entry) : List Entry := window.drop (window.length - 100)

/-- `max(counts, key=counts.get)`, which returns the first of several maxima. -/
def label (window : List Entry) : ℕ :=
  ([0, 1, 2, 3].argmax (counts (last100 window))).getD 0

/-- `range(0, stop, step)`. -/
def range (stop step : ℕ) : Except Raised (List ℕ) :=
  if step = 0 then .error .valueError
  else .ok (List.range' 0 ((stop + step - 1) / step) step)

/-- `entries[start:start + window_size]`. -/
def windowAt (entries : List Entry) (windowSize start : ℕ) : List Entry :=
  (entries.drop start).take windowSize

/-- The body of the loop of `load_worm_log`. -/
def sample (entries : List Entry) (windowSize start : ℕ) :
    Except Raised (List (List Float) × ℕ) := do
  let window := windowAt entries windowSize start
  let feats ← extractFeatures sha256 int16 window
  return (feats, label window)

/-- The entries of a log: a line that cannot be decoded is left out. -/
def entriesOf (loads : String → Option Entry) (lines : List String) : List Entry :=
  lines.filterMap loads

/-- `load_worm_log`, of the lines of the file. -/
def loadWormLog (loads : String → Option Entry) (lines : List String) (windowSize : ℕ) :
    Except Raised (Option (List (List (List Float)) × List ℕ)) := do
  let entries := entriesOf loads lines
  if entries.length < windowSize then return none
  let starts ← range (entries.length - windowSize) (windowSize / 4)
  let samples ← starts.mapM (sample sha256 int16 entries windowSize)
  return some (samples.map Prod.fst, samples.map Prod.snd)

/-! ### Decodable entries -/

/-- A float can represent how far the tick of an entry is from the tick of the one before. -/
def Entry.Follows (d e : Entry) : Prop :=
  ∀ tick ∈ d.tick, ∀ tick' ∈ e.tick, (tick' - tick).natAbs < 2 ^ 1024 - 2 ^ 970

/-- The entries have ticks, not too far from each other, and hexadecimal digits in their
seals. -/
structure Decodable (entries : List Entry) : Prop where
  tick : ∀ e ∈ entries, ∃ tick, e.tick = some tick
  follows : entries.IsChain Entry.Follows
  entropy : ∀ e ∈ entries, ∃ entropy, sealEntropy int16 e = .ok entropy

variable {sha256 int16}

lemma Decodable.within {entries entries' : List Entry} (h : Decodable int16 entries)
    (hsub : entries' <:+: entries) : Decodable int16 entries' where
  tick e he := h.tick e (hsub.mem he)
  follows := List.IsChain.infix h.follows hsub
  entropy e he := h.entropy e (hsub.mem he)

lemma Entry.follows_self (e : Entry) : e.Follows e := by
  intro tick htick tick' htick'
  obtain rfl : tick = tick' := Option.mem_unique htick htick'
  rw [sub_self, Int.natAbs_zero]
  have hlt : (2 : ℕ) ^ 970 < 2 ^ 1024 := pow_lt_pow_right₀ one_lt_two (by norm_num)
  exact Nat.sub_pos_of_lt hlt

/-- The loop of decodable entries raises nothing behind an entry. -/
lemma featuresFrom_ok (entries : List Entry) :
    ∀ (d : Entry) (prevTick : ℤ), d.tick = some prevTick → Decodable int16 (d :: entries) →
      ∃ features, featuresFrom sha256 int16 prevTick entries = .ok features := by
  induction entries with
  | nil => exact fun _ _ _ _ => ⟨[], rfl⟩
  | cons e entries ih =>
      intro d prevTick hprev hdec
      have htail : Decodable int16 (e :: entries) := hdec.within (List.suffix_cons _ _).isInfix
      obtain ⟨tick, htick⟩ := htail.tick e List.mem_cons_self
      obtain ⟨entropy, hentropy⟩ := htail.entropy e List.mem_cons_self
      obtain ⟨features, hfeatures⟩ := ih e tick htick htail
      have hdelta : toFloat (tick - prevTick) = .ok (.ofInt (tick - prevTick)) :=
        if_pos ((List.isChain_cons_cons.mp hdec.follows).1 prevTick hprev tick htick)
      refine ⟨e.features sha256 (.ofInt (tick - prevTick) / 1000) entropy :: features, ?_⟩
      rw [featuresFrom, Entry.getTick, htick]
      simp only [bind, Except.bind, hdelta, hentropy, hfeatures]
      rfl

/-- Decodable entries have features. -/
lemma extractFeatures_ok {entries : List Entry} (hdec : Decodable int16 entries) :
    ∃ features, extractFeatures sha256 int16 entries = .ok features := by
  cases entries with
  | nil => exact ⟨[], rfl⟩
  | cons e entries =>
      obtain ⟨tick, htick⟩ := hdec.tick e List.mem_cons_self
      -- the first entry is compared with itself
      have hself : Decodable int16 (e :: e :: entries) :=
        ⟨fun d hd => hdec.tick d (by simpa using hd),
          List.isChain_cons_cons.mpr ⟨e.follows_self, hdec.follows⟩,
          fun d hd => hdec.entropy d (by simpa using hd)⟩
      obtain ⟨features, hfeatures⟩ := featuresFrom_ok (e :: entries) e tick htick hself
      refine ⟨features, ?_⟩
      rw [extractFeatures, Entry.getTick, htick]
      exact hfeatures

/-! ### Starts of windows -/

/-- The starts on the stride whose windows fit. -/
def coveredStarts (n windowSize : ℕ) : List ℕ :=
  (List.range (n + 1)).filter fun start => windowSize / 4 ∣ start ∧ start + windowSize ≤ n

lemma mem_coveredStarts {n windowSize start : ℕ} :
    start ∈ coveredStarts n windowSize ↔ windowSize / 4 ∣ start ∧ start + windowSize ≤ n := by
  rw [coveredStarts, List.mem_filter, List.mem_range, decide_eq_true_iff]
  omega

/-- A range stops before its end. -/
lemma mem_range' {stop step start : ℕ} (hstep : 0 < step) :
    start ∈ List.range' 0 ((stop + step - 1) / step) step ↔ step ∣ start ∧ start < stop := by
  have hlt (i : ℕ) : i < (stop + step - 1) / step ↔ step * i < stop := by
    rw [Nat.lt_iff_add_one_le, Nat.le_div_iff_mul_le hstep, Nat.succ_mul, Nat.mul_comm]
    omega
  simp only [List.mem_range', zero_add, hlt]
  constructor
  · rintro ⟨i, hi, rfl⟩
    exact ⟨dvd_mul_right step i, hi⟩
  · rintro ⟨⟨i, rfl⟩, hi⟩
    exact ⟨i, hi, rfl⟩

/-- The starts of the loop of `load_worm_log`. -/
lemma range_eq {stop step : ℕ} (hstep : 0 < step) :
    ∃ starts, range stop step = .ok starts ∧ starts.Pairwise (· < ·)
      ∧ ∀ start, start ∈ starts ↔ step ∣ start ∧ start < stop := by
  refine ⟨_, if_neg hstep.ne', List.pairwise_lt_range' _ hstep, fun start => ?_⟩
  exact mem_range' hstep

lemma pairwise_coveredStarts (n windowSize : ℕ) :
    (coveredStarts n windowSize).Pairwise (· < ·) := List.pairwise_lt_range.filter _

/-- The starts of the loop are those that fit, unless the last one is the end of the range. -/
lemma eq_coveredStarts {n windowSize : ℕ} {starts : List ℕ} (hn : windowSize ≤ n)
    (hsorted : starts.Pairwise (· < ·))
    (hmem : ∀ start, start ∈ starts ↔ windowSize / 4 ∣ start ∧ start < n - windowSize)
    (hdvd : ¬windowSize / 4 ∣ n - windowSize) : starts = coveredStarts n windowSize := by
  refine hsorted.eq_of_mem_iff (pairwise_coveredStarts n windowSize) fun start => ?_
  rw [hmem, mem_coveredStarts]
  refine and_congr_right fun hd => ⟨fun hlt => by omega, fun hle => ?_⟩
  have hne : start ≠ n - windowSize := fun h => hdvd (h ▸ hd)
  omega

/-- The end of the range is a start that fits, and the loop leaves it out. -/
lemma append_eq_coveredStarts {n windowSize : ℕ} {starts : List ℕ} (hn : windowSize ≤ n)
    (hsorted : starts.Pairwise (· < ·))
    (hmem : ∀ start, start ∈ starts ↔ windowSize / 4 ∣ start ∧ start < n - windowSize)
    (hdvd : windowSize / 4 ∣ n - windowSize) :
    starts ++ [n - windowSize] = coveredStarts n windowSize := by
  have happend : (starts ++ [n - windowSize]).Pairwise (· < ·) := by
    refine List.pairwise_append.mpr ⟨hsorted, List.pairwise_singleton _ _, fun a ha b hb => ?_⟩
    rw [List.mem_singleton.mp hb]
    exact ((hmem a).mp ha).2
  refine happend.eq_of_mem_iff (pairwise_coveredStarts n windowSize) fun start => ?_
  rw [List.mem_append, List.mem_singleton, hmem, mem_coveredStarts]
  constructor
  · rintro (⟨hd, hlt⟩ | rfl)
    · exact ⟨hd, by omega⟩
    · exact ⟨hdvd, by omega⟩
  · rintro ⟨hd, hle⟩
    rcases eq_or_lt_of_le (show start ≤ n - windowSize by omega) with heq | hlt
    · exact Or.inr heq
    · exact Or.inl ⟨hd, hlt⟩

/-! ### Labels and samples -/

/-- No verdict is more frequent among the last entries of the window. -/
def MostFrequent (v : ℕ) (window : List Entry) : Prop :=
  v < 4 ∧ ∀ v', counts (last100 window) v' ≤ counts (last100 window) v

lemma counts_eq_zero (entries : List Entry) {v : ℕ} (hv : 4 ≤ v) : counts entries v = 0 := by
  rw [counts, List.countP_eq_zero]
  intro e _ henc
  have hlt := e.enc_lt
  rw [decide_eq_true_eq] at henc
  omega

lemma mostFrequent_label (window : List Entry) : MostFrequent (label window) window := by
  cases hmax : [0, 1, 2, 3].argmax (counts (last100 window)) with
  | none => exact absurd (List.argmax_eq_none.mp hmax) (List.cons_ne_nil _ _)
  | some v =>
      obtain ⟨hv, hle, -⟩ := List.argmax_eq_some_iff.mp hmax
      rw [label, hmax, Option.getD_some]
      refine ⟨by simp at hv; omega, fun v' => ?_⟩
      by_cases hv' : v' < 4
      · exact hle v' (by simp; omega)
      · rw [counts_eq_zero _ (not_lt.mp hv')]
        exact Nat.zero_le _

variable (sha256 int16) in
/-- A sample is built of a whole window. -/
structure SampleAt (entries : List Entry) (windowSize start : ℕ)
    (s : List (List Float) × ℕ) : Prop where
  length : (windowAt entries windowSize start).length = windowSize
  features : extractFeatures sha256 int16 (windowAt entries windowSize start) = .ok s.1
  label : MostFrequent s.2 (windowAt entries windowSize start)

lemma length_windowAt {entries : List Entry} {windowSize start : ℕ}
    (h : start + windowSize ≤ entries.length) :
    (windowAt entries windowSize start).length = windowSize := by
  rw [windowAt, List.length_take, List.length_drop]
  omega

lemma windowAt_within (entries : List Entry) (windowSize start : ℕ) :
    windowAt entries windowSize start <:+: entries :=
  (List.take_prefix _ _).isInfix.trans (List.drop_suffix _ _).isInfix

lemma sample_ok {entries : List Entry} (hdec : Decodable int16 entries)
    {windowSize start : ℕ} (h : start + windowSize ≤ entries.length) :
    ∃ s, sample sha256 int16 entries windowSize start = .ok s
      ∧ SampleAt sha256 int16 entries windowSize start s := by
  obtain ⟨feats, hfeats⟩ :=
    @extractFeatures_ok sha256 int16 _ (hdec.within (windowAt_within entries windowSize start))
  refine ⟨(feats, label (windowAt entries windowSize start)), ?_,
    length_windowAt h, hfeats, mostFrequent_label _⟩
  rw [sample, hfeats]
  rfl

variable (sha256 int16) in
/-- There is a sample, and one for every start on the stride whose window fits, in order. -/
def Covered (loads : String → Option Entry) (lines : List String) (windowSize : ℕ) : Prop :=
  ∃ samples : List (List (List Float) × ℕ),
    loadWormLog sha256 int16 loads lines windowSize
      = .ok (some (samples.map Prod.fst, samples.map Prod.snd))
    ∧ samples ≠ []
    ∧ List.Forall₂ (SampleAt sha256 int16 (entriesOf loads lines) windowSize)
        (coveredStarts (entriesOf loads lines).length windowSize) samples

section Covered

variable {loads : String → Option Entry} {lines : List String} {windowSize : ℕ}

lemma loadWormLog_eq {starts : List ℕ} (hn : windowSize ≤ (entriesOf loads lines).length)
    (hrange : range ((entriesOf loads lines).length - windowSize) (windowSize / 4) = .ok starts) :
    loadWormLog sha256 int16 loads lines windowSize
      = (starts.mapM (sample sha256 int16 (entriesOf loads lines) windowSize)).map
          fun samples => some (samples.map Prod.fst, samples.map Prod.snd) := by
  simp only [loadWormLog, if_neg (not_lt.mpr hn), hrange]
  rfl

/-- A start whose window ends the log is left out. -/
lemma not_covered_of_dvd (h4 : 4 ≤ windowSize) (hn : windowSize ≤ (entriesOf loads lines).length)
    (hdvd : windowSize / 4 ∣ (entriesOf loads lines).length - windowSize) :
    ¬Covered sha256 int16 loads lines windowSize := by
  obtain ⟨starts, hrange, hsorted, hmem⟩ :=
    @range_eq ((entriesOf loads lines).length - windowSize) _ (Nat.div_pos h4 four_pos)
  rintro ⟨samples, hload, -, hall⟩
  rw [loadWormLog_eq hn hrange] at hload
  cases hloop : starts.mapM (sample sha256 int16 (entriesOf loads lines) windowSize) with
  | error e =>
      rw [hloop] at hload
      cases hload
  | ok samples' =>
      rw [hloop] at hload
      have hfst : samples'.map Prod.fst = samples.map Prod.fst :=
        (Prod.mk.inj (Option.some.inj (Except.ok.inj hload))).1
      have hsame : samples'.length = samples.length := by
        simpa only [List.length_map] using congrArg List.length hfst
      have hlen := (Checked.mapM_eq_ok hloop).length_eq
      have hcovered := hall.length_eq
      rw [← append_eq_coveredStarts hn hsorted hmem hdvd, List.length_append,
        List.length_singleton] at hcovered
      omega

/-- The samples of a log of decodable entries cover it exactly if its last window does not start
on the stride. -/
theorem covered_iff (h4 : 4 ≤ windowSize) (hn : windowSize ≤ (entriesOf loads lines).length)
    (hdec : Decodable int16 (entriesOf loads lines)) :
    Covered sha256 int16 loads lines windowSize
      ↔ ¬windowSize / 4 ∣ (entriesOf loads lines).length - windowSize := by
  refine ⟨fun hc hdvd => not_covered_of_dvd h4 hn hdvd hc, fun hdvd => ?_⟩
  obtain ⟨samples, hsamples, hall⟩ := Checked.mapM_ok fun start hstart =>
    @sample_ok sha256 int16 _ hdec windowSize start (mem_coveredStarts.mp hstart).2
  obtain ⟨starts, hrange, hsorted, hmem⟩ :=
    @range_eq ((entriesOf loads lines).length - windowSize) _ (Nat.div_pos h4 four_pos)
  refine ⟨samples, ?_, ?_, hall⟩
  · rw [loadWormLog_eq hn hrange, eq_coveredStarts hn hsorted hmem hdvd, hsamples]
    rfl
  · have hzero : 0 ∈ coveredStarts (entriesOf loads lines).length windowSize :=
      mem_coveredStarts.mpr ⟨dvd_zero _, by rwa [zero_add]⟩
    rintro rfl
    rw [List.forall₂_nil_right_iff.mp hall] at hzero
    exact List.not_mem_nil hzero

end Covered

end Features

/-! ### Logs of one entry -/

/-- The digest of the empty text. -/
def emptyDigest : List UInt8 :=
  [0xe3, 0xb0, 0xc4, 0x42, 0x98, 0xfc, 0x1c, 0x14, 0x9a, 0xfb, 0xf4, 0xc8, 0x99, 0x6f, 0xb9, 0x24,
    0x27, 0xae, 0x41, 0xe4, 0x64, 0x9b, 0x93, 0x4c, 0xa4, 0x95, 0x99, 0x1b, 0x78, 0x52, 0xb8, 0x55]

/-- The digits of an absent seal, read to the base 16. -/
def int16Zero (digits : List Char) : Option ℤ := if digits = ['0', '0'] then some 0 else none

def tickEntry : Entry where
  tick := some 7
  ts := none
  verdict := none
  proofHash := none
  agentKey := none
  op := none
  shrewSeal := none

/-- The text of `tickEntry`. -/
def tickLine : String := "\x7b\"tick\":7\x7d"

def loadsTick (line : String) : Option Entry := if line = tickLine then some tickEntry else none

lemma loadsTick_tickLine : loadsTick tickLine = some tickEntry := if_pos rfl

lemma entriesOf_replicate (n : ℕ) :
    entriesOf loadsTick (List.replicate n tickLine) = List.replicate n tickEntry := by
  induction n with
  | zero => rfl
  | succ n ih =>
      rw [List.replicate_succ, List.replicate_succ, ← ih, entriesOf,
        List.filterMap_cons_some loadsTick_tickLine, entriesOf]

lemma decodable_replicate (n : ℕ) :
    Decodable int16Zero (entriesOf loadsTick (List.replicate n tickLine)) := by
  have hzero : sealEntropy int16Zero tickEntry = .ok (.ofInt 0 / 255) := by
    simp [sealEntropy, tickEntry, int16Zero]
  rw [entriesOf_replicate]
  refine ⟨fun e he => ?_, List.isChain_replicate_of_rel n tickEntry.follows_self, fun e he => ?_⟩
  · exact ⟨7, by rw [List.eq_of_mem_replicate he]; rfl⟩
  · exact ⟨_, by rw [List.eq_of_mem_replicate he]; exact hzero⟩

/-- Nine entries are covered by windows of eight. -/
theorem covered_nine :
    Covered (fun _ => emptyDigest) int16Zero loadsTick (List.replicate 9 tickLine) 8 := by
  have hlen : (entriesOf loadsTick (List.replicate 9 tickLine)).length = 9 := by
    rw [entriesOf_replicate, List.length_replicate]
  refine (covered_iff (by norm_num) (by omega) (decodable_replicate 9)).mpr ?_
  rw [hlen]
  decide

/-- Eight entries are not: there is no sample. -/
theorem not_covered_eight :
    (entriesOf loadsTick (List.replicate 8 tickLine)).length = 8
      ∧ Decodable int16Zero (entriesOf loadsTick (List.replicate 8 tickLine))
      ∧ loadWormLog (fun _ => emptyDigest) int16Zero loadsTick (List.replicate 8 tickLine) 8
        = .ok (some ([], []))
      ∧ ¬Covered (fun _ => emptyDigest) int16Zero loadsTick (List.replicate 8 tickLine) 8 := by
  have hlen : (entriesOf loadsTick (List.replicate 8 tickLine)).length = 8 := by
    rw [entriesOf_replicate, List.length_replicate]
  refine ⟨hlen, decodable_replicate 8, ?_, not_covered_of_dvd (by norm_num) hlen.ge ?_⟩
  · rw [@loadWormLog_eq _ _ _ _ 8 [] hlen.ge (by rw [hlen]; rfl)]
    rfl
  · rw [hlen]
    decide

end Training

end Shrewd

end SovereignBus
