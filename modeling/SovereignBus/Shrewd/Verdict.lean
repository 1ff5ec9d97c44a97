import Mathlib

/-!
The rule-based verdict of `seb/runtime/shrewd/shrewd_rtx.rs`, in exact arithmetic.

* `prepareFeatures`, `ruleBasedPredict`, `predict`, `toGovernanceCommand`: the functions of the
  source. `prepareFeatures_eq` says what the padding leaves.
* `MostFrequent`: no verdict is more frequent among the ticks.
* `Majority`: the verdict of a window is a most frequent one among its last ticks, and the
  command that lowers the threshold is given for sustained proofs only. `majority_iff` says of
  which windows this holds.
-/

namespace SovereignBus

namespace Shrewd

/-- `Verdict`. -/
inductive Verdict where
  | skerProven
  | skerShrewd
  | skerCausal
  | skerNoise
  deriving DecidableEq

/-- `Verdict::from_idx`. -/
def Verdict.fromIdx : ℕ → Verdict
  | 0 => .skerProven
  | 1 => .skerShrewd
  | 2 => .skerCausal
  | _ => .skerNoise

/-- The number that encodes a verdict. -/
def Verdict.enc : Verdict → Fin 4
  | .skerProven => 0
  | .skerShrewd => 1
  | .skerCausal => 2
  | .skerNoise => 3

structure TickFeatures where
  verdictEnc : ℚ
  hasProof : ℚ
  agentHash : ℚ
  tickDelta : ℚ
  tsHour : ℚ
  opHash : ℚ
  isSovereign : ℚ
  sealEntropy : ℚ

/-- `to_array`. -/
def TickFeatures.toArray (f : TickFeatures) : Fin 8 → ℚ :=
  ![f.verdictEnc, f.hasProof, f.agentHash, f.tickDelta, f.tsHour, f.opHash, f.isSovereign,
    f.sealEntropy]

@[simp] lemma TickFeatures.toArray_zero (f : TickFeatures) : f.toArray 0 = f.verdictEnc := rfl

/-! ### The engine -/

structure ShrewdRtxEngine where
  /-- The path of the model. -/
  onnxSession : Option String
  cudaAvailable : Bool
  windowSize : ℕ

/-- `new`. -/
def ShrewdRtxEngine.new (modelPath : Option String) (pathExists : String → Bool)
    (detectCuda : Bool) : ShrewdRtxEngine where
  onnxSession := modelPath.filter pathExists
  cudaAvailable := detectCuda
  windowSize := 1000

structure ShrewdPrediction where
  verdict : Verdict
  confidence : ℚ
  probs : Fin 4 → ℚ
  backend : String
  cuda : Bool

/-- `prepare_features`. -/
def ShrewdRtxEngine.prepareFeatures (engine : ShrewdRtxEngine) (window : List TickFeatures) :
    List (Fin 8 → ℚ) :=
  let out := List.replicate engine.windowSize 0
  let start :=
    if engine.windowSize ≤ window.length then window.length - engine.windowSize else 0
  let src := window.drop start
  let offset := engine.windowSize - src.length
  src.zipIdx.foldl (fun out f => out.set (offset + f.2) f.1.toArray) out

/-- `(f[0] * 3.0).round() as usize`, capped. A negative number becomes 0. -/
def verdictIdx (f : Fin 8 → ℚ) : Fin 4 := ⟨min (round (f 0 * 3)).toNat 3, by omega⟩

lemma val_verdictIdx (f : Fin 8 → ℚ) :
    (verdictIdx f : ℕ) = min (round (f 0 * 3)).toNat 3 := rfl

/-- `counts`. -/
def countVerdicts (features : List (Fin 8 → ℚ)) : Fin 4 → ℕ :=
  features.foldl
    (fun counts f => Function.update counts (verdictIdx f) (counts (verdictIdx f) + 1)) 0

/-- `max_by` on `enumerate`, which returns the last of several maxima. -/
def bestIdx (probs : Fin 4 → ℚ) : Fin 4 := ((List.finRange 4).reverse.argmax probs).getD 3

/-- `rule_based_predict`. -/
def ShrewdRtxEngine.ruleBasedPredict (engine : ShrewdRtxEngine) (features : List (Fin 8 → ℚ)) :
    ShrewdPrediction :=
  let counts := countVerdicts features
  let total : ℚ := features.length
  let probs := fun i => counts i / total
  { verdict := .fromIdx (bestIdx probs)
    confidence := probs (bestIdx probs)
    probs := probs
    backend := if engine.onnxSession.isSome then "onnx" else "rule_based"
    cuda := engine.cudaAvailable }

/-- `onnx_predict`, which falls through to the rules. -/
def ShrewdRtxEngine.onnxPredict (engine : ShrewdRtxEngine) (features : List (Fin 8 → ℚ))
    (_session : String) : ShrewdPrediction :=
  engine.ruleBasedPredict features

/-- `predict`. -/
def ShrewdRtxEngine.predict (engine : ShrewdRtxEngine) (window : List TickFeatures) :
    ShrewdPrediction :=
  let features := engine.prepareFeatures window
  match engine.onnxSession with
  | some session => engine.onnxPredict features session
  | none => engine.ruleBasedPredict features

structure GovernanceCommand where
  command : String
  target : Option ℚ
  scope : String
  rationale : String
  expiresTicks : ℕ

/-- `to_governance_command`. -/
def ShrewdPrediction.toGovernanceCommand (p : ShrewdPrediction) (dominantAgent : String) :
    GovernanceCommand :=
  if p.verdict = .skerProven ∧ p.confidence > 4 / 5 then
    { command := "LOWER_SHREWD_THRESHOLD"
      target := some (4 / 5)
      scope := dominantAgent
      rationale := "sustained high-confidence proven verdicts"
      expiresTicks := 100 }
  else if p.verdict = .skerNoise then
    { command := "RAISE_ZERO_TRUST"
      target := some 1
      scope := "all"
      rationale := "noise rate rising — elevate scrutiny"
      expiresTicks := 50 }
  else
    { command := "MAINTAIN_POLICY"
      target := none
      scope := dominantAgent
      rationale := "window stable"
      expiresTicks := 500 }

/-- The body of the loop of `run_shrewd_rtx`: the command that is published. -/
def ShrewdRtxEngine.run (engine : ShrewdRtxEngine) (window : List TickFeatures) :
    Option GovernanceCommand :=
  if window.length < 10 then none
  else some ((engine.predict window).toGovernanceCommand "unknown")

/-! ### Verdicts of ticks -/

/-- The ticks with a verdict. -/
def ticksOf (v : Verdict) (ticks : List TickFeatures) : ℕ :=
  ticks.countP fun t => t.verdictEnc = ((v.enc : ℕ) : ℚ) / 3

/-- No verdict is more frequent. -/
def MostFrequent (v : Verdict) (ticks : List TickFeatures) : Prop :=
  ∀ v', ticksOf v' ticks ≤ ticksOf v ticks

/-- The ticks that the engine looks at. -/
def lastTicks (window : List TickFeatures) : List TickFeatures :=
  window.drop (window.length - 1000)

/-- The verdict of the window is a most frequent one, and the threshold is lowered only if more
than 80 percent of the ticks are proven. -/
structure Majority (engine : ShrewdRtxEngine) (window : List TickFeatures) : Prop where
  verdict : MostFrequent (engine.predict window).verdict (lastTicks window)
  lower : ∀ agent, ((engine.predict window).toGovernanceCommand agent).command
      = "LOWER_SHREWD_THRESHOLD" →
    80 * (lastTicks window).length < 100 * ticksOf .skerProven (lastTicks window)

/-- The verdicts are exact. -/
def Encoded (window : List TickFeatures) : Prop :=
  ∀ t ∈ window, ∃ v : Verdict, t.verdictEnc = ((v.enc : ℕ) : ℚ) / 3

/-! ### What the padding leaves -/

section Features

variable {engine : ShrewdRtxEngine} {window : List TickFeatures}

/-- Written one after the other, the entries replace what was there. -/
lemma foldl_set_zipIdx {α β : Type*} (g : α → β) (o : ℕ) (src : List α) :
    ∀ (k : ℕ) (done rest : List β), done.length = o + k → rest.length = src.length →
      (src.zipIdx k).foldl (fun out f => out.set (o + f.2) (g f.1)) (done ++ rest)
        = done ++ src.map g := by
  induction src with
  | nil =>
      intro k done rest _ hrest
      rw [List.length_eq_zero_iff.mp hrest]
      rfl
  | cons a src ih =>
      intro k done rest hdone hrest
      obtain ⟨b, rest, rfl⟩ := List.exists_cons_of_length_eq_add_one hrest
      have hset : (done ++ b :: rest).set (o + k) (g a) = done ++ [g a] ++ rest := by
        rw [← hdone, List.set_append_right _ _ le_rfl, Nat.sub_self, List.set_cons_zero,
          List.append_assoc, List.singleton_append]
      rw [List.zipIdx_cons, List.foldl_cons, hset,
        ih (k + 1) (done ++ [g a]) rest (by simp [hdone, Nat.add_assoc])
          (by simpa using hrest),
        List.map_cons, List.append_assoc, List.singleton_append]

/-- The features are zeros, then the last ticks of the window. -/
theorem prepareFeatures_eq (engine : ShrewdRtxEngine) (window : List TickFeatures) :
    engine.prepareFeatures window
      = List.replicate (engine.windowSize - window.length) 0
        ++ (window.drop (window.length - engine.windowSize)).map TickFeatures.toArray := by
  have hstart : (if engine.windowSize ≤ window.length then window.length - engine.windowSize
      else 0) = window.length - engine.windowSize := by
    split_ifs with h
    · rfl
    · omega
  rw [ShrewdRtxEngine.prepareFeatures, hstart]
  set src := window.drop (window.length - engine.windowSize) with hsrc
  have hlen : src.length = window.length - (window.length - engine.windowSize) :=
    List.length_drop
  have hsplit : List.replicate engine.windowSize (0 : Fin 8 → ℚ)
      = List.replicate (engine.windowSize - src.length) 0 ++ List.replicate src.length 0 := by
    rw [List.replicate_append_replicate]
    congr 1
    omega
  have hoffset : engine.windowSize - src.length = engine.windowSize - window.length := by omega
  rw [hsplit, foldl_set_zipIdx _ _ src 0 _ _ (by simp) (by simp), hoffset]

/-- The array of counts counts. -/
lemma countVerdicts_apply (features : List (Fin 8 → ℚ)) (i : Fin 4) :
    countVerdicts features i = features.countP fun f => verdictIdx f = i := by
  have key : ∀ (l : List (Fin 8 → ℚ)) (c : Fin 4 → ℕ),
      l.foldl (fun counts f =>
          Function.update counts (verdictIdx f) (counts (verdictIdx f) + 1)) c i
        = c i + l.countP fun f => verdictIdx f = i := by
    intro l
    induction l with
    | nil => simp
    | cons f l ih =>
        intro c
        rw [List.foldl_cons, ih, List.countP_cons]
        by_cases h : verdictIdx f = i
        · subst h
          simp
          omega
        · simp [h, Function.update_of_ne (Ne.symm h)]
  rw [countVerdicts, key, Pi.zero_apply, zero_add]

lemma verdictIdx_of_enc {t : TickFeatures} {v : Verdict}
    (h : t.verdictEnc = ((v.enc : ℕ) : ℚ) / 3) : verdictIdx t.toArray = v.enc := by
  have hmul : t.toArray 0 * 3 = ((v.enc : ℕ) : ℚ) := by
    rw [TickFeatures.toArray_zero, h]
    exact div_mul_cancel₀ _ three_ne_zero
  have hle : (v.enc : ℕ) ≤ 3 := Nat.le_of_lt_succ v.enc.isLt
  apply Fin.ext
  rw [val_verdictIdx, hmul, round_natCast, Int.toNat_natCast, min_eq_left hle]

lemma enc_injective : Function.Injective Verdict.enc := by
  intro v w h
  cases v <;> cases w <;> first | rfl | cases h

/-- The encodings of two verdicts differ. -/
lemma div_three_inj {v w : Verdict} :
    ((v.enc : ℕ) : ℚ) / 3 = ((w.enc : ℕ) : ℚ) / 3 ↔ v = w := by
  rw [div_left_inj' (by norm_num), Nat.cast_inj, Fin.val_inj]
  exact enc_injective.eq_iff

@[simp] lemma fromIdx_enc (v : Verdict) : Verdict.fromIdx v.enc = v := by cases v <;> rfl

lemma exists_enc (i : Fin 4) : ∃ v : Verdict, v.enc = i := by
  fin_cases i
  exacts [⟨.skerProven, rfl⟩, ⟨.skerShrewd, rfl⟩, ⟨.skerCausal, rfl⟩, ⟨.skerNoise, rfl⟩]

end Features

/-! ### The most frequent verdict -/

section Counts

variable {window : List TickFeatures} {modelPath : Option String} {pathExists : String → Bool}
  {detectCuda : Bool}

/-- How often the rules count a verdict: the zeros of the padding count as proven. -/
def padded (window : List TickFeatures) (v : Verdict) : ℕ :=
  ticksOf v (lastTicks window) + if v = .skerProven then 1000 - window.length else 0

lemma Encoded.lastTicks (h : Encoded window) : Encoded (lastTicks window) :=
  fun t ht => h t (List.mem_of_mem_drop ht)

lemma length_lastTicks (window : List TickFeatures) :
    (lastTicks window).length + (1000 - window.length) = 1000 := by
  rw [lastTicks, List.length_drop]
  omega

lemma length_prepareFeatures :
    ((ShrewdRtxEngine.new modelPath pathExists detectCuda).prepareFeatures window).length
      = 1000 := by
  rw [prepareFeatures_eq, List.length_append, List.length_replicate, List.length_map]
  exact (add_comm _ _).trans (length_lastTicks window)

/-- The rules count the last ticks and the padding. -/
lemma countVerdicts_prepareFeatures (h : Encoded window) (v : Verdict) :
    countVerdicts ((ShrewdRtxEngine.new modelPath pathExists detectCuda).prepareFeatures window)
      v.enc = padded window v := by
  have hzero : verdictIdx 0 = Verdict.skerProven.enc := by
    apply Fin.ext
    simp [val_verdictIdx, Verdict.enc]
  have hpad : (List.replicate (1000 - window.length) (0 : Fin 8 → ℚ)).countP
        (fun f => verdictIdx f = v.enc)
      = if v = .skerProven then 1000 - window.length else 0 := by
    rw [List.countP_replicate, hzero]
    refine if_congr ?_ rfl rfl
    rw [decide_eq_true_eq, enc_injective.eq_iff, eq_comm]
  have hsrc : ((lastTicks window).map TickFeatures.toArray).countP
        (fun f => verdictIdx f = v.enc) = ticksOf v (lastTicks window) := by
    rw [List.countP_map, ticksOf]
    refine List.countP_congr fun t ht => ?_
    obtain ⟨w, hw⟩ := h.lastTicks t ht
    simp only [Function.comp_apply, decide_eq_true_eq, verdictIdx_of_enc hw, hw, div_three_inj,
      enc_injective.eq_iff]
  rw [countVerdicts_apply, prepareFeatures_eq, List.countP_append]
  exact (congrArg₂ _ hpad hsrc).trans (add_comm _ _)

/-- A maximal entry, and the last one of several. -/
lemma bestIdx_spec (probs : Fin 4 → ℚ) (i : Fin 4) :
    probs i ≤ probs (bestIdx probs)
      ∧ (probs (bestIdx probs) ≤ probs i → i ≤ bestIdx probs) := by
  have hidx : ∀ i j : Fin 4, (List.finRange 4).reverse.idxOf i
      ≤ (List.finRange 4).reverse.idxOf j → j ≤ i := by decide
  have hmem : ∀ i : Fin 4, i ∈ (List.finRange 4).reverse := by simp
  cases hbest : (List.finRange 4).reverse.argmax probs with
  | none => exact absurd (List.argmax_eq_none.mp hbest) (by decide)
  | some b =>
      obtain ⟨-, hmax, hlast⟩ := List.argmax_eq_some_iff.mp hbest
      rw [bestIdx, hbest, Option.getD_some]
      exact ⟨hmax i (hmem i), fun h => hidx b i (hlast i (hmem i) h)⟩

/-- The onnx session falls through to the rules. -/
lemma predict_eq (engine : ShrewdRtxEngine) (window : List TickFeatures) :
    engine.predict window = engine.ruleBasedPredict (engine.prepareFeatures window) := by
  rw [ShrewdRtxEngine.predict]
  cases engine.onnxSession <;> rfl

/-- The share of a verdict among the features. -/
lemma prob_eq (h : Encoded window) (v : Verdict) :
    (countVerdicts ((ShrewdRtxEngine.new modelPath pathExists detectCuda).prepareFeatures window)
        v.enc : ℚ)
      / ((ShrewdRtxEngine.new modelPath pathExists detectCuda).prepareFeatures window).length
      = padded window v / 1000 := by
  rw [countVerdicts_prepareFeatures h, length_prepareFeatures, Nat.cast_ofNat]

/-- The verdict is the one that the rules count most often, and proven only if all others are
counted less often. -/
lemma verdict_spec (h : Encoded window) :
    (∀ v, padded window v ≤ padded window
        ((ShrewdRtxEngine.new modelPath pathExists detectCuda).predict window).verdict)
      ∧ (((ShrewdRtxEngine.new modelPath pathExists detectCuda).predict window).verdict
          = .skerProven → ∀ v ≠ Verdict.skerProven, padded window v < padded window .skerProven)
      ∧ ((ShrewdRtxEngine.new modelPath pathExists detectCuda).predict window).confidence
        = padded window
          ((ShrewdRtxEngine.new modelPath pathExists detectCuda).predict window).verdict
          / 1000 := by
  set engine := ShrewdRtxEngine.new modelPath pathExists detectCuda with hengine
  set probs : Fin 4 → ℚ := fun i =>
    countVerdicts (engine.prepareFeatures window) i / (engine.prepareFeatures window).length
    with hprobs
  have hprob (v : Verdict) : probs v.enc = padded window v / 1000 := prob_eq h v
  have hle (v w : Verdict) : probs v.enc ≤ probs w.enc ↔ padded window v ≤ padded window w := by
    rw [hprob, hprob, div_le_div_iff_of_pos_right (by norm_num), Nat.cast_le]
  obtain ⟨best, hbest⟩ := exists_enc (bestIdx probs)
  have hverdict : (engine.predict window).verdict = best := by
    rw [predict_eq]
    exact (congrArg Verdict.fromIdx (congrArg Fin.val hbest.symm)).trans (fromIdx_enc best)
  have hmax (v : Verdict) := bestIdx_spec probs v.enc
  simp only [← hbest, hle] at hmax
  rw [hverdict]
  refine ⟨fun v => (hmax v).1, ?_, ?_⟩
  · rintro rfl v hv
    by_contra hlt
    have hzero : v.enc ≤ Verdict.skerProven.enc := (hmax v).2 (not_lt.mp hlt)
    exact hv (enc_injective (Fin.le_zero_iff.mp hzero))
  · rw [predict_eq, ← hprob, hbest]
    rfl

lemma ticksOf_add_le {v w : Verdict} (hvw : v ≠ w) (ticks : List TickFeatures) :
    ticksOf v ticks + ticksOf w ticks ≤ ticks.length := by
  induction ticks with
  | nil => exact le_rfl
  | cons t ticks ih =>
      simp only [ticksOf, List.countP_cons, List.length_cons, decide_eq_true_eq] at ih ⊢
      have hone : ¬(t.verdictEnc = ((v.enc : ℕ) : ℚ) / 3
          ∧ t.verdictEnc = ((w.enc : ℕ) : ℚ) / 3) :=
        fun ⟨hv, hw⟩ => hvw (div_three_inj.mp (hv.symm.trans hw))
      split_ifs <;> first | omega | exact absurd ⟨by assumption, by assumption⟩ hone

/-- Two verdicts are counted at most as often as there are features. -/
lemma padded_add_le (v : Verdict) (hv : v ≠ .skerProven) (window : List TickFeatures) :
    padded window v + padded window .skerProven ≤ 1000 := by
  have hle := ticksOf_add_le hv (lastTicks window)
  have hlen := length_lastTicks window
  simp only [padded, if_neg hv, if_true]
  omega

/-- The threshold is lowered for a confident proven verdict only. -/
lemma toGovernanceCommand_lower {p : ShrewdPrediction} {agent : String} :
    (p.toGovernanceCommand agent).command = "LOWER_SHREWD_THRESHOLD"
      ↔ p.verdict = .skerProven ∧ 4 / 5 < p.confidence := by
  rw [ShrewdPrediction.toGovernanceCommand]
  split_ifs with hlower hnoise
  · exact iff_of_true rfl hlower
  · exact iff_of_false (by simp) hlower
  · exact iff_of_false (by simp) hlower

/-- The most frequent verdict is returned if it is proven, or if another one outweighs the
padding too. -/
lemma mostFrequent_iff (h : Encoded window) :
    MostFrequent ((ShrewdRtxEngine.new modelPath pathExists detectCuda).predict window).verdict
        (lastTicks window)
      ↔ MostFrequent .skerProven (lastTicks window)
        ∨ ∃ v ≠ Verdict.skerProven,
          ticksOf .skerProven (lastTicks window) + (1000 - window.length)
            ≤ ticksOf v (lastTicks window) := by
  obtain ⟨hmax, hproven, -⟩ := @verdict_spec window modelPath pathExists detectCuda h
  set best := ((ShrewdRtxEngine.new modelPath pathExists detectCuda).predict window).verdict
  have hpadded {v : Verdict} (hv : v ≠ .skerProven) :
      padded window v = ticksOf v (lastTicks window) := by rw [padded, if_neg hv, add_zero]
  have hzero : padded window .skerProven
      = ticksOf .skerProven (lastTicks window) + (1000 - window.length) := by
    rw [padded, if_pos rfl]
  have hle (v : Verdict) : ticksOf v (lastTicks window) ≤ padded window v := Nat.le_add_right _ _
  rw [← hzero]
  by_cases hbest : best = .skerProven
  · rw [hbest]
    refine ⟨Or.inl, ?_⟩
    rintro (hfreq | ⟨v, hv, hlarge⟩)
    · exact hfreq
    · rw [← hpadded hv] at hlarge
      exact absurd (hproven hbest v hv) (not_lt.mpr hlarge)
  · refine iff_of_true (fun v => ?_) (Or.inr ⟨best, hbest, ?_⟩)
    · rw [← hpadded hbest]
      exact (hle v).trans (hmax v)
    · rw [← hpadded hbest]
      exact hmax .skerProven

/-- The threshold is lowered rightly if proven is counted at most 800 times, or has its share
of the ticks. -/
lemma lower_iff (h : Encoded window) :
    (∀ agent, (((ShrewdRtxEngine.new modelPath pathExists detectCuda).predict
        window).toGovernanceCommand agent).command = "LOWER_SHREWD_THRESHOLD" →
      80 * (lastTicks window).length < 100 * ticksOf .skerProven (lastTicks window))
      ↔ ticksOf .skerProven (lastTicks window) + (1000 - window.length) ≤ 800
        ∨ 80 * (lastTicks window).length < 100 * ticksOf .skerProven (lastTicks window) := by
  obtain ⟨hmax, -, hconf⟩ := @verdict_spec window modelPath pathExists detectCuda h
  set prediction := (ShrewdRtxEngine.new modelPath pathExists detectCuda).predict window
  have hzero : padded window .skerProven
      = ticksOf .skerProven (lastTicks window) + (1000 - window.length) := by
    rw [padded, if_pos rfl]
  have hlower : prediction.verdict = .skerProven ∧ 4 / 5 < prediction.confidence
      ↔ 800 < padded window .skerProven := by
    have hlt : (4 / 5 : ℚ) < padded window .skerProven / 1000
        ↔ 800 < padded window .skerProven := by
      rw [lt_div_iff₀ (by norm_num), ← Nat.cast_lt (α := ℚ)]
      norm_num
    constructor
    · rintro ⟨hverdict, hlarge⟩
      rwa [hconf, hverdict, hlt] at hlarge
    · intro hlarge
      have hverdict : prediction.verdict = .skerProven := by
        by_contra hne
        have hsum := padded_add_le _ hne window
        have hbest := hmax .skerProven
        omega
      exact ⟨hverdict, by rwa [hconf, hverdict, hlt]⟩
  simp only [toGovernanceCommand_lower, hlower, ← hzero]
  rw [forall_const, imp_iff_not_or, not_lt]

/-- The verdict of a window is the majority verdict exactly if the zeros that a short window is
padded with, which count as proven, neither hide a more frequent verdict nor make up the
confidence. -/
theorem majority_iff (h : Encoded window) :
    Majority (.new modelPath pathExists detectCuda) window
      ↔ (MostFrequent .skerProven (lastTicks window)
          ∨ ∃ v ≠ Verdict.skerProven,
            ticksOf .skerProven (lastTicks window) + (1000 - window.length)
              ≤ ticksOf v (lastTicks window))
        ∧ (ticksOf .skerProven (lastTicks window) + (1000 - window.length) ≤ 800
          ∨ 80 * (lastTicks window).length < 100 * ticksOf .skerProven (lastTicks window)) := by
  rw [← mostFrequent_iff h, ← lower_iff h]
  exact ⟨fun hm => ⟨hm.verdict, hm.lower⟩, fun hm => ⟨hm.1, hm.2⟩⟩

/-- A tick with a verdict. -/
def tickOf (v : Verdict) : TickFeatures where
  verdictEnc := ((v.enc : ℕ) : ℚ) / 3
  hasProof := 0
  agentHash := 1 / 2
  tickDelta := 1 / 1000
  tsHour := 0
  opHash := 3 / 10
  isSovereign := 1
  sealEntropy := 1 / 2

lemma encoded_replicate (n : ℕ) (v : Verdict) : Encoded (List.replicate n (tickOf v)) := by
  intro t ht
  rw [List.eq_of_mem_replicate ht]
  exact ⟨v, rfl⟩

lemma lastTicks_of_le (h : window.length ≤ 1000) : lastTicks window = window := by
  rw [lastTicks, Nat.sub_eq_zero_of_le h, List.drop_zero]

lemma ticksOf_replicate (n : ℕ) (v w : Verdict) :
    ticksOf w (List.replicate n (tickOf v)) = if v = w then n else 0 := by
  rw [ticksOf, List.countP_replicate]
  refine if_congr ?_ rfl rfl
  rw [decide_eq_true_eq]
  exact div_three_inj

/-- Ten ticks of a proven verdict are padded with proven verdicts. -/
theorem majority_replicate_proven :
    Encoded (List.replicate 10 (tickOf .skerProven))
      ∧ Majority (.new none (fun _ => false) false) (List.replicate 10 (tickOf .skerProven)) := by
  refine ⟨encoded_replicate 10 _, (majority_iff (encoded_replicate 10 _)).mpr ?_⟩
  rw [lastTicks_of_le (by simp), MostFrequent]
  simp only [ticksOf_replicate, List.length_replicate]
  refine ⟨Or.inl fun v => ?_, Or.inr ?_⟩
  · split_ifs <;> omega
  · decide

/-- Ten ticks of noise are called proven, and lower the threshold. -/
theorem not_majority_replicate_noise :
    Encoded (List.replicate 10 (tickOf .skerNoise))
      ∧ ¬MostFrequent ((ShrewdRtxEngine.new none (fun _ => false) false).predict
          (List.replicate 10 (tickOf .skerNoise))).verdict
        (lastTicks (List.replicate 10 (tickOf .skerNoise)))
      ∧ (((ShrewdRtxEngine.new none (fun _ => false) false).predict
            (List.replicate 10 (tickOf .skerNoise))).toGovernanceCommand "unknown").command
          = "LOWER_SHREWD_THRESHOLD"
      ∧ ticksOf .skerProven (lastTicks (List.replicate 10 (tickOf .skerNoise))) = 0 := by
  have henc := encoded_replicate 10 .skerNoise
  have hlast := lastTicks_of_le
    (show (List.replicate 10 (tickOf .skerNoise)).length ≤ 1000 by simp)
  obtain ⟨hmax, -, hconf⟩ := @verdict_spec _ none (fun _ => false) false henc
  set prediction := (ShrewdRtxEngine.new none (fun _ => false) false).predict
    (List.replicate 10 (tickOf .skerNoise))
  have hverdict : prediction.verdict = .skerProven := by
    by_contra hne
    have hle := hmax .skerProven
    simp only [padded, hlast, ticksOf_replicate, List.length_replicate, if_neg hne,
      if_true] at hle
    split_ifs at hle <;> omega
  refine ⟨henc, ?_, toGovernanceCommand_lower.mpr ⟨hverdict, ?_⟩, ?_⟩
  · rw [hverdict, hlast]
    intro hfreq
    have hle := hfreq .skerNoise
    simp only [ticksOf_replicate] at hle
    exact absurd hle (by decide)
  · rw [hconf, hverdict, padded, hlast, ticksOf_replicate, List.length_replicate,
      if_neg (by decide), if_pos rfl]
    norm_num
  · rw [hlast, ticksOf_replicate]
    rfl

end Counts

end Shrewd

end SovereignBus
