import SovereignBus.Lattice.File
import SovereignBus.Library.Machine

/-!
Runs of `seb_lattice_append` and the log they build.

* `latticeRun`: a run of appends, each with the fault the system gives it.
  `latticeRun_faultless` is the invariant of the runs without faults: behind the
  bytes of the old file stand the records of the chain from its tip.
* `ChainRule`: the rule of the log, place by place on the bytes of the file;
  `chainRule_iff_linked` reads it on the records.
* `lattice_log_agrees`: writer, tip and verifier agree over whole runs, and the
  verifier decides the chain rule on every file of whole records.
* `lattice_tips_never_meet`: once diverged, two logs that append the same
  payloads differ for ever.
-/

namespace SovereignBus

open Framing

/-! ### Runs of appends -/

/-- One call of the append as a step of the file. -/
def appendStep (f : File) (call : Payload × Option Fault) : ℤ × File :=
  let a := sebLatticeAppend call.2 f call.1
  (a.ret, a.file)

/-- A run of calls on a file: the calls with the values they returned, and the
file in the end. -/
def latticeRun (f : File) (calls : List (Payload × Option Fault)) :
    List ((Payload × Option Fault) × ℤ) × File :=
  Machine.exec appendStep f calls

/-- The calls that append `ps` while every transfer is complete. -/
def faultless (ps : List Payload) : List (Payload × Option Fault) := ps.map fun p => (p, none)

/-- The bytes of the log with the payloads `ps` behind the tip `tip`. -/
def logBytes (tip : Poly) (ps : List Payload) : File :=
  recordCodec.bytes (Chain.link sebLatticeCommit tip ps)

/-- The invariant of the runs without faults. -/
lemma latticeRun_faultless {f : File} {tip : Poly} (h : sebLatticeTip none f = some tip)
    (ps : List Payload) :
    latticeRun f (faultless ps) = ((faultless ps).map fun c => (c, 0), f ++ logBytes tip ps)
      ∧ sebLatticeTip none (f ++ logBytes tip ps) = some (ps.foldl sebLatticeCommit tip) := by
  induction ps generalizing f tip with
  | nil => simpa [latticeRun, faultless, logBytes, Chain.link] using h
  | cons p ps ih =>
      have hstep : appendStep f (p, none)
          = (0, f ++ recordCodec.enc (p, sebLatticeCommit tip p)) := by
        rw [appendStep, sebLatticeAppend_eq h]
      have hlog : f ++ logBytes tip (p :: ps)
          = f ++ recordCodec.enc (p, sebLatticeCommit tip p)
              ++ logBytes (sebLatticeCommit tip p) ps := by
        rw [logBytes, Chain.link, recordCodec.bytes_cons, ← List.append_assoc, logBytes]
      obtain ⟨hrun, htip⟩ := ih (sebLatticeTip_append f (p, sebLatticeCommit tip p))
      rw [hlog]
      refine ⟨?_, htip⟩
      rw [latticeRun] at hrun
      simp only [latticeRun, faultless, List.map_cons, Machine.exec, hstep]
      rw [← faultless, hrun]

lemma latticeRun_nil (ps : List Payload) :
    latticeRun [] (faultless ps) = ((faultless ps).map fun c => (c, 0), logBytes 0 ps) := by
  have h := (latticeRun_faultless sebLatticeTip_nil ps).1
  rwa [List.nil_append] at h

lemma sebLatticeTip_logBytes (ps : List Payload) :
    sebLatticeTip none (logBytes 0 ps) = some (ps.foldl sebLatticeCommit 0) := by
  have h := (latticeRun_faultless sebLatticeTip_nil ps).2
  rwa [List.nil_append] at h

lemma logBytes_nil (tip : Poly) : logBytes tip [] = [] := rfl

@[simp] lemma logBytes_length (tip : Poly) (ps : List Payload) :
    (logBytes tip ps).length = 96 * ps.length := by
  rw [logBytes, recordCodec.bytes_length, Chain.link_length]

/-- One payload more is one record more, committed to the tip of the log. -/
lemma logBytes_concat (tip : Poly) (ps : List Payload) (payload : Payload) :
    logBytes tip (ps ++ [payload])
      = logBytes tip ps ++ recordCodec.enc
          (payload, sebLatticeCommit (ps.foldl sebLatticeCommit tip) payload) := by
  calc logBytes tip (ps ++ [payload])
      = recordCodec.bytes (Chain.link sebLatticeCommit tip ps
          ++ Chain.link sebLatticeCommit (ps.foldl sebLatticeCommit tip) [payload]) := by
        rw [logBytes, Chain.link_append]
    _ = logBytes tip ps ++ recordCodec.bytes
          [(payload, sebLatticeCommit (ps.foldl sebLatticeCommit tip) payload)] := by
        rw [recordCodec.bytes_append]
        rfl
    _ = _ := by rw [recordCodec.bytes_singleton]

lemma appendStep_logBytes (ps : List Payload) (payload : Payload) :
    appendStep (logBytes 0 ps) (payload, none) = (0, logBytes 0 (ps ++ [payload])) := by
  rw [appendStep, sebLatticeAppend_eq (sebLatticeTip_logBytes ps), logBytes_concat]

lemma records_logBytes (tip : Poly) (ps : List Payload) :
    recordCodec.records (logBytes tip ps) = Chain.link sebLatticeCommit tip ps :=
  recordCodec.records_bytes _

/-! ### The chain rule on the bytes -/

/-- The payload of the `i`-th record of a file. -/
def payloadAt (f : File) (i : ℕ) : Payload := field (frame 96 f i) 64 0

/-- The commitment of the `i`-th record of a file. -/
def commitmentAt (f : File) (i : ℕ) : Poly := field (frame 96 f i) 32 64

/-- The commitment before the `i`-th record: zeros before the first. -/
def prevCommitment (f : File) : ℕ → Poly
  | 0 => 0
  | i + 1 => commitmentAt f i

/-- The chain rule: every whole record carries the commitment of its payload to
the commitment before it. -/
def ChainRule (f : File) : Prop :=
  ∀ i < f.length / 96, commitmentAt f i = sebLatticeCommit (prevCommitment f i) (payloadAt f i)

lemma chainRule_iff_linked (f : File) :
    ChainRule f ↔ Chain.Linked sebLatticeCommit 0 (recordCodec.records f) := by
  rw [Chain.linked_iff_forall, ChainRule, ← recordCodec.records_length]
  refine forall₂_congr fun i hi => ?_
  rw [recordCodec.records_getElem]
  cases i with
  | zero => rfl
  | succ i =>
      rw [List.get_eq_getElem, List.getElem_cons_succ, List.getElem_map,
        recordCodec.records_getElem]
      rfl

/-- The verifier decides the chain rule on every file of whole records. -/
theorem sebLatticeVerify_whole {f : File} (h : 96 ∣ f.length) :
    (sebLatticeVerify f 0 (f.length / 96) = 1 ↔ ChainRule f)
      ∧ (¬ ChainRule f → sebLatticeVerify f 0 (f.length / 96) = 0) := by
  have hlen : (recordCodec.records f).length = f.length / 96 := recordCodec.records_length f
  have hv := sebLatticeVerify_bytes (recordCodec.records f) (le_refl (recordCodec.records f).length)
  rwa [List.take_length, recordCodec.bytes_records h, hlen, ← chainRule_iff_linked] at hv

/-- The verifier accepts every prefix of a log. -/
lemma sebLatticeVerify_logBytes (ps : List Payload) {count : ℕ} (h : count ≤ ps.length) :
    sebLatticeVerify (logBytes 0 ps) 0 count = 1 :=
  (sebLatticeVerify_bytes _ (by rwa [Chain.link_length])).1.mpr
    ((Chain.linked_link sebLatticeCommit 0 ps).take _ count)

/-- A file of whole records that the verifier accepts is the log of its
payloads. -/
lemma eq_logBytes_of_verify {f : File} (h : 96 ∣ f.length)
    (hv : sebLatticeVerify f 0 (f.length / 96) = 1) :
    f = logBytes 0 ((recordCodec.records f).map Prod.fst) := by
  have hrule := (sebLatticeVerify_whole h).1.mp hv
  rw [chainRule_iff_linked, Chain.linked_iff_eq_link] at hrule
  rw [logBytes, ← hrule, recordCodec.bytes_records h]

lemma frame_logBytes (tip : Poly) (ps : List Payload) {i : ℕ} (hi : i < ps.length) :
    frame 96 (logBytes tip ps) i
      = recordCodec.enc (ps[i], Chain.tipAfter sebLatticeCommit tip ps (i + 1)) := by
  have h := recordCodec.frame_bytes (Chain.link sebLatticeCommit tip ps) []
    (i := i) (by rwa [Chain.link_length])
  rwa [List.append_nil, Chain.link_getElem _ _ _ hi] at h

lemma commitmentAt_logBytes (tip : Poly) (ps : List Payload) {i : ℕ} (hi : i < ps.length) :
    commitmentAt (logBytes tip ps) i = Chain.tipAfter sebLatticeCommit tip ps (i + 1) := by
  rw [commitmentAt, frame_logBytes tip ps hi]
  exact congrArg Prod.snd (recordCodec.dec_enc _)

/-! ### Writer, tip and verifier -/

/-- Writer, tip and verifier agree over whole runs. `tipAfter ps i` is the
commitment `c_{i-1}` of the chain that starts from zeros. -/
theorem lattice_log_agrees :
    (∀ ps : List Payload,
      (∀ c ∈ (latticeRun [] (faultless ps)).1, c.2 = 0)
        ∧ (latticeRun [] (faultless ps)).2.length = 96 * ps.length
        ∧ (∀ i (hi : i < ps.length),
            frame 96 (latticeRun [] (faultless ps)).2 i
              = List.ofFn ps[i] ++ List.ofFn
                  (sebLatticeCommit (Chain.tipAfter sebLatticeCommit 0 ps i) ps[i]))
        ∧ sebLatticeTip none (latticeRun [] (faultless ps)).2
            = some (Chain.tipAfter sebLatticeCommit 0 ps ps.length)
        ∧ ∀ c ≤ ps.length, sebLatticeVerify (latticeRun [] (faultless ps)).2 0 c = 1)
      ∧ ∀ f : File, 96 ∣ f.length →
          (sebLatticeVerify f 0 (f.length / 96) = 1 ↔ ChainRule f)
            ∧ (¬ ChainRule f → sebLatticeVerify f 0 (f.length / 96) = 0) := by
  refine ⟨?_, fun f hf => sebLatticeVerify_whole hf⟩
  intro ps
  rw [latticeRun_nil]
  refine ⟨?_, logBytes_length 0 ps, ?_, ?_, fun c hc => sebLatticeVerify_logBytes ps hc⟩
  · intro c hc
    obtain ⟨_, _, rfl⟩ := List.mem_map.mp hc
    rfl
  · intro i hi
    rw [frame_logBytes 0 ps hi, Chain.tipAfter_succ _ _ _ hi]
    rfl
  · rw [Chain.tipAfter_length]
    exact sebLatticeTip_logBytes ps

/-! ### Diverged tips -/

/-- Folding the circuit over a list of payloads is injective in the tip, so two
logs whose tips differ and that append the same payloads differ in every
commitment they write from there on, and in their tips. -/
theorem lattice_tips_never_meet :
    (∀ ps : List Payload, Function.Injective fun tip : Poly => ps.foldl sebLatticeCommit tip)
      ∧ ∀ (f g : File) (s t : Poly), sebLatticeTip none f = some s → sebLatticeTip none g = some t →
          s ≠ t → ∀ ps : List Payload,
            (∀ i < ps.length,
              commitmentAt ((latticeRun f (faultless ps)).2.drop f.length) i
                ≠ commitmentAt ((latticeRun g (faultless ps)).2.drop g.length) i)
              ∧ sebLatticeTip none (latticeRun f (faultless ps)).2
                  ≠ sebLatticeTip none (latticeRun g (faultless ps)).2 := by
  have hinj := Chain.foldl_injective sebLatticeCommit sebLatticeCommit_injective
  refine ⟨hinj, fun f g s t hf hg hst ps => ?_⟩
  obtain ⟨hrunf, htipf⟩ := latticeRun_faultless hf ps
  obtain ⟨hrung, htipg⟩ := latticeRun_faultless hg ps
  rw [hrunf, hrung]
  constructor
  · intro i hi h
    simp only [List.drop_left, commitmentAt_logBytes _ ps hi] at h
    exact hst (hinj _ h)
  · intro h
    rw [htipf, htipg] at h
    exact hst (hinj ps (Option.some.inj h))

end SovereignBus
