import SovereignBus.Lattice.Faults

/-!
Verification of a part of a lattice log.

* `verifyLoop_eq_one_iff`: what the loop of `seb_lattice_verify` accepts of any file, from any
  record on.
* `VerifiesFrom`: the verifier accepts a range of the log, and sees a record of it that breaks
  the chain rule. `verifiesFrom_iff`: it does so exactly if the range is empty or follows
  a commitment of zeros, which is what the loop starts from.
* `NothingMissing`: what the verifier accepts is there. `nothingMissing_iff`: it is, unless
  the file ends behind a record before the count is reached.
-/

namespace SovereignBus

open Framing Chain

/-! ### The loop on any file -/

/-- The pass of the loop that reads the record `k`. -/
lemma verifyLoop_record {f : File} {k : ℕ} (hk : k < (recordCodec.records f).length)
    (expected : Poly) (count : ℕ) :
    verifyLoop f expected ((96 * k : ℕ) : ℤ) (count + 1)
      = if (recordCodec.records f)[k].2 = sebLatticeCommit expected (recordCodec.records f)[k].1
          then verifyLoop f (recordCodec.records f)[k].2 ((96 * (k + 1) : ℕ) : ℤ) count
          else 0 := by
  have hlt : k < f.length / 96 := by rwa [recordCodec.records_length] at hk
  have hread : latticeReadAt none f 96 ((96 * k : ℕ) : ℤ) = some (frame 96 f k) := by
    rw [latticeReadAt, if_neg (by omega), Int.toNat_natCast, frame]
  have hlen : (frame 96 f k).length = 96 := by
    rw [frame, List.length_take, List.length_drop]
    omega
  have hpos : ((96 * k : ℕ) : ℤ) + 96 = ((96 * (k + 1) : ℕ) : ℤ) := by push_cast; ring
  have hdec : recordCodec.dec (frame 96 f k) = (recordCodec.records f)[k] :=
    (recordCodec.records_getElem f hk).symm
  have hpayload : field (frame 96 f k) 64 0 = (recordCodec.records f)[k].1 := congrArg Prod.fst hdec
  have hcommitment : field (frame 96 f k) 32 64 = (recordCodec.records f)[k].2 :=
    congrArg Prod.snd hdec
  rw [verifyLoop, hread]
  simp only [hlen, hpayload, hcommitment, hpos, ne_eq, ctDiff_eq_zero_iff]
  by_cases h : (recordCodec.records f)[k].2
      = sebLatticeCommit expected (recordCodec.records f)[k].1
  · simp [← h]
  · simp [h, Ne.symm h]

/-- Behind the last whole record the loop takes the end of the file for the end of the
log, and any other rest for an error. -/
lemma verifyLoop_end (f : File) (expected : Poly) (count : ℕ) :
    verifyLoop f expected ((96 * (f.length / 96) : ℕ) : ℤ) (count + 1)
      = if 96 ∣ f.length then 1 else -1 := by
  have hread : latticeReadAt none f 96 ((96 * (f.length / 96) : ℕ) : ℤ)
      = some (f.drop (96 * (f.length / 96))) := by
    rw [latticeReadAt, if_neg (by omega), Int.toNat_natCast,
      List.take_of_length_le (by rw [List.length_drop]; omega)]
  have hlen : (f.drop (96 * (f.length / 96))).length = f.length % 96 := by
    rw [List.length_drop]
    omega
  rw [verifyLoop, hread]
  simp only [hlen]
  split_ifs <;> first | rfl | omega

/-- The loop accepts the records it finds if they obey the chain rule, and either they are as
many as it looks for, or the file ends behind the last of them. -/
lemma verifyLoop_eq_one_iff (f : File) (expected : Poly) {k : ℕ} (hk : k ≤ f.length / 96)
    (count : ℕ) :
    verifyLoop f expected ((96 * k : ℕ) : ℤ) count = 1
      ↔ Linked sebLatticeCommit expected (((recordCodec.records f).drop k).take count)
        ∧ (k + count ≤ f.length / 96 ∨ 96 ∣ f.length) := by
  induction count generalizing k expected with
  | zero => simp [verifyLoop, Linked, hk]
  | succ count ih =>
      rcases hk.lt_or_eq with hlt | rfl
      · have hrec : k < (recordCodec.records f).length := by rwa [recordCodec.records_length]
        rw [verifyLoop_record hrec, List.drop_eq_getElem_cons hrec, List.take_succ_cons, Linked,
          and_assoc]
        split_ifs with h
        · rw [ih _ hlt, and_iff_right h, Nat.succ_add_eq_add_succ]
        · exact iff_of_false (by decide) fun hlinked => h hlinked.1
      · rw [verifyLoop_end, List.drop_eq_nil_of_le (by rw [recordCodec.records_length]),
          List.take_nil]
        split_ifs with h
        · exact iff_of_true rfl ⟨trivial, .inr h⟩
        · refine iff_of_false (by decide) fun hcount => ?_
          rcases hcount.2 with hle | hdvd
          · omega
          · exact h hdvd

/-! ### From the middle of a log -/

/-- The commitment the `j`-th record of a range is checked against, when the loop starts
from `tip`. -/
def rangePrev (f : File) (tip : Poly) (k : ℕ) : ℕ → Poly
  | 0 => tip
  | j + 1 => commitmentAt f (k + j)

lemma rangePrev_succ (f : File) (tip : Poly) (k j : ℕ) :
    rangePrev f (commitmentAt f k) (k + 1) j = rangePrev f tip k (j + 1) := by
  cases j with
  | zero => rfl
  | succ j => rw [rangePrev, rangePrev, Nat.add_right_comm, Nat.add_assoc]

/-- The chain rule on a range, place by place. -/
lemma linked_range_iff (f : File) (tip : Poly) {k c : ℕ} (h : k + c ≤ f.length / 96) :
    Linked sebLatticeCommit tip (((recordCodec.records f).drop k).take c)
      ↔ ∀ j < c, commitmentAt f (k + j)
          = sebLatticeCommit (rangePrev f tip k j) (payloadAt f (k + j)) := by
  induction c generalizing k tip with
  | zero => simp [Linked]
  | succ c ih =>
      have hk : k < (recordCodec.records f).length := by
        rw [recordCodec.records_length]
        omega
      have hrecord : (recordCodec.records f)[k] = (payloadAt f k, commitmentAt f k) :=
        recordCodec.records_getElem f hk
      rw [List.drop_eq_getElem_cons hk, List.take_succ_cons, hrecord, Linked, ih _ (by omega)]
      constructor
      · rintro ⟨hfirst, hrest⟩ j hj
        cases j with
        | zero => exact hfirst
        | succ j =>
            have hj := hrest j (by omega)
            rwa [rangePrev_succ f tip, Nat.add_right_comm] at hj
      · intro hall
        refine ⟨hall 0 (by omega), fun j hj => ?_⟩
        rw [rangePrev_succ f tip, Nat.add_right_comm]
        exact hall (j + 1) (by omega)

/-- On a range that begins behind the commitment `tip`, the rule is that of the file. -/
lemma rangePrev_eq {f : File} {tip : Poly} {k : ℕ} (h : prevCommitment f k = tip) (j : ℕ) :
    rangePrev f tip k j = prevCommitment f (k + j) := by
  cases j with
  | zero => exact h.symm
  | succ j => rfl

/-- The verifier accepts a range of a log, and sees a record of it that breaks the chain
rule. -/
structure VerifiesFrom (f : File) (k c : ℕ) : Prop where
  accepts : sebLatticeVerify f ((96 * k : ℕ) : ℤ) c = 1
  rejects : ∀ g : File, g.length = f.length → ∀ j < c, (∀ i ≠ k + j, frame 96 g i = frame 96 f i) →
    commitmentAt g (k + j) ≠ sebLatticeCommit (prevCommitment g (k + j)) (payloadAt g (k + j)) →
    sebLatticeVerify g ((96 * k : ℕ) : ℤ) c = 0

lemma verifiesFrom_of_prev {f : File} (h96 : 96 ∣ f.length) (hrule : ChainRule f) {k c : ℕ}
    (h : k + c ≤ f.length / 96) (hprev : prevCommitment f k = 0) : VerifiesFrom f k c where
  accepts := by
    rw [sebLatticeVerify, verifyLoop_eq_one_iff f 0 (by omega), linked_range_iff f 0 h]
    refine ⟨fun j hj => ?_, .inl h⟩
    rw [rangePrev_eq hprev]
    exact hrule (k + j) (by omega)
  rejects g hlen j hj hframe hbreak := by
    have hprev' : prevCommitment g k = 0 := by
      cases k with
      | zero => rfl
      | succ k => rwa [prevCommitment, commitmentAt, hframe k (by omega)]
    have hbytes := recordCodec.bytes_records (f := g) (by rwa [hlen])
    rw [sebLatticeVerify, ← hbytes]
    refine (verifyLoop_bytes _ 0 (by rwa [recordCodec.records_length, hlen])).2 fun hlinked => ?_
    rw [linked_range_iff g 0 (by rwa [hlen])] at hlinked
    have hj := hlinked j hj
    rw [rangePrev_eq hprev'] at hj
    exact hbreak hj

/-- A range that is accepted follows a commitment of zeros. -/
lemma prev_of_accepted {f : File} (hrule : ChainRule f) {k c : ℕ} (h : k + c ≤ f.length / 96)
    (hc : c ≠ 0) (haccepted : sebLatticeVerify f ((96 * k : ℕ) : ℤ) c = 1) :
    prevCommitment f k = 0 := by
  rw [sebLatticeVerify, verifyLoop_eq_one_iff f 0 (by omega), linked_range_iff f 0 h] at haccepted
  have hfirst := haccepted.1 0 (by omega)
  have hcommit := hrule k (by omega)
  exact sebLatticeCommit_injective _ (hcommit.symm.trans hfirst)

lemma verifiesFrom_iff_prev {f : File} (h96 : 96 ∣ f.length) (hrule : ChainRule f) {k c : ℕ}
    (h : k + c ≤ f.length / 96) : VerifiesFrom f k c ↔ c = 0 ∨ prevCommitment f k = 0 := by
  constructor
  · intro hverifies
    by_cases hc : c = 0
    · exact .inl hc
    · exact .inr (prev_of_accepted hrule h hc hverifies.accepts)
  · rintro (rfl | hprev)
    · exact ⟨rfl, fun _ _ j hj => absurd hj (Nat.not_lt_zero j)⟩
    · exact verifiesFrom_of_prev h96 hrule h hprev

/-- A call whose flush fails does not return 0. -/
lemma appendStep_fsync (f : File) (payload : Payload) :
    (appendStep f (payload, some .fsync)).1 = -1 := by
  have hsize : latticeFilesize (some .fsync) f = f.length := latticeFilesize_of_ne (by simp) f
  have hneg : ¬ (f.length : ℤ) < 0 := by omega
  simp only [appendStep, sebLatticeAppend, hsize, if_neg hneg]
  cases readTip (some .fsync) f f.length with
  | none => rfl
  | some tip =>
      simp only [writeRecord, latticeFsync]
      split_ifs <;> rfl

/-- A call that returns 0 on a log appends to it. -/
lemma appendStep_of_zero {ps : List Payload} {c : Payload × Option Fault}
    (h : (appendStep (logBytes 0 ps) c).1 = 0) :
    (appendStep (logBytes 0 ps) c).2 = logBytes 0 (ps ++ [c.1]) := by
  have hsync : c.2 ≠ some .fsync := fun hc => by
    have hret : (appendStep (logBytes 0 ps) c).1 = -1 := by
      rw [show c = (c.1, some .fsync) from Prod.ext rfl hc]
      exact appendStep_fsync _ _
    rw [hret] at h
    exact absurd h (by decide)
  have hput : ∀ put, c.2 = some (.writeAt put) → put = 0 := fun put hc => by
    have hstep := appendStep_torn (sebLatticeTip_logBytes ps) c.1 put
    rw [← hc] at hstep
    rw [hstep] at h
    exact absurd h (by simp)
  rcases appendStep_kept ps c hsync hput with hstep | ⟨hstep, -⟩
  · rw [hstep]
  · rw [hstep] at h
    exact absurd h (by simp)

/-- The log of a run of successful calls. -/
lemma latticeRun_of_zero {ps : List Payload} {calls : List (Payload × Option Fault)}
    (h : ∀ c ∈ (latticeRun (logBytes 0 ps) calls).1, c.2 = 0) :
    (latticeRun (logBytes 0 ps) calls).2 = logBytes 0 (ps ++ calls.map Prod.fst) := by
  induction calls generalizing ps with
  | nil => simp [latticeRun]
  | cons c calls ih =>
      rw [latticeRun_cons] at h ⊢
      obtain ⟨hfirst, hrest⟩ := List.forall_mem_cons.mp h
      rw [appendStep_of_zero hfirst] at hrest ⊢
      rw [ih hrest, List.map_cons, List.append_assoc]
      rfl

lemma logBytes_chainRule (ps : List Payload) : ChainRule (logBytes 0 ps) := by
  rw [chainRule_iff_linked, records_logBytes]
  exact linked_link _ _ _

/-- In a log of successful appends, the verifier does its work from the `k`-th record on exactly
if it has none to do, or the commitment before that record is zero. -/
theorem verifiesFrom_iff {calls : List (Payload × Option Fault)} {k c : ℕ}
    (hcalls : ∀ c ∈ (latticeRun [] calls).1, c.2 = 0) (h : k + c ≤ calls.length) :
    VerifiesFrom (latticeRun [] calls).2 k c
      ↔ c = 0 ∨ prevCommitment (latticeRun [] calls).2 k = 0 := by
  have hlog : (latticeRun (logBytes 0 []) calls).2 = logBytes 0 ([] ++ calls.map Prod.fst) :=
    latticeRun_of_zero hcalls
  rw [logBytes_nil, List.nil_append] at hlog
  have hlen : (logBytes 0 (calls.map Prod.fst)).length = 96 * calls.length := by
    rw [logBytes_length, List.length_map]
  rw [hlog]
  refine verifiesFrom_iff_prev ⟨calls.length, hlen⟩ (logBytes_chainRule _) ?_
  rwa [hlen, Nat.mul_div_cancel_left _ (by omega)]

/-- The second record of a log, behind a commitment of zeros. -/
theorem verifiesFrom_iff_second :
    VerifiesFrom (latticeRun [] (faultless [zeroPayload, unitPayload])).2 1 1 := by
  have hzeros : prevCommitment (latticeRun [] (faultless [zeroPayload, unitPayload])).2 1 = 0 := by
    rw [latticeRun_nil, prevCommitment, commitmentAt_logBytes 0 _ (by simp)]
    funext i
    have hbyte : sebLatticeCommit 0 zeroPayload i = 0 ^^^ 0 ^^^ 0 := sebLatticeCommit_apply _ _ i
    exact hbyte.trans (show (0 : UInt8) ^^^ 0 ^^^ 0 = 0 by decide)
  exact (verifiesFrom_iff (by rw [latticeRun_nil]; simp [faultless]) (by simp [faultless])).mpr
    (.inr hzeros)

/-- The second record of a log, behind a commitment that is not zero. -/
theorem not_verifiesFrom_second :
    ¬ VerifiesFrom (latticeRun [] (faultless [unitPayload, zeroPayload])).2 1 1 := by
  intro hverifies
  rw [latticeRun_nil] at hverifies
  have hprev := prev_of_accepted (logBytes_chainRule _) (by simp) one_ne_zero hverifies.accepts
  rw [prevCommitment, commitmentAt_logBytes 0 _ (by simp)] at hprev
  have hcommit : sebLatticeCommit 0 unitPayload = 0 := hprev
  have hbyte : sebLatticeCommit 0 unitPayload 1 = 1 := by
    rw [sebLatticeCommit_apply]
    rfl
  rw [hcommit] at hbyte
  exact absurd hbyte (by decide)

/-! ### What is missing at the end -/

/-- What the verifier accepts is there: as many records as it looks for, each of which obeys
the chain rule. -/
def NothingMissing (f : File) (c : ℕ) : Prop :=
  sebLatticeVerify f 0 c = 1 →
    c ≤ f.length / 96
      ∧ ∀ i < c, commitmentAt f i = sebLatticeCommit (prevCommitment f i) (payloadAt f i)

/-- From the first record on the verifier accepts a chain of as many records as it looks for,
or all there are, if the file ends behind one. -/
lemma sebLatticeVerify_eq_one_iff (f : File) (c : ℕ) :
    sebLatticeVerify f 0 c = 1
      ↔ (∀ i < min c (f.length / 96),
            commitmentAt f i = sebLatticeCommit (prevCommitment f i) (payloadAt f i))
        ∧ (c ≤ f.length / 96 ∨ 96 ∣ f.length) := by
  have hloop := verifyLoop_eq_one_iff f 0 (Nat.zero_le _) c
  have htake : (recordCodec.records f).take c
      = (recordCodec.records f).take (min c (f.length / 96)) := by
    rw [← recordCodec.records_length f, List.take_eq_take_min]
  have hrange := linked_range_iff f 0 (k := 0) (c := min c (f.length / 96)) (by omega)
  rw [List.drop_zero] at hrange
  rw [Nat.mul_zero, Nat.cast_zero, List.drop_zero, Nat.zero_add, htake, hrange] at hloop
  rw [sebLatticeVerify, hloop]
  refine and_congr_left fun _ => forall₂_congr fun i _ => ?_
  rw [rangePrev_eq (show prevCommitment f 0 = 0 from rfl), Nat.zero_add]

lemma nothingMissing_iff_file (f : File) (c : ℕ) :
    NothingMissing f c ↔ c ≤ f.length / 96 ∨ ¬ 96 ∣ f.length ∨ ¬ ChainRule f := by
  rw [NothingMissing, sebLatticeVerify_eq_one_iff]
  constructor
  · intro hmissing
    by_contra hnot
    push Not at hnot
    obtain ⟨hlt, h96, hrule⟩ := hnot
    have hle := (hmissing ⟨fun i hi => hrule i (by omega), .inr h96⟩).1
    omega
  · rintro hwhen ⟨hchain, hend⟩
    have hle : c ≤ f.length / 96 := by
      rcases hwhen with hle | hend' | hrule
      · exact hle
      · exact hend.resolve_right hend'
      · by_contra hlt
        exact hrule fun i hi => hchain i (by omega)
    exact ⟨hle, fun i hi => hchain i (by omega)⟩

/-- A log cut between two records is a log. -/
lemma take_logBytes (tip : Poly) (ps : List Payload) (q : ℕ) (h : q ≤ ps.length) :
    (logBytes tip ps).take (96 * q) = logBytes tip (ps.take q) := by
  have hbytes : logBytes tip ps = logBytes tip (ps.take q)
      ++ logBytes ((ps.take q).foldl sebLatticeCommit tip) (ps.drop q) := by
    rw [logBytes, logBytes, logBytes, ← recordCodec.bytes_append, ← link_append,
      List.take_append_drop]
  rw [hbytes, List.take_left']
  rw [logBytes_length, List.length_take, min_eq_left h]

/-- A log that is cut passes for the whole log exactly if it is cut between two records. -/
lemma cut_accepted_iff {ps : List Payload} {m : ℕ} (h : m < 96 * ps.length) :
    sebLatticeVerify ((logBytes 0 ps).take m) 0 ps.length = 1 ↔ 96 ∣ m := by
  have hlen : ((logBytes 0 ps).take m).length = m := by
    rw [List.length_take, logBytes_length]
    omega
  rw [sebLatticeVerify_eq_one_iff, hlen]
  constructor
  · rintro ⟨-, hle | h96⟩
    · omega
    · exact h96
  · rintro ⟨q, rfl⟩
    refine ⟨fun i hi => ?_, .inr ⟨q, rfl⟩⟩
    rw [take_logBytes 0 ps q (by omega)]
    refine logBytes_chainRule _ i ?_
    rw [logBytes_length, List.length_take]
    omega

/-- The verifier accepts nothing that is not there unless the file ends behind a record of
an unbroken chain before the count is reached. A log that lost a part of its end is found out
exactly if it ends inside a record. -/
theorem nothingMissing_iff (f : File) (c : ℕ) (ps : List Payload) :
    (NothingMissing f c ↔ c ≤ f.length / 96 ∨ ¬ 96 ∣ f.length ∨ ¬ ChainRule f)
      ∧ ∀ m < (latticeRun [] (faultless ps)).2.length,
          sebLatticeVerify ((latticeRun [] (faultless ps)).2.take m) 0 ps.length ≠ 1
            ↔ ¬ 96 ∣ m := by
  refine ⟨nothingMissing_iff_file f c, fun m hm => not_congr ?_⟩
  rw [latticeRun_nil] at hm ⊢
  exact cut_accepted_iff (by rwa [logBytes_length] at hm)

/-- The empty file passes for a log of one record, and so does a log of two records that lost
its second one pass for two. -/
theorem not_nothingMissing_cut :
    ¬ NothingMissing [] 1
      ∧ sebLatticeVerify ((latticeRun [] (faultless [zeroPayload, unitPayload])).2.take 96) 0 2
          = 1 := by
  constructor
  · rw [nothingMissing_iff_file]
    rintro (hle | h96 | hrule)
    · exact absurd hle (by decide)
    · exact h96 (by decide)
    · exact hrule fun i hi => absurd hi (Nat.not_lt_zero i)
  · rw [latticeRun_nil]
    have hcut : 96 < 96 * [zeroPayload, unitPayload].length := by simp
    exact (cut_accepted_iff hcut).2 (by decide)

end SovereignBus
