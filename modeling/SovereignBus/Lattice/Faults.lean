import SovereignBus.Lattice.Tamper

/-!
Runs of `seb_lattice_append` in which calls fail before their record is
complete.

* `LogKept`: what such a run should leave: calls without a fault succeed, the
  verifier accepts the whole file, and the file holds exactly the payloads of
  the calls that returned 0.
* `appendStep_kept`: a failing call that transfers no byte of its record leaves
  the log alone, and a call of any other kind without a torn write appends.
* `appendStep_torn`: a torn write leaves its bytes behind the log. Nothing ever
  removes them, so the file stays longer than its records (`acknowledged_le`).
* `latticeRun_kept_iff`: the run keeps the log exactly when no write stops
  after a first byte.
-/

namespace SovereignBus

open Chain

/-- The payloads of the calls that returned 0, in order. -/
def acknowledged (hist : List ((Payload × Option Fault) × ℤ)) : List Payload :=
  hist.filterMap fun c => if c.2 = 0 then some c.1.1 else none

/-- The run keeps the log. -/
def LogKept (calls : List (Payload × Option Fault)) : Prop :=
  let r := latticeRun [] calls
  (∀ c ∈ r.1, c.1.2 = none → c.2 = 0)
    ∧ 96 ∣ r.2.length
    ∧ sebLatticeVerify r.2 0 (r.2.length / 96) = 1
    ∧ payloads r.2 = acknowledged r.1

/-! ### One call -/

lemma latticeFilesize_of_ne {fault : Option Fault} (h : fault ≠ some .filesize) (f : File) :
    latticeFilesize fault f = f.length := by
  simp [latticeFilesize, h]

/-- Only a fault of the read changes the tip a call reads. -/
lemma readTip_of_ne {fault : Option Fault} (h : ∀ got, fault ≠ some (.readAt got)) (f : File)
    (sz : ℤ) : readTip fault f sz = readTip none f sz := by
  have hread : ∀ n off, latticeReadAt fault f n off = latticeReadAt none f n off := by
    intro n off
    match fault with
    | none | some .filesize | some (.writeAt _) | some .fsync => rfl
    | some (.readAt got) => exact absurd rfl (h got)
  simp only [readTip, hread]

/-- A read of the tip cut short ends the call, except on the empty file, where
no tip is read. -/
lemma readTip_readAt (got : Fin 32) (f : File) :
    readTip (some (.readAt got)) f f.length = if f.length = 0 then some 0 else none := by
  have hgot := got.isLt
  by_cases h : f.length = 0
  · simp [readTip, h]
  · have hpos : (f.length : ℤ) > 0 := by omega
    rw [readTip, if_pos hpos, if_neg h, latticeReadAt]
    by_cases hoff : (f.length : ℤ) - 32 < 0
    · rw [if_pos hoff]
    · simp only [if_neg hoff, List.length_take]
      rw [if_neg (by omega)]

/-- A write that stops leaves the first bytes of the record behind the file. -/
lemma appendStep_torn {f : File} {tip : Poly} (h : sebLatticeTip none f = some tip)
    (payload : Payload) (put : Fin 96) :
    appendStep f (payload, some (.writeAt put))
      = (-1, f ++ (recordCodec.enc (payload, sebLatticeCommit tip payload)).take put) := by
  have hneg : ¬ (f.length : ℤ) < 0 := by omega
  have hput := put.isLt
  have hshort : ¬ ((min (put : ℕ) 96 : ℕ) : ℤ) = 96 := by omega
  have hsize : latticeFilesize (some (.writeAt put)) f = f.length :=
    latticeFilesize_of_ne (by simp) f
  have hread : readTip (some (.writeAt put)) f f.length = readTip none f f.length :=
    readTip_of_ne (by simp) f f.length
  simp only [appendStep, sebLatticeAppend, hsize, hread, readTip_filesize, h, if_neg hneg,
    writeRecord, latticeWriteAt, List.length_take, recordCodec.enc_length, if_neg hshort,
    Int.toNat_natCast, overwrite_end]

/-- Without a readable tip nothing can be appended. -/
lemma appendStep_of_tip_none {f : File} (h : sebLatticeTip none f = none) (payload : Payload) :
    appendStep f (payload, none) = (-1, f) := by
  have hneg : ¬ (f.length : ℤ) < 0 := by omega
  simp only [appendStep, sebLatticeAppend, latticeFilesize_none, readTip_filesize, h, if_neg hneg]

/-- A call that does not tear its record either appends to the log and returns
0, or returns -1 and leaves the log alone. -/
lemma appendStep_kept (ps : List Payload) (c : Payload × Option Fault) (hsync : c.2 ≠ some .fsync)
    (hput : ∀ put, c.2 = some (.writeAt put) → put = 0) :
    appendStep (logBytes 0 ps) c = (0, logBytes 0 (ps ++ [c.1]))
      ∨ appendStep (logBytes 0 ps) c = (-1, logBytes 0 ps) ∧ c.2 ≠ none := by
  obtain ⟨payload, fault⟩ := c
  have htip := sebLatticeTip_logBytes ps
  match fault with
  | none => exact Or.inl (appendStep_logBytes ps payload)
  | some .filesize =>
      exact Or.inr ⟨by simp [appendStep, sebLatticeAppend, latticeFilesize], by simp⟩
  | some (.readAt got) =>
      have hneg : ¬ ((logBytes 0 ps).length : ℤ) < 0 := by omega
      have hread := readTip_readAt got (logBytes 0 ps)
      by_cases hlen : (logBytes 0 ps).length = 0
      · -- the log is empty: no tip is read, and the call goes through
        left
        have hps : ps = [] := by
          rw [logBytes_length] at hlen
          exact List.length_eq_zero_iff.mp (by omega)
        subst hps
        rw [← appendStep_logBytes]
        rfl
      · rw [if_neg hlen] at hread
        refine Or.inr ⟨?_, by simp⟩
        simp only [appendStep, sebLatticeAppend, latticeFilesize_of_ne (by simp :
          some (Fault.readAt got) ≠ some .filesize), if_neg hneg, hread]
  | some (.writeAt put) =>
      have h0 : put = 0 := hput put rfl
      subst h0
      refine Or.inr ⟨?_, by simp⟩
      rw [appendStep_torn htip]
      simp
  | some .fsync => exact absurd rfl hsync

/-- No call shortens the file, and one that returns 0 makes it longer by a
record. -/
lemma appendStep_length (f : File) (c : Payload × Option Fault) :
    f.length ≤ (appendStep f c).2.length
      ∧ ((appendStep f c).1 = 0 → (appendStep f c).2.length = f.length + 96) := by
  by_cases hsz : latticeFilesize c.2 f < 0
  · simp [appendStep, sebLatticeAppend, hsz]
  have hne : c.2 ≠ some .filesize := by
    rintro h
    rw [latticeFilesize, if_pos h] at hsz
    omega
  have hlen := latticeFilesize_of_ne hne f
  cases htip : readTip c.2 f f.length with
  | none => simp [appendStep, sebLatticeAppend, hlen, htip]
  | some tip =>
      have hneg : ¬ (f.length : ℤ) < 0 := by omega
      have hput : ∀ put : List UInt8, f.length ≤ (overwrite f f.length put).length := fun put => by
        rw [overwrite_end, List.length_append]; omega
      simp only [appendStep, sebLatticeAppend, hlen, htip, if_neg hneg, writeRecord,
        latticeWriteAt, Int.toNat_natCast]
      split_ifs with h96
      · refine ⟨hput _, fun _ => ?_⟩
        rw [overwrite_end, List.length_append]
        omega
      · exact ⟨hput _, fun h => by simp at h⟩

/-! ### Runs -/

lemma acknowledged_cons (c : Payload × Option Fault) (ret : ℤ)
    (hist : List ((Payload × Option Fault) × ℤ)) :
    acknowledged ((c, ret) :: hist)
      = if ret = 0 then c.1 :: acknowledged hist else acknowledged hist := by
  by_cases h : ret = 0 <;> simp [acknowledged, h]

lemma latticeRun_cons (f : File) (c : Payload × Option Fault)
    (calls : List (Payload × Option Fault)) :
    latticeRun f (c :: calls)
      = ((c, (appendStep f c).1) :: (latticeRun (appendStep f c).2 calls).1,
          (latticeRun (appendStep f c).2 calls).2) := rfl

/-- Every call that returned 0 has a record's worth of bytes in the file. -/
lemma acknowledged_le (f : File) (calls : List (Payload × Option Fault)) :
    f.length + 96 * (acknowledged (latticeRun f calls).1).length
      ≤ (latticeRun f calls).2.length := by
  induction calls generalizing f with
  | nil => simp [latticeRun, acknowledged]
  | cons c calls ih =>
      obtain ⟨hle, h0⟩ := appendStep_length f c
      have h := ih (appendStep f c).2
      rw [latticeRun_cons, acknowledged_cons]
      split_ifs with hret
      · have h96 := h0 hret
        simp only [List.length_cons]
        omega
      · simp only
        omega

/-- The run invariant: without torn writes the file is the log of the payloads
acknowledged so far. -/
lemma latticeRun_kept (ps : List Payload) (calls : List (Payload × Option Fault))
    (hsync : ∀ c ∈ calls, c.2 ≠ some .fsync)
    (hput : ∀ c ∈ calls, ∀ put, c.2 = some (.writeAt put) → put = 0) :
    (latticeRun (logBytes 0 ps) calls).2
        = logBytes 0 (ps ++ acknowledged (latticeRun (logBytes 0 ps) calls).1)
      ∧ ∀ c ∈ (latticeRun (logBytes 0 ps) calls).1, c.1.2 = none → c.2 = 0 := by
  induction calls generalizing ps with
  | nil => simp [latticeRun, acknowledged]
  | cons c calls ih =>
      have ih' := fun qs => ih qs (fun d hd => hsync d (by simp [hd]))
        fun d hd => hput d (by simp [hd])
      rw [latticeRun_cons, acknowledged_cons]
      rcases appendStep_kept ps c (hsync c (by simp)) (hput c (by simp)) with h | ⟨h, hne⟩
      · obtain ⟨hfile, hret⟩ := ih' (ps ++ [c.1])
        rw [h]
        refine ⟨by simpa using hfile, fun d hd hd0 => ?_⟩
        rcases List.mem_cons.mp hd with rfl | hd'
        · rfl
        · exact hret d hd' hd0
      · obtain ⟨hfile, hret⟩ := ih' ps
        rw [h]
        refine ⟨by simpa using hfile, fun d hd hd0 => ?_⟩
        rcases List.mem_cons.mp hd with rfl | hd'
        · exact absurd hd0 hne
        · exact hret d hd' hd0

/-- A run with a torn write ends in a file that is longer than the records of
its acknowledged payloads. -/
lemma lt_length_of_torn (ps : List Payload) (calls : List (Payload × Option Fault))
    (hsync : ∀ c ∈ calls, c.2 ≠ some .fsync)
    (htorn : ∃ c ∈ calls, ∃ put, c.2 = some (.writeAt put) ∧ put ≠ 0) :
    (logBytes 0 ps).length + 96 * (acknowledged (latticeRun (logBytes 0 ps) calls).1).length
      < (latticeRun (logBytes 0 ps) calls).2.length := by
  induction calls generalizing ps with
  | nil => simp at htorn
  | cons c calls ih =>
      rw [latticeRun_cons, acknowledged_cons]
      by_cases hput : ∀ put, c.2 = some (.writeAt put) → put = 0
      · -- the first call is whole, the torn one comes later
        have htorn' : ∃ d ∈ calls, ∃ put, d.2 = some (.writeAt put) ∧ put ≠ 0 := by
          obtain ⟨d, hd, put, hd2, hne⟩ := htorn
          rcases List.mem_cons.mp hd with rfl | hd'
          · exact absurd (hput put hd2) hne
          · exact ⟨d, hd', put, hd2, hne⟩
        have ih' := fun qs => ih qs (fun d hd => hsync d (by simp [hd])) htorn'
        rcases appendStep_kept ps c (hsync c (by simp)) hput with h | ⟨h, -⟩
        · have hlt := ih' (ps ++ [c.1])
          rw [h]
          simp only [logBytes_length, List.length_append, List.length_cons, List.length_nil,
            if_true] at hlt ⊢
          omega
        · rw [h]
          simpa using ih' ps
      · -- the first call is the torn one: its bytes stay
        push Not at hput
        obtain ⟨put, hc, hne⟩ := hput
        have hstep := appendStep_torn (sebLatticeTip_logBytes ps) c.1 put
        rw [← hc] at hstep
        have hle := acknowledged_le (appendStep (logBytes 0 ps) c).2 calls
        have hpos : 0 < (put : ℕ) := Nat.pos_of_ne_zero fun h => hne (Fin.ext h)
        have hlt := put.isLt
        rw [hstep] at hle ⊢
        simp only [List.length_append, List.length_take, recordCodec.enc_length] at hle ⊢
        rw [if_neg (by simp)]
        omega

/-- Exactly when a run of appends keeps the log, over all runs whose failing
calls transfer fewer than 96 bytes: when no write stops after a first byte. -/
theorem latticeRun_kept_iff (calls : List (Payload × Option Fault))
    (hsync : ∀ c ∈ calls, c.2 ≠ some .fsync) :
    LogKept calls ↔ ∀ c ∈ calls, ∀ put, c.2 = some (.writeAt put) → put = 0 := by
  constructor
  · rintro ⟨-, h96, -, hpay⟩
    by_contra hnot
    push Not at hnot
    have hlt := lt_length_of_torn [] calls hsync hnot
    have hcount := congrArg List.length hpay
    simp only [payloads, List.length_map, recordCodec.records_length] at hcount
    rw [logBytes_nil, List.length_nil, Nat.zero_add] at hlt
    have hmul := Nat.mul_div_cancel' h96
    omega
  · intro hput
    obtain ⟨hfile, hret⟩ := latticeRun_kept [] calls hsync hput
    rw [logBytes_nil] at hfile hret
    rw [List.nil_append] at hfile
    refine ⟨hret, ?_, ?_, ?_⟩
    · rw [hfile, logBytes_length]
      exact Dvd.intro _ rfl
    · rw [hfile, logBytes_length, Nat.mul_div_cancel_left _ (by omega)]
      exact sebLatticeVerify_logBytes _ le_rfl
    · rw [hfile, payloads_logBytes]

/-- A run whose only failing call transfers nothing. -/
theorem latticeRun_kept_iff_stopped :
    LogKept [(zeroPayload, some (.writeAt 0)), (unitPayload, none)]
      ↔ ∀ c ∈ [(zeroPayload, some (Fault.writeAt 0)), (unitPayload, none)],
          ∀ put, c.2 = some (.writeAt put) → put = 0 :=
  latticeRun_kept_iff _ (by simp)

/-- One byte of a first record, and no later append reads a tip. -/
theorem not_logKept_torn :
    ¬ LogKept [(zeroPayload, some (.writeAt 1)), (unitPayload, none)] := by
  rintro ⟨hret, -⟩
  have hfile : (appendStep [] (zeroPayload, some (.writeAt 1))).2.length = 1 := by
    rw [appendStep_torn sebLatticeTip_nil, List.nil_append, List.length_take,
      recordCodec.enc_length]
    rfl
  have htip : sebLatticeTip none (appendStep [] (zeroPayload, some (.writeAt 1))).2 = none := by
    simp [sebLatticeTip, latticeFilesize_none, hfile, latticeReadAt]
  have h := hret ((unitPayload, none), (appendStep (appendStep []
    (zeroPayload, some (.writeAt 1))).2 (unitPayload, none)).1) (by simp [latticeRun_cons]) rfl
  rw [appendStep_of_tip_none htip] at h
  exact absurd h (by simp)

end SovereignBus
