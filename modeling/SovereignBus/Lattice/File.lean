import SovereignBus.Lattice.Circuit
import SovereignBus.Library.Framing

/-!
The log file of `seb/runtime/c_src/seb_lattice.c`: the positioned reads and
writes of its POSIX branch, and the three functions on top of them.

* `Fault`: what the system may do to a call of `seb_lattice_append`; a call
  without a fault transfers all the bytes it asks for. Offsets are integers,
  as no regular file outgrows a `long long`.
* `sebLatticeAppend`, `sebLatticeTip`, `sebLatticeVerify`: the functions of the
  source. The append is cut into the three steps a second writer can come
  between: `latticeFilesize`, `readTip` and `writeRecord`.
* `sebLatticeAppend_eq`: a call without a fault on a file with a readable tip
  writes one record behind the file.
* `verifyLoop_bytes`: the verifier's loop on a file of whole records checks the
  chain rule.
-/

namespace SovereignBus

open Framing

/-- The bytes of a regular file. -/
abbrev File := List UInt8

/-- A record: a payload and the commitment written behind it. -/
abbrev Record := Payload × Poly

/-- The layout of a record: 64 bytes of payload and 32 bytes of commitment. -/
def recordCodec : FixedCodec Record UInt8 96 where
  enc r := List.ofFn r.1 ++ List.ofFn r.2
  dec b := (field b 64 0, field b 32 64)
  width_pos := by omega
  enc_length r := by rw [List.length_append, List.length_ofFn, List.length_ofFn]
  dec_enc r := by
    rw [field_append_left _ (by rw [List.length_ofFn]),
      field_append_right _ (by rw [List.length_ofFn]), List.length_ofFn, Nat.sub_self, field_ofFn,
      field_ofFn]
  enc_dec b hb := by
    rw [ofFn_field (by omega), ofFn_field (by omega), List.drop_zero]
    conv_rhs => rw [← List.take_append_drop 64 b]
    rw [List.take_of_length_le (l := b.drop 64) (by simp [hb])]

/-! ### The system calls -/

/-- The system fault that ends a call of `seb_lattice_append`: the size cannot
be read, the tip is read short, the record is written short, or the flush
fails. A failing transfer is a short one of length 0. -/
inductive Fault where
  | filesize
  | readAt (got : Fin 32)
  | writeAt (put : Fin 96)
  | fsync
  deriving DecidableEq

/-- `lattice_filesize`: `lseek` to the end, `-1` on failure. -/
def latticeFilesize (fault : Option Fault) (f : File) : ℤ :=
  if fault = some .filesize then -1 else f.length

/-- `lattice_read_at`: the bytes `pread` transfers, `none` for its `-1`. A
negative offset is an error, and the end of the file cuts a read short. -/
def latticeReadAt (fault : Option Fault) (f : File) (n : ℕ) (off : ℤ) : Option (List UInt8) :=
  if off < 0 then none
  else
    let b := (f.drop off.toNat).take n
    match fault with
    | some (.readAt got) => some (b.take got)
    | _ => some b

/-- The file after `put` bytes of `pwrite` at `off`; a hole before them is
filled with zeros. -/
def overwrite (f : File) (off : ℕ) (put : List UInt8) : File :=
  if put = [] then f
  else f.take off ++ List.replicate (off - f.length) 0 ++ put ++ f.drop (off + put.length)

/-- `lattice_write_at`: the number of bytes `pwrite` transfers, `-1` at a
negative offset, and the file it leaves. -/
def latticeWriteAt (fault : Option Fault) (f : File) (buf : List UInt8) (off : ℤ) : ℤ × File :=
  if off < 0 then (-1, f)
  else
    let put :=
      match fault with
      | some (.writeAt put) => buf.take put
      | _ => buf
    (put.length, overwrite f off.toNat put)

/-- `lattice_fsync`. -/
def latticeFsync (fault : Option Fault) : ℤ := if fault = some .fsync then -1 else 0

lemma overwrite_end (f : File) (put : List UInt8) : overwrite f f.length put = f ++ put := by
  rw [overwrite]
  split_ifs with h
  · simp [h]
  · simp

lemma overwrite_length {f : File} {off : ℕ} (put : List UInt8) (h : off ≤ f.length) :
    (overwrite f off put).length = max f.length (off + put.length) := by
  rw [overwrite]
  split_ifs with hput
  · subst hput; simp [h]
  · simp only [List.length_append, List.length_take, List.length_replicate, List.length_drop]
    omega

/-! ### Append, tip and verify -/

/-- The step of `seb_lattice_append` that reads the tip of a file it found to
have `sz` bytes: zeros for an empty file, `none` when the call returns `-1`. -/
def readTip (fault : Option Fault) (f : File) (sz : ℤ) : Option Poly :=
  if sz > 0 then
    match latticeReadAt fault f 32 (sz - 32) with
    | some b => if b.length = 32 then some (field b 32 0) else none
    | none => none
  else some 0

/-- The step of `seb_lattice_append` that writes the record at the size it
found and flushes it: the value returned and the file. -/
def writeRecord (fault : Option Fault) (f : File) (sz : ℤ) (record : Record) : ℤ × File :=
  let w := latticeWriteAt fault f (recordCodec.enc record) sz
  if w.1 = 96 then (latticeFsync fault, w.2) else (-1, w.2)

/-- What a call of `seb_lattice_append` leaves: the value it returns, the file,
and the caller's record buffer if the call got as far as filling it. -/
structure Appended where
  ret : ℤ
  file : File
  record : Option Record

/-- `seb_lattice_append`. -/
def sebLatticeAppend (fault : Option Fault) (f : File) (payload : Payload) : Appended :=
  let sz := latticeFilesize fault f
  if sz < 0 then ⟨-1, f, none⟩
  else
    match readTip fault f sz with
    | none => ⟨-1, f, none⟩
    | some tip =>
        let record := (payload, sebLatticeCommit tip payload)
        let w := writeRecord fault f sz record
        ⟨w.1, w.2, some record⟩

/-- `seb_lattice_tip`: the last 32 bytes, zeros for an empty file, `none` for
`-1`. -/
def sebLatticeTip (fault : Option Fault) (f : File) : Option Poly :=
  let sz := latticeFilesize fault f
  if sz < 0 then none
  else if sz = 0 then some 0
  else
    match latticeReadAt fault f 32 (sz - 32) with
    | some b => if b.length = 32 then some (field b 32 0) else none
    | none => none

/-- The loop of `seb_lattice_verify`: `pos` and `expected` are its variables,
the recursion counts `count` down. A read of no bytes breaks the loop. -/
def verifyLoop (f : File) (expected : Poly) (pos : ℤ) : ℕ → ℤ
  | 0 => 1
  | count + 1 =>
      match latticeReadAt none f 96 pos with
      | none => -1
      | some record =>
          if record.length = 0 then 1
          else if record.length ≠ 96 then -1
          else
            let computed := sebLatticeCommit expected (field record 64 0)
            if ctDiff computed (field record 32 64) ≠ 0 then 0
            else verifyLoop f computed (pos + 96) count

/-- `seb_lattice_verify`. -/
def sebLatticeVerify (f : File) (startOffset : ℤ) (count : ℕ) : ℤ :=
  verifyLoop f 0 startOffset count

/-! ### A call without a fault -/

lemma latticeFilesize_none (f : File) : latticeFilesize none f = f.length := by
  simp [latticeFilesize]

/-- The append reads the tip that `seb_lattice_tip` reports. -/
lemma readTip_filesize (f : File) : readTip none f f.length = sebLatticeTip none f := by
  rw [readTip, sebLatticeTip, latticeFilesize_none]
  by_cases h : f.length = 0
  · simp [h]
  · have hpos : (f.length : ℤ) > 0 := by omega
    have hneg : ¬ (f.length : ℤ) < 0 := by omega
    have hzero : ¬ (f.length : ℤ) = 0 := by omega
    simp only [hpos, hneg, hzero, if_true, if_false]

@[simp] lemma sebLatticeTip_nil : sebLatticeTip none [] = some 0 := rfl

lemma writeRecord_filesize (f : File) (record : Record) :
    writeRecord none f f.length record = (0, f ++ recordCodec.enc record) := by
  have hneg : ¬ (f.length : ℤ) < 0 := by omega
  simp [writeRecord, latticeWriteAt, hneg, recordCodec.enc_length, latticeFsync, overwrite_end]

/-- A call without a fault on a file with a readable tip returns 0 and writes
one record behind the file. -/
lemma sebLatticeAppend_eq {f : File} {tip : Poly} (h : sebLatticeTip none f = some tip)
    (payload : Payload) :
    sebLatticeAppend none f payload
      = ⟨0, f ++ recordCodec.enc (payload, sebLatticeCommit tip payload),
          some (payload, sebLatticeCommit tip payload)⟩ := by
  have hneg : ¬ (f.length : ℤ) < 0 := by omega
  simp only [sebLatticeAppend, latticeFilesize_none, readTip_filesize, h, writeRecord_filesize,
    if_neg hneg]

/-- The tip behind a record is its commitment, whatever stands before it. -/
lemma sebLatticeTip_append (f : File) (record : Record) :
    sebLatticeTip none (f ++ recordCodec.enc record) = some record.2 := by
  have hlen : (f ++ recordCodec.enc record).length = f.length + 96 := by
    rw [List.length_append, recordCodec.enc_length]
  have hoff : (((f.length + 96 : ℕ) : ℤ) - 32).toNat = (f ++ List.ofFn record.1).length := by
    rw [List.length_append, List.length_ofFn]; omega
  have hdrop : (f ++ recordCodec.enc record).drop (f ++ List.ofFn record.1).length
      = List.ofFn record.2 := by
    rw [recordCodec, ← List.append_assoc, List.drop_left]
  have hread : latticeReadAt none (f ++ recordCodec.enc record) 32
      (((f ++ recordCodec.enc record).length : ℤ) - 32) = some (List.ofFn record.2) := by
    rw [latticeReadAt, if_neg (by omega), hlen, hoff, hdrop,
      List.take_of_length_le (by rw [List.length_ofFn])]
  have hneg : ¬ ((f ++ recordCodec.enc record).length : ℤ) < 0 := by omega
  have hzero : ¬ ((f ++ recordCodec.enc record).length : ℤ) = 0 := by omega
  simp only [sebLatticeTip, latticeFilesize_none, if_neg hneg, if_neg hzero, hread, field_ofFn,
    List.length_ofFn, if_true]

/-! ### The verifier on whole records -/

/-- The read of the `k`-th record of a file of whole records. -/
lemma latticeReadAt_bytes (rs : List Record) {k : ℕ} (hk : k < rs.length) :
    latticeReadAt none (recordCodec.bytes rs) 96 ((96 * k : ℕ) : ℤ)
      = some (recordCodec.enc rs[k]) := by
  have h := recordCodec.frame_bytes rs [] hk
  rw [List.append_nil, frame] at h
  rw [latticeReadAt, if_neg (by omega), Int.toNat_natCast, h]

/-- The verifier's loop from the `k`-th record on returns 1 when the next
`count` records obey the chain rule, and 0 when they do not. -/
lemma verifyLoop_bytes (rs : List Record) (expected : Poly) {k count : ℕ}
    (h : k + count ≤ rs.length) :
    (Chain.Linked sebLatticeCommit expected ((rs.drop k).take count) →
        verifyLoop (recordCodec.bytes rs) expected ((96 * k : ℕ) : ℤ) count = 1)
      ∧ (¬ Chain.Linked sebLatticeCommit expected ((rs.drop k).take count) →
        verifyLoop (recordCodec.bytes rs) expected ((96 * k : ℕ) : ℤ) count = 0) := by
  induction count generalizing k expected with
  | zero => simp [verifyLoop, Chain.Linked]
  | succ count ih =>
      have hk : k < rs.length := by omega
      have hdec := recordCodec.dec_enc rs[k]
      have hpay : field (recordCodec.enc rs[k]) 64 0 = rs[k].1 := congrArg Prod.fst hdec
      have hcom : field (recordCodec.enc rs[k]) 32 64 = rs[k].2 := congrArg Prod.snd hdec
      have hstep : ((96 * k : ℕ) : ℤ) + 96 = ((96 * (k + 1) : ℕ) : ℤ) := by push_cast; ring
      have hdrop : (rs.drop k).take (count + 1) = rs[k] :: (rs.drop (k + 1)).take count := by
        rw [List.drop_eq_getElem_cons hk, List.take_succ_cons]
      have hloop : verifyLoop (recordCodec.bytes rs) expected ((96 * k : ℕ) : ℤ) (count + 1)
          = if sebLatticeCommit expected rs[k].1 = rs[k].2
              then verifyLoop (recordCodec.bytes rs) rs[k].2 ((96 * (k + 1) : ℕ) : ℤ) count
              else 0 := by
        rw [verifyLoop, latticeReadAt_bytes rs hk]
        simp only [recordCodec.enc_length, hpay, hcom, hstep, ne_eq, ctDiff_eq_zero_iff]
        by_cases hc : sebLatticeCommit expected rs[k].1 = rs[k].2
        · simp [hc]
        · simp [hc]
      have ih' := ih rs[k].2 (k := k + 1) (by omega)
      rw [hloop, hdrop, Chain.Linked, eq_comm (a := rs[k].2)]
      by_cases hc : sebLatticeCommit expected rs[k].1 = rs[k].2
      · simpa [hc] using ih'
      · simp [hc]

/-- The verifier on the first `count` records of a file of whole records. -/
lemma sebLatticeVerify_bytes (rs : List Record) {count : ℕ} (h : count ≤ rs.length) :
    (sebLatticeVerify (recordCodec.bytes rs) 0 count = 1
        ↔ Chain.Linked sebLatticeCommit 0 (rs.take count))
      ∧ (¬ Chain.Linked sebLatticeCommit 0 (rs.take count) →
        sebLatticeVerify (recordCodec.bytes rs) 0 count = 0) := by
  have hloop := verifyLoop_bytes rs 0 (k := 0) (show 0 + count ≤ rs.length by omega)
  simp only [Nat.mul_zero, Nat.cast_zero, List.drop_zero] at hloop
  refine ⟨⟨fun h1 => ?_, hloop.1⟩, hloop.2⟩
  by_contra hnot
  rw [sebLatticeVerify, hloop.2 hnot] at h1
  exact absurd h1 (by decide)

end SovereignBus
