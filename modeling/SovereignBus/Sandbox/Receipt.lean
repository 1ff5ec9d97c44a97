import SovereignBus.Sandbox.Subleq
import SovereignBus.Lattice.Log

/-!
The receipts of `seb/runtime/wasm/seb_sandbox.wat`, from the page of the sandbox to the chain.

* `store64`, `emitReceipt`, `getReceiptPtr`: the functions of the source.
* `Receipt.payload`: the 64 bytes of a receipt, as the source lays them out.
* `contribution_payload`: behind the reserved zeros the circuit moves the receipt by one place
  and loses nothing of it.
* `receipts_bound`: what the host reads behind a run is the receipt of that run, and the
  commitments of a chain of receipts tell every one of them.
-/

namespace SovereignBus

namespace Sandbox

/-! ### The receipt region -/

/-- `i64.store`, little endian. -/
def store64 (mem : Memory) (addr : Word) (value : BitVec 64) : Except Trap Memory :=
  if addr.toNat + 8 ≤ 65536 then
    .ok fun i =>
      if addr.toNat ≤ i.val ∧ i.val < addr.toNat + 8 then
        value.extractLsb' (8 * (i.val - addr.toNat)) 8
      else mem i
  else .error .outOfBounds

/-- `$receipt_base`. -/
def receiptBase : Word := 0x8000#32

/-- `emit_receipt`. -/
def emitReceipt (mem : Memory) (finalPc steps verdict : Word) : Except Trap Memory := do
  let base := receiptBase
  let mem ← store64 mem base 0x0500#64
  let mem ← store64 mem (base + 8#32) (finalPc.setWidth 64)
  let mem ← store64 mem (base + 16#32) (steps.setWidth 64)
  let mem ← store64 mem (base + 24#32) (verdict.setWidth 64)
  let mem ← store64 mem (base + 32#32) 0#64
  let mem ← store64 mem (base + 40#32) 0#64
  let mem ← store64 mem (base + 48#32) 0#64
  store64 mem (base + 56#32) 0#64

/-- `get_receipt_ptr`. -/
def getReceiptPtr : Word := receiptBase

/-- The 64 bytes at an address, which the host reads as a payload. -/
def payloadAt (mem : Memory) (addr : Word) : Payload := fun i =>
  if h : addr.toNat + i.val < 65536 then UInt8.ofBitVec (mem ⟨addr.toNat + i.val, h⟩) else 0

/-- What a receipt says. -/
structure Receipt where
  finalPc : Word
  steps : Word
  verdict : Word
deriving DecidableEq

/-- The eight words of a receipt. -/
def Receipt.words (r : Receipt) : List (BitVec 64) :=
  [0x0500#64, r.finalPc.setWidth 64, r.steps.setWidth 64, r.verdict.setWidth 64, 0, 0, 0, 0]

/-- The byte `k` of words that stand one behind the other, little endian. -/
def byteOf (words : List (BitVec 64)) (k : ℕ) : BitVec 8 :=
  (words.getD (k / 8) 0).extractLsb' (8 * (k % 8)) 8

/-- The 64 bytes of a receipt. -/
def Receipt.payload (r : Receipt) : Payload := fun i => UInt8.ofBitVec (byteOf r.words i)

/-- A run of the sandbox and its receipt: the payload that the host reads, and the page. -/
def runAndSeal (mem : Memory) (pc maxSteps steps verdict : Word) :
    Except Trap (Payload × Memory) := do
  let (finalPc, mem) ← runSubleq mem pc maxSteps
  let mem ← emitReceipt mem finalPc steps verdict
  return (payloadAt mem getReceiptPtr, mem)

/-! ### What `emit_receipt` writes -/

/-- Words that are written one behind the other. -/
def writeWords (mem : Memory) (base : ℕ) (words : List (BitVec 64)) : Memory := fun i =>
  if base ≤ i.val ∧ i.val < base + 8 * words.length then byteOf words (i.val - base) else mem i

lemma store64_writeWords {mem : Memory} {base : ℕ} {words : List (BitVec 64)} {addr : Word}
    (haddr : addr.toNat = base + 8 * words.length) (hin : addr.toNat + 8 ≤ 65536)
    (w : BitVec 64) :
    store64 (writeWords mem base words) addr w = .ok (writeWords mem base (words ++ [w])) := by
  rw [store64, if_pos hin, haddr]
  congr 1
  funext i
  rw [writeWords, writeWords, List.length_append, List.length_singleton]
  by_cases hlast : base + 8 * words.length ≤ i.val ∧ i.val < base + 8 * words.length + 8
  · have hdiv : (i.val - base) / 8 = words.length := by omega
    have hmod : (i.val - base) % 8 = i.val - (base + 8 * words.length) := by omega
    rw [if_pos hlast, if_pos (by omega), byteOf, hdiv, hmod]
    simp
  · rw [if_neg hlast]
    by_cases hin : base ≤ i.val ∧ i.val < base + 8 * words.length
    · have hdiv : (i.val - base) / 8 < words.length := by omega
      rw [if_pos hin, if_pos (by omega), byteOf, byteOf, List.getD_append _ _ _ _ hdiv]
    · rw [if_neg hin, if_neg (by omega)]

/-- `emit_receipt` never traps, and writes the words of the receipt over the receipt region. -/
lemma emitReceipt_eq (mem : Memory) (r : Receipt) :
    emitReceipt mem r.finalPc r.steps r.verdict = .ok (writeWords mem 0x8000 r.words) := by
  have hnil : writeWords mem 0x8000 [] = mem := by
    funext i
    rw [writeWords, if_neg (by simp)]
  have hwords : emitReceipt (writeWords mem 0x8000 []) r.finalPc r.steps r.verdict
      = .ok (writeWords mem 0x8000 r.words) := by
    refine Except.bind_eq_ok.mpr ⟨_, store64_writeWords rfl (by decide) _, ?_⟩
    refine Except.bind_eq_ok.mpr ⟨_, store64_writeWords rfl (by decide) _, ?_⟩
    refine Except.bind_eq_ok.mpr ⟨_, store64_writeWords rfl (by decide) _, ?_⟩
    refine Except.bind_eq_ok.mpr ⟨_, store64_writeWords rfl (by decide) _, ?_⟩
    refine Except.bind_eq_ok.mpr ⟨_, store64_writeWords rfl (by decide) _, ?_⟩
    refine Except.bind_eq_ok.mpr ⟨_, store64_writeWords rfl (by decide) _, ?_⟩
    refine Except.bind_eq_ok.mpr ⟨_, store64_writeWords rfl (by decide) _, ?_⟩
    exact store64_writeWords rfl (by decide) _
  rwa [hnil] at hwords

/-- The host reads the receipt. -/
lemma payloadAt_writeWords (mem : Memory) (r : Receipt) :
    payloadAt (writeWords mem 0x8000 r.words) getReceiptPtr = r.payload := by
  funext i
  have hi := i.isLt
  have hptr : getReceiptPtr.toNat = 0x8000 := rfl
  have hlen : r.words.length = 8 := rfl
  rw [payloadAt, dif_pos (by omega), writeWords, if_pos (by simp only [hptr, hlen]; omega)]
  simp only [hptr, Nat.add_sub_cancel_left]
  rfl

/-! ### What the circuit keeps of a receipt -/

lemma eq_of_bytes {w w' : BitVec 64}
    (h : ∀ k < 8, w.extractLsb' (8 * k) 8 = w'.extractLsb' (8 * k) 8) : w = w' := by
  refine BitVec.eq_of_getLsbD_eq fun j hj => ?_
  have hbit := congrArg (fun b => b.getLsbD (j % 8)) (h (j / 8) (by omega))
  have hsum : 8 * (j / 8) + j % 8 = j := Nat.div_add_mod j 8
  simpa [BitVec.getLsbD_extractLsb', hsum, Nat.mod_lt] using hbit

/-- Words whose bytes agree agree. -/
lemma words_eq {ws ws' : List (BitVec 64)} {n : ℕ}
    (h : ∀ k < 8 * n, byteOf ws k = byteOf ws' k) {j : ℕ} (hj : j < n) :
    ws.getD j 0 = ws'.getD j 0 := by
  refine eq_of_bytes fun k hk => ?_
  have hbyte := h (8 * j + k) (by omega)
  have hdiv : (8 * j + k) / 8 = j := by omega
  have hmod : (8 * j + k) % 8 = k := by omega
  rwa [byteOf, byteOf, hdiv, hmod] at hbyte

/-- The first 32 bytes tell the receipt. -/
lemma eq_of_lower {r r' : Receipt} (h : Payload.lower r.payload = Payload.lower r'.payload) :
    r = r' := by
  have hbytes : ∀ k < 8 * 4, byteOf r.words k = byteOf r'.words k := by
    intro k hk
    have hbyte := congrFun h ⟨k, hk⟩
    exact congrArg UInt8.toBitVec hbyte
  have hword : ∀ {v v' : Word}, v.setWidth 64 = v'.setWidth 64 → v = v' := by
    intro v v' hv
    have hnat := congrArg BitVec.toNat hv
    rw [BitVec.toNat_setWidth_of_le (by norm_num), BitVec.toNat_setWidth_of_le (by norm_num)]
      at hnat
    exact BitVec.eq_of_toNat_eq hnat
  obtain ⟨finalPc, steps, verdict⟩ := r
  obtain ⟨finalPc', steps', verdict'⟩ := r'
  rw [Receipt.mk.injEq]
  exact ⟨hword (words_eq hbytes (j := 1) (by norm_num)),
    hword (words_eq hbytes (j := 2) (by norm_num)),
    hword (words_eq hbytes (j := 3) (by norm_num))⟩

/-- The reserved bytes are zeros. -/
lemma upper_payload (r : Receipt) : Payload.upper r.payload = 0 := by
  funext i
  have hi := i.isLt
  have hzero : r.words.getD ((32 + i.val) / 8) 0 = 0 := by
    obtain h | h | h | h : (32 + i.val) / 8 = 4 ∨ (32 + i.val) / 8 = 5 ∨ (32 + i.val) / 8 = 6
        ∨ (32 + i.val) / 8 = 7 := by
      omega
    all_goals
      rw [h]
      rfl
  have hbyte : byteOf r.words (32 + i.val) = 0#8 := by
    rw [byteOf, hzero]
    exact BitVec.eq_of_getLsbD_eq fun j _ => by simp
  exact congrArg UInt8.ofBitVec hbyte

/-- The circuit moves the bytes of a receipt by one place. -/
lemma contribution_payload (r : Receipt) (k : Fin 32) :
    contribution r.payload k = Payload.lower r.payload (k - 1) := by
  have hupper := congrFun (upper_payload r) (k - 2)
  rw [Payload.upper] at hupper
  rw [contribution, hupper]
  exact xor_zero _

/-- So a receipt is told by what it adds to the tip. -/
lemma commit_payload_injOn (tip : Poly) :
    Set.InjOn (sebLatticeCommit tip) (Set.range Receipt.payload) := by
  rintro _ ⟨r, rfl⟩ _ ⟨r', rfl⟩ h
  refine congrArg Receipt.payload (eq_of_lower ?_)
  funext i
  have hcontribution : contribution r.payload = contribution r'.payload := by
    rw [sebLatticeCommit_eq_addStep] at h
    exact LawfulXor.xor_right_inj.mp h
  have hbyte := congrFun hcontribution (i + 1)
  rwa [contribution_payload, contribution_payload, add_sub_cancel_right] at hbyte

/-- The file that the receipts make when they are appended one after the other. -/
def receiptLog (rs : List Receipt) : File :=
  (latticeRun [] (faultless (rs.map Receipt.payload))).2

lemma records_receiptLog (rs : List Receipt) :
    recordCodec.records (receiptLog rs)
      = Chain.link sebLatticeCommit 0 (rs.map Receipt.payload) := by
  rw [receiptLog, latticeRun_nil, records_logBytes]

/-- The receipts of the sandbox, from the page to the chain. A run that does not trap gets a
receipt, whatever it wrote into the receipt region: the host reads the last `pc` with the steps
and the verdict it handed in, and the rest of the page is as the run left it. Appended to an
empty file the receipts stand there in order, and two lists of receipts with the same
commitments are the same list. -/
theorem receipts_bound :
    (∀ (mem : Memory) (pc maxSteps steps verdict : Word),
      match runSubleq mem pc maxSteps with
      | .error e => runAndSeal mem pc maxSteps steps verdict = .error e
      | .ok (finalPc, after) =>
          ∃ page, runAndSeal mem pc maxSteps steps verdict
              = .ok (Receipt.payload ⟨finalPc, steps, verdict⟩, page)
            ∧ ∀ i, i.val < 0x8000 ∨ 0x8040 ≤ i.val → page i = after i)
      ∧ (∀ rs, (recordCodec.records (receiptLog rs)).map Prod.fst = rs.map Receipt.payload)
      ∧ ∀ rs rs', (recordCodec.records (receiptLog rs)).map Prod.snd
        = (recordCodec.records (receiptLog rs')).map Prod.snd ↔ rs = rs' := by
  refine ⟨fun mem pc maxSteps steps verdict => ?_, fun rs => ?_, fun rs rs' => ?_⟩
  · cases hrun : runSubleq mem pc maxSteps with
    | error e => rw [runAndSeal, hrun]; rfl
    | ok r =>
        obtain ⟨finalPc, after⟩ := r
        refine ⟨writeWords after 0x8000 (Receipt.words ⟨finalPc, steps, verdict⟩), ?_, ?_⟩
        · rw [runAndSeal, hrun]
          refine Except.bind_eq_ok.mpr ⟨_, rfl, ?_⟩
          refine Except.bind_eq_ok.mpr ⟨_, emitReceipt_eq after ⟨finalPc, steps, verdict⟩, ?_⟩
          rw [payloadAt_writeWords]
          rfl
        · intro i hi
          have hlen : (Receipt.words ⟨finalPc, steps, verdict⟩).length = 8 := rfl
          rw [writeWords, if_neg (by rw [hlen]; omega)]
  · rw [records_receiptLog, Chain.link_map_fst]
  · rw [records_receiptLog, records_receiptLog,
      Chain.link_map_snd_inj sebLatticeCommit commit_payload_injOn 0 (by simp) (by simp)]
    refine ⟨fun h => ?_, fun h => by rw [h]⟩
    have hinj : Function.Injective Receipt.payload := fun r r' h =>
      eq_of_lower (congrArg Payload.lower h)
    exact List.map_injective_iff.mpr hinj h

end Sandbox

end SovereignBus
