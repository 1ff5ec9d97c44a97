import SovereignBus.Lattice.Log

/-!
The repository's specifications of the commitment chain against the C code:
`SEB_Lattice.lean` of `seb/verification/lean4`, on arrays of any size read with a default,
`SEB_ChainDeterminism.idr` of `seb/verification/idris`, over a circuit it postulates, and
`SEB_Verification.lean` of `seb/verification/lean4`, whose chains start with a genesis record.

* `Spec.gf256Mul`, `Spec.cyclicConvolve`, `Spec.latticeCommit`, `Spec.chainValid`: the
  functions of the Lean file. `coeffs` reads an array as the circuit does, and
  `Spec.coeffs_latticeCommit` carries the circuit over.
* `spec_chain_valid_iff`: the verifier in C and the validity check in Lean accept the same
  logs.
* `Idris.ChainAt`, `Idris.finalTip`, `Idris.computeCommitments`: the functions of the
  Idris file, over a circuit and its records.
* `chain_contract_realised`: the log of the C append realises the contract of the Idris
  file.
* `genesis_chain_iff`: the chains of `SEB_Verification.lean` are the logs in C with a genesis
  record before them, and a log in C is such a chain only by accident.
-/

namespace SovereignBus

open Framing

/-! ### The Lean file -/

namespace Spec

/-- `gf256_mul`, whose loop is a recursion that counts down. -/
def gf256Mul (x y : UInt8) : UInt8 := go x y 0 8
where
  go : UInt8 → UInt8 → UInt8 → ℕ → UInt8
    | _, _, z, 0 => z
    | x, y, z, n + 1 =>
        let z' := if y &&& 1 == 1 then z ^^^ x else z
        let hi := x &&& 0x80
        let x' := x <<< 1
        let x'' := if hi != 0 then x' ^^^ 0x1B else x'
        go x'' (y >>> 1) z' n

/-- `cyclic_convolve`. -/
def cyclicConvolve (a b : Array UInt8) : Array UInt8 :=
  Array.ofFn (n := 32) fun k =>
    (Array.ofFn (n := 32) fun i =>
      let j := (k.val + 32 - i.val) % 32
      gf256Mul (a.getD i.val 0) (b.getD j 0)).foldl (· ^^^ ·) 0

/-- `K0`. -/
def K0 : Array UInt8 := Array.ofFn (n := 32) fun i => if i.val == 0 then 1 else 0

/-- `K1`. -/
def K1 : Array UInt8 := Array.ofFn (n := 32) fun i => if i.val == 1 then 1 else 0

/-- `K2`. -/
def K2 : Array UInt8 := Array.ofFn (n := 32) fun i => if i.val == 2 then 1 else 0

/-- `genesis_tip`. -/
def genesisTip : Array UInt8 := Array.replicate 32 0

/-- `lattice_commit`. -/
def latticeCommit (prev payload : Array UInt8) : Array UInt8 :=
  let b := Array.ofFn (n := 32) fun i => payload.getD i.val 0
  let c := Array.ofFn (n := 32) fun i => payload.getD (i.val + 32) 0
  let t0 := cyclicConvolve K0 prev
  let t1 := cyclicConvolve K1 b
  let t2 := cyclicConvolve K2 c
  Array.ofFn (n := 32) fun i => t0.getD i.val 0 ^^^ t1.getD i.val 0 ^^^ t2.getD i.val 0

/-- `SebRecord`. -/
structure SebRecord where
  payload : Array UInt8
  commitment : Array UInt8
  deriving DecidableEq

/-- `chain_valid`. -/
def chainValid (records : List SebRecord) : Bool := go records genesisTip
where
  go : List SebRecord → Array UInt8 → Bool
    | [], _ => true
    | r :: rest, prev => (r.commitment == latticeCommit prev r.payload) && go rest r.commitment

end Spec

/-- The first `n` cells of an array, zeros behind its end. -/
def coeffs (n : ℕ) (a : Array UInt8) : Fin n → UInt8 := fun i => a.getD i 0

lemma coeffs_ofFn {n : ℕ} (f : Fin n → UInt8) : coeffs n (Array.ofFn f) = f := by
  funext i
  simp [coeffs]

/-- An array of `n` cells is given by its coefficients. -/
lemma eq_of_coeffs {n : ℕ} {a b : Array UInt8} (ha : a.size = n) (hb : b.size = n)
    (h : coeffs n a = coeffs n b) : a = b := by
  refine Array.ext (ha.trans hb.symm) fun i hi hi' => ?_
  have hcell := congrFun h ⟨i, ha ▸ hi⟩
  simpa [coeffs, hi, hi'] using hcell

lemma ofFn_coeffs {n : ℕ} {a : Array UInt8} (ha : a.size = n) : Array.ofFn (coeffs n a) = a :=
  eq_of_coeffs (by simp) ha (coeffs_ofFn _)

namespace Spec

lemma low_bit_iff : ∀ y : UInt8, (y &&& 1 == 1) = true ↔ y &&& 1 ≠ 0 := by decide +kernel

/-- The recursion makes the passes of the loop in C. -/
lemma gf256Mul_go_eq (x y z : UInt8) (n : ℕ) :
    gf256Mul.go x y z n = (gf256Step^[n] (x, y, z)).2.2 := by
  induction n generalizing x y z with
  | zero => rfl
  | succ n ih =>
      rw [gf256Mul.go, ih, Function.iterate_succ_apply, gf256Step]
      simp only [low_bit_iff, bne_iff_ne]

lemma gf256Mul_eq (x y : UInt8) : gf256Mul x y = SovereignBus.gf256Mul x y :=
  gf256Mul_go_eq x y 0 8

/-- The index of the convolution is the one in C. -/
lemma index_eq (k i : Fin 32) : ((k : ℕ) + 32 - i) % 32 = convIndex k i := by
  rw [convIndex_eq, Fin.sub_def]
  simp only
  omega

/-- The convolution is the one in C of the coefficients. -/
lemma coeffs_cyclicConvolve (a b : Array UInt8) :
    coeffs 32 (cyclicConvolve a b) = SovereignBus.cyclicConvolve (coeffs 32 a) (coeffs 32 b) := by
  rw [cyclicConvolve, coeffs_ofFn]
  funext k
  rw [← Array.foldl_toList, Array.toList_ofFn, List.ofFn_eq_map, List.foldl_map,
    SovereignBus.cyclicConvolve]
  simp only [index_eq, gf256Mul_eq, coeffs]

/-- The constants are monomials in both. -/
lemma coeffs_single (j : Fin 32) :
    coeffs 32 (Array.ofFn (n := 32) fun i => if i.val == j.val then 1 else 0)
      = fun i => if i = j then 1 else 0 := by
  rw [coeffs_ofFn]
  funext i
  simp only [beq_iff_eq, ← Fin.ext_iff]

lemma coeffs_K0 : coeffs 32 K0 = SovereignBus.K0 := coeffs_single 0

lemma coeffs_K1 : coeffs 32 K1 = SovereignBus.K1 := coeffs_single 1

lemma coeffs_K2 : coeffs 32 K2 = SovereignBus.K2 := coeffs_single 2

lemma coeffs_genesisTip : coeffs 32 genesisTip = 0 := by
  funext i
  simp [coeffs, genesisTip]

@[simp] lemma latticeCommit_size (prev payload : Array UInt8) :
    (latticeCommit prev payload).size = 32 := by
  simp [latticeCommit]

/-- The circuit of the Lean file is the one in C, on what it reads of its arrays. -/
lemma coeffs_latticeCommit (prev payload : Array UInt8) :
    coeffs 32 (latticeCommit prev payload)
      = sebLatticeCommit (coeffs 32 prev) (coeffs 64 payload) := by
  have hterm (a b : Array UInt8) (i : Fin 32) : (cyclicConvolve a b).getD i 0
      = SovereignBus.cyclicConvolve (coeffs 32 a) (coeffs 32 b) i :=
    congrFun (coeffs_cyclicConvolve a b) i
  have hlower : (fun i : Fin 32 => payload.getD i 0) = Payload.lower (coeffs 64 payload) := rfl
  have hupper : (fun i : Fin 32 => payload.getD (i + 32) 0)
      = Payload.upper (coeffs 64 payload) := by
    funext i
    simp [Payload.upper, coeffs]
  rw [latticeCommit, coeffs_ofFn]
  funext i
  simp only [hterm, coeffs_ofFn, hlower, hupper, coeffs_K0, coeffs_K1, coeffs_K2]
  rfl

/-- What a record's arrays are as a record of the file. -/
def SebRecord.toRecord (r : SebRecord) : Record := (coeffs 64 r.payload, coeffs 32 r.commitment)

/-- A record of the file as a pair of arrays. -/
def ofRecord (r : Record) : SebRecord := ⟨Array.ofFn r.1, Array.ofFn r.2⟩

lemma toRecord_ofRecord (r : Record) : (ofRecord r).toRecord = r := by
  rw [ofRecord, SebRecord.toRecord, coeffs_ofFn, coeffs_ofFn]

/-- Validity from a tip: the records obey the chain rule, and no commitment is longer or
shorter than 32 bytes. -/
lemma chainValid_go_iff (records : List SebRecord) (prev : Array UInt8) :
    chainValid.go records prev = true
      ↔ (∀ r ∈ records, r.commitment.size = 32)
        ∧ Chain.Linked sebLatticeCommit (coeffs 32 prev) (records.map SebRecord.toRecord) := by
  induction records generalizing prev with
  | nil => simp [chainValid.go, Chain.Linked]
  | cons r rest ih =>
      have hhead : r.commitment = latticeCommit prev r.payload
          ↔ r.commitment.size = 32
            ∧ r.toRecord.2 = sebLatticeCommit (coeffs 32 prev) r.toRecord.1 := by
        rw [SebRecord.toRecord, ← coeffs_latticeCommit]
        constructor
        · exact fun h => ⟨h ▸ latticeCommit_size _ _, congrArg (coeffs 32) h⟩
        · exact fun h => eq_of_coeffs h.1 (latticeCommit_size _ _) h.2
      rw [chainValid.go, Bool.and_eq_true, beq_iff_eq, hhead, ih, List.forall_mem_cons,
        List.map_cons, Chain.Linked]
      exact and_and_and_comm

end Spec

open Spec in
/-- The specification in Lean and the code in C are the same chain. The circuits agree on
arrays of any size; a list of records is valid exactly when its commitments have 32 bytes
and the verifier accepts the file of the records; and the verifier accepts a file of whole
records exactly when these are a valid list. -/
theorem spec_chain_valid_iff :
    (∀ prev payload : Array UInt8,
        latticeCommit prev payload
          = Array.ofFn (sebLatticeCommit (coeffs 32 prev) (coeffs 64 payload)))
      ∧ (∀ records : List SebRecord, chainValid records = true
          ↔ (∀ r ∈ records, r.commitment.size = 32)
            ∧ sebLatticeVerify (recordCodec.bytes (records.map SebRecord.toRecord)) 0
                records.length = 1)
      ∧ ∀ f : File, 96 ∣ f.length → (sebLatticeVerify f 0 (f.length / 96) = 1
          ↔ chainValid ((recordCodec.records f).map ofRecord) = true) := by
  refine ⟨fun prev payload => ?_, fun records => ?_, fun f hf => ?_⟩
  · rw [← coeffs_latticeCommit, ofFn_coeffs (latticeCommit_size _ _)]
  · have hverify := sebLatticeVerify_bytes (records.map SebRecord.toRecord)
      (le_refl (records.map SebRecord.toRecord).length)
    rw [List.take_length, List.length_map] at hverify
    rw [chainValid, chainValid_go_iff, coeffs_genesisTip, hverify.1]
  · have hmap : ((recordCodec.records f).map ofRecord).map SebRecord.toRecord
        = recordCodec.records f := by
      rw [List.map_map]
      exact List.map_id'' toRecord_ofRecord _
    have hsize : ∀ r ∈ (recordCodec.records f).map ofRecord, r.commitment.size = 32 :=
      List.forall_mem_map.mpr fun r _ => by rw [ofRecord, Array.size_ofFn]
    rw [(sebLatticeVerify_whole hf).1, chainRule_iff_linked, chainValid, chainValid_go_iff,
      coeffs_genesisTip, hmap]
    exact (and_iff_right hsize).symm

/-! ### The Idris file -/

namespace Idris

/-- `SebRecord`. -/
structure SebRecord where
  rPayload : Payload
  rCommitment : Poly

/-- `genesisTip`. -/
def genesisTip : Poly := fun _ => 0x00

section

-- the postulated circuit
variable (commitmentFn : Poly → Payload → Poly)

/-- `ChainAt`. -/
def ChainAt : List SebRecord → Poly → Prop
  | [], _ => True
  | r :: rs, prev => r.rCommitment = commitmentFn prev r.rPayload ∧ ChainAt rs r.rCommitment

/-- `ChainValid`. -/
def ChainValid (v : List SebRecord) : Prop := ChainAt commitmentFn v genesisTip

/-- `finalTip`. -/
def finalTip : List SebRecord → Poly → Poly
  | [], prev => prev
  | r :: rs, _ => finalTip rs r.rCommitment

/-- `computeCommitments`. -/
def computeCommitments : List Payload → Poly → List Poly
  | [], _ => []
  | p :: ps, prev =>
      let c := commitmentFn prev p
      c :: computeCommitments ps c

/-- A record as the log writes it. -/
def SebRecord.toRecord (r : SebRecord) : Record := (r.rPayload, r.rCommitment)

variable {commitmentFn}

lemma chainAt_iff_linked (v : List SebRecord) (prev : Poly) :
    ChainAt commitmentFn v prev
      ↔ Chain.Linked commitmentFn prev (v.map SebRecord.toRecord) := by
  induction v generalizing prev with
  | nil => rfl
  | cons r rs ih => exact and_congr_right fun _ => ih r.rCommitment

/-- The records of the computed commitments are the ones the chain writes. -/
lemma zipWith_computeCommitments (ps : List Payload) (prev : Poly) :
    (List.zipWith SebRecord.mk ps (computeCommitments commitmentFn ps prev)).map
        SebRecord.toRecord
      = Chain.link commitmentFn prev ps := by
  induction ps generalizing prev with
  | nil => rfl
  | cons p ps ih => exact congrArg _ (ih (commitmentFn prev p))

/-- The tip of a valid chain folds the circuit over its payloads. -/
lemma finalTip_eq_foldl {v : List SebRecord} {prev : Poly} (h : ChainAt commitmentFn v prev) :
    finalTip v prev = (v.map SebRecord.rPayload).foldl commitmentFn prev := by
  induction v generalizing prev with
  | nil => rfl
  | cons r rs ih => rw [finalTip, ih h.2, h.1, List.map_cons, List.foldl_cons]

/-- A chain is cut into chains, the second one from the tip of the first. -/
lemma chainAt_append (v w : List SebRecord) (prev : Poly) :
    ChainAt commitmentFn (v ++ w) prev
      ↔ ChainAt commitmentFn v prev ∧ ChainAt commitmentFn w (finalTip v prev) := by
  induction v generalizing prev with
  | nil => simp [ChainAt, finalTip]
  | cons r rs ih => rw [List.cons_append, ChainAt, ih, ChainAt, finalTip, and_assoc]

/-- Every record of a valid chain is committed to the tip before it. -/
lemma ChainAt.getElem {v : List SebRecord} {prev : Poly} (h : ChainAt commitmentFn v prev)
    {i : ℕ} (hi : i < v.length) :
    v[i].rCommitment = commitmentFn (finalTip (v.take i) prev) v[i].rPayload := by
  rw [← List.take_append_drop i v, List.drop_eq_getElem_cons hi, chainAt_append] at h
  exact h.2.1

/-- `uniqueCommitments`: valid chains of the same payloads are the same. -/
lemma eq_of_chainAt {v w : List SebRecord} {prev : Poly} (hv : ChainAt commitmentFn v prev)
    (hw : ChainAt commitmentFn w prev)
    (hpay : v.map SebRecord.rPayload = w.map SebRecord.rPayload) : v = w := by
  have hinj : Function.Injective SebRecord.toRecord := by
    rintro ⟨p, c⟩ ⟨p', c'⟩ h
    obtain ⟨rfl, rfl⟩ := Prod.mk.inj h
    rfl
  have hfst (u : List SebRecord) :
      (u.map SebRecord.toRecord).map Prod.fst = u.map SebRecord.rPayload := by
    rw [List.map_map]
    rfl
  rw [chainAt_iff_linked, Chain.linked_iff_eq_link, hfst] at hv hw
  exact hinj.list_map (hv.trans ((congrArg _ hpay).trans hw.symm))

/-- Chains that once carry the same commitment behind the same payloads started from the
same tip, under a circuit injective in the tip. -/
lemma start_eq_of_commitment_eq (hfn : ∀ p, Function.Injective fun t => commitmentFn t p)
    {v w : List SebRecord} {s t : Poly} (hv : ChainAt commitmentFn v s)
    (hw : ChainAt commitmentFn w t)
    (hpay : v.map SebRecord.rPayload = w.map SebRecord.rPayload) {i : ℕ} (hi : i < v.length)
    (hi' : i < w.length) (hcommit : v[i].rCommitment = w[i].rCommitment) : s = t := by
  have hpayi : v[i].rPayload = w[i].rPayload := by
    have h := congrArg (fun l : List Payload => l[i]?) hpay
    simpa [hi, hi'] using h
  have hcut (u : List SebRecord) (r : Poly) (hu : ChainAt commitmentFn u r) :
      finalTip (u.take i) r = ((u.map SebRecord.rPayload).take i).foldl commitmentFn r := by
    have htake : ChainAt commitmentFn (u.take i) r := by
      rw [← List.take_append_drop i u, chainAt_append] at hu
      exact hu.1
    rw [finalTip_eq_foldl htake, List.map_take]
  rw [hv.getElem hi, hw.getElem hi', hpayi] at hcommit
  have htip := hfn _ hcommit
  rw [hcut v s hv, hcut w t hw, hpay] at htip
  exact Chain.foldl_injective commitmentFn hfn _ htip

end

/-- A record of the log as a record of the Idris file. -/
def ofRecord (r : Record) : SebRecord := ⟨r.1, r.2⟩

/-- The records of the Idris file for a payload sequence. -/
def contractChain (ps : List Payload) : List SebRecord :=
  List.zipWith SebRecord.mk ps (computeCommitments sebLatticeCommit ps genesisTip)

lemma contractChain_toRecord (ps : List Payload) :
    (contractChain ps).map SebRecord.toRecord = Chain.link sebLatticeCommit 0 ps :=
  zipWith_computeCommitments ps genesisTip

lemma contractChain_rPayload (ps : List Payload) :
    (contractChain ps).map SebRecord.rPayload = ps := by
  have h := congrArg (List.map Prod.fst) (contractChain_toRecord ps)
  rwa [List.map_map, Chain.link_map_fst] at h

lemma contractChain_valid (ps : List Payload) :
    ChainValid sebLatticeCommit (contractChain ps) := by
  rw [ChainValid, chainAt_iff_linked, contractChain_toRecord]
  exact Chain.linked_link _ _ _

/-- The log is the file of the contract's records. -/
lemma logBytes_eq_contract (ps : List Payload) :
    logBytes 0 ps = recordCodec.bytes ((contractChain ps).map SebRecord.toRecord) := by
  rw [contractChain_toRecord, logBytes]

lemma take_contractChain (ps : List Payload) (i : ℕ) :
    (contractChain ps).take i = contractChain (ps.take i) := by
  have htake : ChainValid sebLatticeCommit ((contractChain ps).take i) := by
    have h := contractChain_valid ps
    rw [← List.take_append_drop i (contractChain ps), ChainValid, chainAt_append] at h
    exact h.1
  refine eq_of_chainAt htake (contractChain_valid _) ?_
  rw [List.map_take, contractChain_rPayload, contractChain_rPayload]

/-- The file cut behind `i` records reports the final tip of these records. -/
lemma sebLatticeTip_cut (ps : List Payload) {i : ℕ} (hi : i ≤ ps.length) :
    sebLatticeTip none ((logBytes 0 ps).take (96 * i))
      = some (finalTip ((contractChain ps).take i) genesisTip) := by
  have hcut : (logBytes 0 ps).take (96 * i) = logBytes 0 (ps.take i) := by
    have hlen : 96 * i = (logBytes 0 (ps.take i)).length := by
      rw [logBytes_length, List.length_take, Nat.min_eq_left hi]
    conv_lhs => rw [← List.take_append_drop i ps, logBytes, Chain.link_append,
      recordCodec.bytes_append, ← logBytes, hlen]
    exact List.take_left
  rw [hcut, sebLatticeTip_logBytes, take_contractChain,
    finalTip_eq_foldl (contractChain_valid (ps.take i)), contractChain_rPayload]
  rfl

end Idris

open Idris in
/-- The circuit in C is one the Idris file postulates, and the log in C realises its
contract: for every payload sequence there is one valid chain and no other, the file of
its records is what the appends write, the tip reported behind `i` records is the final
tip of the first `i` records, to which the next record is committed; a file of whole records
is accepted exactly when these form a valid chain; and two valid chains that share one
commitment behind the same payloads started from the same tip. -/
theorem chain_contract_realised :
    (∀ (p : Payload) (a b : Poly), sebLatticeCommit a p = sebLatticeCommit b p → a = b)
      ∧ (∀ ps : List Payload,
          let chain := List.zipWith SebRecord.mk ps
            (computeCommitments sebLatticeCommit ps genesisTip)
          (∀ other : List SebRecord,
              ChainValid sebLatticeCommit other ∧ other.map SebRecord.rPayload = ps
                ↔ other = chain)
            ∧ (latticeRun [] (faultless ps)).2
                = recordCodec.bytes (chain.map SebRecord.toRecord)
            ∧ ∀ i (hi : i < chain.length),
                sebLatticeTip none ((latticeRun [] (faultless ps)).2.take (96 * i))
                    = some (finalTip (chain.take i) genesisTip)
                  ∧ chain[i].rCommitment
                    = sebLatticeCommit (finalTip (chain.take i) genesisTip) chain[i].rPayload)
      ∧ (∀ f : File, 96 ∣ f.length → (sebLatticeVerify f 0 (f.length / 96) = 1
          ↔ ChainValid sebLatticeCommit ((recordCodec.records f).map ofRecord)))
      ∧ ∀ (v w : List SebRecord) (s t : Poly), ChainAt sebLatticeCommit v s →
          ChainAt sebLatticeCommit w t → v.map SebRecord.rPayload = w.map SebRecord.rPayload →
          ∀ i (hi : i < v.length) (hi' : i < w.length),
            v[i].rCommitment = w[i].rCommitment → s = t := by
  refine ⟨fun p a b h => sebLatticeCommit_injective p h, fun ps => ?_, fun f hf => ?_,
    fun v w s t hv hw hpay i hi hi' => start_eq_of_commitment_eq sebLatticeCommit_injective
      hv hw hpay hi hi'⟩
  · intro chain
    have hchain : chain = contractChain ps := rfl
    rw [hchain, latticeRun_nil]
    refine ⟨fun other => ⟨fun h => ?_, ?_⟩, logBytes_eq_contract ps, fun i hi => ⟨?_, ?_⟩⟩
    · exact eq_of_chainAt h.1 (contractChain_valid ps) (h.2.trans (contractChain_rPayload ps).symm)
    · rintro rfl
      exact ⟨contractChain_valid ps, contractChain_rPayload ps⟩
    · refine sebLatticeTip_cut ps (le_of_lt ?_)
      rwa [← contractChain_rPayload ps, List.length_map]
    · exact (contractChain_valid ps).getElem hi
  · have hmap : ((recordCodec.records f).map ofRecord).map SebRecord.toRecord
        = recordCodec.records f := by
      rw [List.map_map]
      exact List.map_id'' (fun _ => rfl) _
    rw [(sebLatticeVerify_whole hf).1, chainRule_iff_linked, ChainValid, chainAt_iff_linked, hmap]
    rfl

/-! ### The chains with a genesis record -/

namespace Verification

/-- `chain_valid`, over its opaque commitment. -/
def ChainValid (commitment : Poly → Payload → Poly) (genesisTip : Poly) (rs : List Record) :
    Prop :=
  ∃ h : rs.length > 0,
    (rs.head (List.ne_nil_of_length_pos h)).2 = genesisTip
      ∧ ∀ i (hi : i + 1 < rs.length), rs[i + 1].2 = commitment rs[i].2 rs[i + 1].1

/-- Behind its first record a chain obeys the chain rule from the genesis tip. -/
lemma chainValid_cons (commitment : Poly → Payload → Poly) (genesisTip : Poly) (r : Record)
    (rest : List Record) :
    ChainValid commitment genesisTip (r :: rest)
      ↔ r.2 = genesisTip ∧ Chain.Linked commitment genesisTip rest := by
  have hstep : (∀ i (hi : i + 1 < (r :: rest).length),
        (r :: rest)[i + 1].2 = commitment (r :: rest)[i].2 (r :: rest)[i + 1].1)
      ↔ Chain.Linked commitment r.2 rest := by
    rw [Chain.linked_iff_forall]
    constructor
    · intro h i hi
      have := h i (Nat.succ_lt_succ hi)
      cases i with
      | zero => exact this
      | succ i => simpa using this
    · intro h i hi
      have := h i (Nat.lt_of_succ_lt_succ hi)
      cases i with
      | zero => exact this
      | succ i => simpa using this
  rw [ChainValid, exists_prop_of_true (by simp), List.head_cons, hstep]
  constructor
  · rintro ⟨rfl, h⟩
    exact ⟨rfl, h⟩
  · rintro ⟨rfl, h⟩
    exact ⟨rfl, h⟩

end Verification

/-- The circuit keeps the zero tip exactly on payloads that add nothing. -/
lemma sebLatticeCommit_zero_iff (payload : Payload) :
    sebLatticeCommit 0 payload = 0 ↔ contribution payload = 0 := by
  rw [sebLatticeCommit_eq_addStep, funext_iff, funext_iff]
  refine forall_congr' fun k => ?_
  rw [Chain.addStep]
  simp

open Verification in
/-- A chain with a genesis record is one whose first commitment is the genesis tip and whose
other records the verifier in C accepts. A log in C, whose first record is committed already,
is such a chain exactly when its first payload adds nothing to the tip. -/
theorem genesis_chain_iff :
    (∀ rs : List Record, ChainValid sebLatticeCommit 0 rs
        ↔ ∃ r rest, rs = r :: rest ∧ r.2 = 0
          ∧ sebLatticeVerify (recordCodec.bytes rest) 0 rest.length = 1)
      ∧ ∀ ps : List Payload,
          ChainValid sebLatticeCommit 0 (recordCodec.records (latticeRun [] (faultless ps)).2)
            ↔ ∃ p ∈ ps.head?, contribution p = 0 := by
  have hverify (rest : List Record) :
      sebLatticeVerify (recordCodec.bytes rest) 0 rest.length = 1
        ↔ Chain.Linked sebLatticeCommit 0 rest := by
    have h := (sebLatticeVerify_bytes rest (le_refl rest.length)).1
    rwa [List.take_length] at h
  constructor
  · intro rs
    cases rs with
    | nil => exact iff_of_false (fun h => absurd h.1 (by simp)) (by simp)
    | cons r rest =>
        rw [chainValid_cons, ← hverify]
        constructor
        · rintro ⟨hr, hrest⟩
          exact ⟨r, rest, rfl, hr, hrest⟩
        · rintro ⟨r', rest', heq, hr, hrest⟩
          obtain ⟨rfl, rfl⟩ := List.cons.inj heq
          exact ⟨hr, hrest⟩
  · intro ps
    rw [latticeRun_nil, records_logBytes]
    cases ps with
    | nil => exact iff_of_false (fun h => absurd h.1 (by simp [Chain.link])) (by simp)
    | cons p ps =>
        rw [Chain.link, chainValid_cons]
        simp only [List.head?_cons, Option.mem_def, Option.some.injEq, exists_eq_left']
        rw [← sebLatticeCommit_zero_iff]
        refine and_iff_left_of_imp fun hzero => ?_
        rw [hzero]
        exact Chain.linked_link _ _ _

end SovereignBus
