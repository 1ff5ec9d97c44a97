import SovereignBus.Notebook.Cycles
import SovereignBus.Notebook.Nonces
import SovereignBus.Notebook.Receipts

/-!
The release gate and the full check of a receipt in `frontend/prolog/notebook-engine.pl`.

* `KnowledgeBase`: the facts. `allObligationsDischarged`, `verifyReceiptComplete`,
  `isAuthorized`: the predicates of the source.
* `Obliged`: what the first four obligations of the gate ask for.
* `release_gate_iff`: the gate passes, fails or runs on, and exactly when it does which.
* `Complete`, `Ready`: what the full check asks for, and what it asks of a receipt behind the
  gate.
* `verify_receipt_iff`: the full check always ends, and behind the gate all sealed receipts of
  one agent fare alike.
-/

namespace SovereignBus

namespace Notebook

namespace Gate

open Receipts Nonces

/-! ### The facts -/

/-- `cell`, as far as the predicates read it. -/
structure NotebookCell where
  cellIndex : ℤ
  outputHash : Hash

/-- `receipt` without its signature and its timestamp, which nothing reads. -/
structure Receipt where
  receiptID : String
  hash : Hash
  agentID : String
  status : String

/-- `trust_policy`; nothing reads the tier. -/
structure TrustPolicy where
  agentID : String
  capability : String
  expiryTimestamp : ℤ

/-- The facts of the program. Keys are their agents with their versions. -/
structure KnowledgeBase where
  cells : List NotebookCell
  receipts : List Receipt
  links : List (Hash × Hash)
  nonceRecords : List NonceRecord
  contextMaxCounters : List (String × ℤ)
  ed25519PublicKeys : List (String × ℤ)
  activeKeyVersions : List (String × ℤ)
  trustPolicies : List TrustPolicy
  cellDependencies : List (ℤ × ℤ)

variable (kb : KnowledgeBase)

/-- An argument that is unbound or equal. -/
def unifies {A : Type} [DecidableEq A] (arg : Option A) (a : A) : Bool := arg.all (· == a)

/-- `receipt` with its first and its fourth argument. -/
def receipt (receiptID agentID : Option String) : Answers Receipt :=
  .ofList (kb.receipts.filter fun r => unifies receiptID r.receiptID && unifies agentID r.agentID)

/-- `cell` with its fifth argument bound. -/
def cellOfHash (hash : Hash) : Answers NotebookCell :=
  .ofList (kb.cells.filter fun c => hash == c.outputHash)

def trustPolicy (agentID capability : String) : Answers TrustPolicy :=
  .ofList (kb.trustPolicies.filter fun p => agentID == p.agentID && capability == p.capability)

/-- The numbers that facts with a bound first argument give. -/
def numbers (facts : List (String × ℤ)) (name : String) : List ℤ :=
  (facts.filter fun f => name == f.1).map Prod.snd

def activeKeyVersion (agentID : String) : Answers ℤ :=
  .ofList (numbers kb.activeKeyVersions agentID)

def ed25519PublicKey (agentID : String) (keyVersion : ℤ) : Answers (String × ℤ) :=
  .ofList (kb.ed25519PublicKeys.filter fun k => k == (agentID, keyVersion))

/-- `nonce_record` with its first two arguments. -/
def nonceRecordOf (nonce context : Option String) : Answers NonceRecord :=
  .ofList (kb.nonceRecords.filter fun n => unifies nonce n.nonce && unifies context n.context)

def contextMaxCounter (context : String) : Answers ℤ :=
  .ofList (numbers kb.contextMaxCounters context)

/-! ### The predicates -/

/-- `get_current_timestamp`, a fixed number in the source. -/
def currentTimestamp : ℤ := 1719400000000

/-- The fourth obligation for one receipt. -/
def sealerTrusted (r : Receipt) : Answers Unit :=
  if r.status = "sealed" then do
    let _ ← trustPolicy kb r.agentID "seal_receipt"
    let _ ← activeKeyVersion kb r.agentID
    return ()
  else return ()

def allObligationsDischarged (fuel : ℕ) : Answers Unit := do
  let _ ← Answers.forAll (.ofList kb.receipts) fun r => receiptChainLink kb.links r.hash
  let _ ← Answers.forAll (.ofList kb.receipts) fun r => cellOfHash kb r.hash
  let _ ← noReplays kb.nonceRecords
  let _ ← Answers.forAll (.ofList kb.receipts) fun r => sealerTrusted kb r
  acyclicObligation kb.cellDependencies fuel

/-- A policy has not expired: the test that `verify_receipt_complete` makes of it. -/
def notExpired (p : TrustPolicy) : Answers Unit :=
  (Answers.test (p.expiryTimestamp = 0)).or (Answers.test (currentTimestamp < p.expiryTimestamp))

def isAuthorized (agentID capability : String) : Answers Unit := do
  let p ← trustPolicy kb agentID capability
  if p.expiryTimestamp = 0 then return () else Answers.test (currentTimestamp < p.expiryTimestamp)

/-- `verify_receipt_complete`, of which the version and the counter have to be bound. The answer
has the receipt and the record of the nonce. -/
def verifyReceiptComplete (receiptID agentID : Option String) (keyVersion : ℤ)
    (nonce context : Option String) (counter : ℤ) : Answers (Receipt × NonceRecord) := do
  let r ← receipt kb receiptID agentID
  let _ ← (Answers.test (r.status = "success")).or (Answers.test (r.status = "sealed"))
  let active ← activeKeyVersion kb r.agentID
  let _ ← Answers.test (keyVersion ≤ active)
  let _ ← ed25519PublicKey kb r.agentID keyVersion
  let n ← nonceRecordOf kb nonce context
  let _ ← Answers.test (counter ≥ n.monotonicCounter)
  let most ← contextMaxCounter kb n.context
  let _ ← Answers.test (counter > most)
  let p ← trustPolicy kb r.agentID "seal_receipt"
  let _ ← notExpired p
  let _ ← receiptChainLink kb.links r.hash
  return (r, n)

/-! ### What they are for -/

/-- What the first four obligations ask for. -/
structure Obliged : Prop where
  linked : ∀ r ∈ kb.receipts, ∃ prevHash, Linked kb.links r.hash prevHash
  produced : ∀ r ∈ kb.receipts, ∃ c ∈ kb.cells, c.outputHash = r.hash
  counted : ¬ Recounted kb.nonceRecords
  trusted : ∀ r ∈ kb.receipts, r.status = "sealed" →
    (∃ p ∈ kb.trustPolicies, p.agentID = r.agentID ∧ p.capability = "seal_receipt")
      ∧ ∃ active, (r.agentID, active) ∈ kb.activeKeyVersions

/-- The agent has the key, of a version that is not above an active one. -/
def Keyed (agentID : String) (keyVersion : ℤ) : Prop :=
  (agentID, keyVersion) ∈ kb.ed25519PublicKeys
    ∧ ∃ active ≥ keyVersion, (agentID, active) ∈ kb.activeKeyVersions

/-- The nonce is recorded with no higher counter, in a context whose highest one is lower. -/
def Counted (nonce context : Option String) (counter : ℤ) : Prop :=
  ∃ n ∈ kb.nonceRecords, (∀ x ∈ nonce, x = n.nonce) ∧ (∀ x ∈ context, x = n.context)
    ∧ n.monotonicCounter ≤ counter ∧ ∃ most < counter, (n.context, most) ∈ kb.contextMaxCounters

/-- A policy that has not expired lets the agent. -/
def MayDo (agentID capability : String) : Prop :=
  ∃ p ∈ kb.trustPolicies, p.agentID = agentID ∧ p.capability = capability
    ∧ (p.expiryTimestamp = 0 ∨ currentTimestamp < p.expiryTimestamp)

/-- What the full check asks for besides the receipt itself. -/
structure Ready (agentID : String) (keyVersion : ℤ) (nonce context : Option String)
    (counter : ℤ) : Prop where
  keyed : Keyed kb agentID keyVersion
  counted : Counted kb nonce context counter
  maySeal : MayDo kb agentID "seal_receipt"

/-- What the full check asks for. -/
def Complete (receiptID agentID : Option String) (keyVersion : ℤ)
    (nonce context : Option String) (counter : ℤ) : Prop :=
  ∃ r ∈ kb.receipts, (∀ x ∈ receiptID, x = r.receiptID) ∧ (∀ x ∈ agentID, x = r.agentID)
    ∧ (r.status = "success" ∨ r.status = "sealed")
    ∧ (∃ prevHash, Linked kb.links r.hash prevHash)
    ∧ Ready kb r.agentID keyVersion nonce context counter

/-- A goal that is searched as deep as its fuel ends with an answer. -/
def EndsWith (p : ℕ → Answers Unit) (answer : Option Unit) : Prop :=
  ∃ enough, ∀ fuel ≥ enough, (p fuel).first = some answer

/-! ### The full check -/

lemma unifies_iff {A : Type} [DecidableEq A] {arg : Option A} {a : A} :
    unifies arg a = true ↔ ∀ x ∈ arg, x = a := by
  cases arg <;> simp [unifies]

lemma mem_numbers_iff {facts : List (String × ℤ)} {name : String} {x : ℤ} :
    x ∈ numbers facts name ↔ (name, x) ∈ facts := by
  simp [numbers]

lemma decides_receiptChainLink (hash : Hash) :
    (receiptChainLink kb.links hash).Decides (∃ prevHash, Linked kb.links hash prevHash) := by
  refine ⟨_, Answers.first_ofList _, ?_⟩
  rw [List.isSome_head?, Ne, previous_eq_nil_iff]
  simp

lemma decides_notExpired (p : TrustPolicy) : (notExpired p).Decides
    (p.expiryTimestamp = 0 ∨ currentTimestamp < p.expiryTimestamp) :=
  (Answers.decides_test _).or (Answers.decides_test _)

lemma complete_notExpired (p : TrustPolicy) : (notExpired p).complete :=
  Answers.complete_or (Answers.complete_test _) (Answers.complete_test _)

/-- The test of `is_authorized` comes to the same as that of `verify_receipt_complete`. -/
lemma decides_isAuthorized (agentID capability : String) :
    (isAuthorized kb agentID capability).Decides (MayDo kb agentID capability) := by
  have hpolicy : ∀ p : TrustPolicy, (if p.expiryTimestamp = 0 then Pure.pure ()
      else Answers.test (currentTimestamp < p.expiryTimestamp)).Decides
        (p.expiryTimestamp = 0 ∨ currentTimestamp < p.expiryTimestamp) := fun p => by
    split_ifs with hzero
    · exact (Answers.decides_pure ()).congr (by simp [hzero])
    · exact (Answers.decides_test _).congr (by simp [hzero])
  refine (Answers.decides_bind fun p _ => hpolicy p).congr ?_
  simp only [List.mem_filter, Bool.and_eq_true, beq_iff_eq, MayDo, @eq_comm _ agentID,
    @eq_comm _ capability, and_assoc]

open Answers in
lemma decides_verifyReceiptComplete (receiptID agentID : Option String) (keyVersion : ℤ)
    (nonce context : Option String) (counter : ℤ) :
    (verifyReceiptComplete kb receiptID agentID keyVersion nonce context counter).Decides
      (Complete kb receiptID agentID keyVersion nonce context counter) := by
  refine (decides_bind fun r _ =>
    ((decides_test _).or (decides_test _)).bind
      (complete_or (complete_test _) (complete_test _)) <|
    decides_bind fun active _ => (decides_test _).bind (complete_test _) <|
    (decides_filter _ _).bind rfl <|
    decides_bind fun n _ => (decides_test _).bind (complete_test _) <|
    decides_bind fun most _ => (decides_test _).bind (complete_test _) <|
    decides_bind fun p _ => (decides_notExpired p).bind (complete_notExpired p) <|
    (decides_receiptChainLink kb r.hash).bind rfl (decides_pure (r, n))).congr ?_
  simp only [List.mem_filter, Bool.and_eq_true, beq_iff_eq, unifies_iff, mem_numbers_iff,
    exists_eq_right]
  constructor
  · rintro ⟨r, ⟨hr, hid, hagent⟩, hstatus, active, hactive, hle, hkey, n, ⟨hn, hnonce, hcontext⟩,
      hcounter, most, hmost, hlt, p, ⟨hp, hpolicy, hseal⟩, hexpiry, hlinked, -⟩
    exact ⟨r, hr, hid, hagent, hstatus, hlinked,
      { keyed := ⟨hkey, active, hle, hactive⟩
        counted := ⟨n, hn, hnonce, hcontext, hcounter, most, hlt, hmost⟩
        maySeal := ⟨p, hp, hpolicy.symm, hseal.symm, hexpiry⟩ }⟩
  · rintro ⟨r, hr, hid, hagent, hstatus, hlinked, ⟨hkey, active, hle, hactive⟩,
      ⟨n, hn, hnonce, hcontext, hcounter, most, hlt, hmost⟩, p, hp, hpolicy, hseal, hexpiry⟩
    exact ⟨r, ⟨hr, hid, hagent⟩, hstatus, active, hactive, hle, hkey, n, ⟨hn, hnonce, hcontext⟩,
      hcounter, most, hmost, hlt, p, ⟨hp, hpolicy.symm, hseal.symm⟩, hexpiry, hlinked, trivial⟩

/-! ### The gate -/

lemma decides_linked :
    (Answers.forAll (.ofList kb.receipts) fun r => receiptChainLink kb.links r.hash).Decides
      (∀ r ∈ kb.receipts, ∃ prevHash, Linked kb.links r.hash prevHash) :=
  Answers.decides_forAll fun r _ => decides_receiptChainLink kb r.hash

lemma decides_produced :
    (Answers.forAll (.ofList kb.receipts) fun r => cellOfHash kb r.hash).Decides
      (∀ r ∈ kb.receipts, ∃ c ∈ kb.cells, c.outputHash = r.hash) :=
  Answers.decides_forAll fun r _ => (Answers.decides_filter _ _).congr (by
    simp only [beq_iff_eq, @eq_comm _ r.hash])

lemma decides_noReplays (records : List NonceRecord) :
    (noReplays records).Decides (¬ Recounted records) := by
  have hends := Answers.decides_forAll fun (r : NonceRecord) (_ : r ∈ records) =>
    (Answers.decides_bind fun (n : NonceRecord) (_ : n ∈ records.filter fun n =>
      r.nonce == n.nonce && r.context == n.context) =>
        Answers.decides_test (r.monotonicCounter < n.monotonicCounter)).naf
  refine hends.congr ?_
  rw [← noReplays_iff, ← hends.some_iff]
  exact ⟨fun ⟨⟨⟩, h⟩ => h, fun h => ⟨(), h⟩⟩

lemma decides_sealerTrusted (r : Receipt) : (sealerTrusted kb r).Decides (r.status = "sealed" →
    (∃ p ∈ kb.trustPolicies, p.agentID = r.agentID ∧ p.capability = "seal_receipt")
      ∧ ∃ active, (r.agentID, active) ∈ kb.activeKeyVersions) := by
  rw [sealerTrusted]
  split_ifs with hsealed
  · refine ((Answers.decides_filter _ _).bind rfl (Answers.decides_bind fun active _ =>
      Answers.decides_pure ())).congr ?_
    simp only [hsealed, forall_const, mem_numbers_iff, and_true, Bool.and_eq_true, beq_iff_eq,
      @eq_comm _ r.agentID, @eq_comm _ "seal_receipt"]
  · exact (Answers.decides_pure ()).congr (by simp [hsealed])

lemma decides_trusted :
    (Answers.forAll (.ofList kb.receipts) fun r => sealerTrusted kb r).Decides
      (∀ r ∈ kb.receipts, r.status = "sealed" →
        (∃ p ∈ kb.trustPolicies, p.agentID = r.agentID ∧ p.capability = "seal_receipt")
          ∧ ∃ active, (r.agentID, active) ∈ kb.activeKeyVersions) :=
  Answers.decides_forAll fun r _ => decides_sealerTrusted kb r

variable {kb}

/-- The last obligation is only asked if the facts have what the others ask for. -/
lemma first_of_obliged (h : Obliged kb) (fuel : ℕ) : (allObligationsDischarged kb fuel).first
    = (acyclicObligation kb.cellDependencies fuel).first :=
  calc (allObligationsDischarged kb fuel).first
      = _ := ((decides_linked kb).first_forAll_bind _).1 h.linked
    _ = _ := ((decides_produced kb).first_forAll_bind _).1 h.produced
    _ = _ := ((decides_noReplays kb.nonceRecords).first_forAll_bind _).1 h.counted
    _ = _ := ((decides_trusted kb).first_forAll_bind _).1 h.trusted

lemma first_of_not_obliged (h : ¬ Obliged kb) (fuel : ℕ) :
    (allObligationsDischarged kb fuel).first = some none := by
  by_cases hlinked : ∀ r ∈ kb.receipts, ∃ prevHash, Linked kb.links r.hash prevHash
  · refine (((decides_linked kb).first_forAll_bind _).1 hlinked).trans ?_
    by_cases hproduced : ∀ r ∈ kb.receipts, ∃ c ∈ kb.cells, c.outputHash = r.hash
    · refine (((decides_produced kb).first_forAll_bind _).1 hproduced).trans ?_
      by_cases hcounted : ¬ Recounted kb.nonceRecords
      · refine (((decides_noReplays kb.nonceRecords).first_forAll_bind _).1 hcounted).trans ?_
        exact ((decides_trusted kb).first_forAll_bind _).2 fun htrusted =>
          h ⟨hlinked, hproduced, hcounted, htrusted⟩
      · exact ((decides_noReplays kb.nonceRecords).first_forAll_bind _).2 hcounted
    · exact ((decides_produced kb).first_forAll_bind _).2 hproduced
  · exact ((decides_linked kb).first_forAll_bind _).2 hlinked

/-! ### How the gate ends -/

lemma endsWith_unique {p : ℕ → Answers Unit} {answer answer' : Option Unit}
    (h : EndsWith p answer) (h' : EndsWith p answer') : answer = answer' := by
  obtain ⟨enough, hends⟩ := h
  obtain ⟨enough', hends'⟩ := h'
  have hfirst := hends _ (le_max_left enough enough')
  rw [hends' _ (le_max_right enough enough')] at hfirst
  exact (Option.some_inj.mp hfirst).symm

/-- The search for cycles ends only where it is settled. -/
lemma settled_of_obligation {facts : List (ℤ × ℤ)} {fuel : ℕ} {answer : Option Unit}
    (h : (acyclicObligation facts fuel).first = some answer) : Notebook.Settled facts none := by
  rw [acyclicObligation, Answers.first_naf] at h
  obtain ⟨found, hfound, -⟩ := Option.map_eq_some_iff.mp h
  exact Notebook.settled_of_first hfound

lemma obligation_of_settled {facts : List (ℤ × ℤ)} (h : Notebook.Settled facts none) :
    ∃ answer, EndsWith (acyclicObligation facts) answer
      ∧ (answer.isSome ↔ ¬ HasCycle facts none) := by
  obtain ⟨found, ⟨enough, hends⟩, hiff⟩ := Notebook.decided_of_settled h
  refine ⟨if found.isSome then none else some (), ⟨enough, fun fuel hfuel => ?_⟩, ?_⟩
  · rw [acyclicObligation, Answers.first_naf, hends fuel hfuel, Option.map_some]
  · rw [← hiff]
    cases found <;> simp

lemma endsWith_obligation_iff {facts : List (ℤ × ℤ)} {answer : Option Unit} :
    EndsWith (acyclicObligation facts) answer
      ↔ Notebook.Settled facts none ∧ (answer.isSome ↔ ¬ HasCycle facts none) := by
  constructor
  · intro h
    obtain ⟨enough, hends⟩ := id h
    have hsettled := settled_of_obligation (hends _ le_rfl)
    obtain ⟨answer', hends', hiff⟩ := obligation_of_settled hsettled
    obtain rfl := endsWith_unique h hends'
    exact ⟨hsettled, hiff⟩
  · rintro ⟨hsettled, hiff⟩
    obtain ⟨answer', hends', hiff'⟩ := obligation_of_settled hsettled
    have hsame : answer = answer' := by
      rw [← hiff'] at hiff
      match answer, answer' with
      | none, none | some (), some () => rfl
      | none, some () | some (), none => simp at hiff
    exact hsame ▸ hends'

lemma endsWith_iff (kb : KnowledgeBase) (answer : Option Unit) :
    EndsWith (allObligationsDischarged kb) answer
      ↔ Obliged kb ∧ EndsWith (acyclicObligation kb.cellDependencies) answer
        ∨ ¬ Obliged kb ∧ answer = none := by
  by_cases h : Obliged kb
  · simp only [EndsWith, first_of_obliged h, h, true_and, not_true_eq_false, false_and, or_false]
  · simp only [EndsWith, first_of_not_obliged h, h, false_and, not_false_eq_true, true_and,
      false_or, Option.some_inj]
    exact ⟨fun ⟨enough, hends⟩ => (hends _ le_rfl).symm, fun heq => ⟨0, fun _ _ => heq.symm⟩⟩

lemma obliged_of_passed {kb : KnowledgeBase}
    (h : EndsWith (allObligationsDischarged kb) (some ())) : Obliged kb := by
  rw [endsWith_iff] at h
  exact h.elim (fun h => h.1) fun h => by simp at h

/-- The release gate passes exactly if the facts have what its obligations ask for, without a
cycle among the dependencies. It fails exactly if they have not, or there is a cycle to which the
first dependencies that are not clear lead back. Otherwise it runs on, however deep the search. -/
theorem release_gate_iff (kb : KnowledgeBase) :
    (EndsWith (allObligationsDischarged kb) (some ())
        ↔ Obliged kb ∧ ¬ HasCycle kb.cellDependencies none)
      ∧ (EndsWith (allObligationsDischarged kb) none
        ↔ ¬ Obliged kb
          ∨ HasCycle kb.cellDependencies none ∧ Notebook.Settled kb.cellDependencies none)
      ∧ ((∀ fuel, (allObligationsDischarged kb fuel).first = none)
        ↔ Obliged kb ∧ ¬ Notebook.Settled kb.cellDependencies none) := by
  refine ⟨?_, ?_, ?_⟩
  · rw [endsWith_iff, endsWith_obligation_iff]
    simp only [Option.isSome_some, true_iff, reduceCtorEq, and_false, or_false]
    exact and_congr_right fun _ => ⟨fun h => h.2, fun h => ⟨settled_of_acyclic h, h⟩⟩
  · rw [endsWith_iff, endsWith_obligation_iff]
    simp only [Option.isSome_none, Bool.false_eq_true, false_iff, not_not, and_true]
    tauto
  · constructor
    · intro hnone
      have hobliged : Obliged kb := by
        by_contra h
        simpa [first_of_not_obliged h 0] using hnone 0
      refine ⟨hobliged, fun hsettled => ?_⟩
      obtain ⟨answer, ⟨enough, hends⟩, -⟩ := obligation_of_settled hsettled
      have hfirst := hnone enough
      rw [first_of_obliged hobliged, hends _ le_rfl] at hfirst
      simp at hfirst
    · rintro ⟨hobliged, hsettled⟩ fuel
      rw [first_of_obliged hobliged]
      match hfirst : (acyclicObligation kb.cellDependencies fuel).first with
      | none => rfl
      | some answer => exact absurd (settled_of_obligation hfirst) hsettled

/-- The full check of a receipt always ends, and succeeds exactly if the facts have all that it
asks for. Behind a gate that passed, a sealed receipt is verified exactly if its agent is ready:
the receipt itself makes no difference any more. Of the policies the check asks what
`is_authorized` asks. -/
theorem verify_receipt_iff (kb : KnowledgeBase) (receiptID agentID : Option String)
    (keyVersion : ℤ) (nonce context : Option String) (counter : ℤ) :
    (verifyReceiptComplete kb receiptID agentID keyVersion nonce context counter).Decides
        (Complete kb receiptID agentID keyVersion nonce context counter)
      ∧ (EndsWith (allObligationsDischarged kb) (some ()) →
        ∀ r ∈ kb.receipts, r.status = "sealed" →
          (verifyReceiptComplete kb (some r.receiptID) (some r.agentID) keyVersion nonce context
            counter).Decides (Ready kb r.agentID keyVersion nonce context counter))
      ∧ ∀ agent capability,
        (isAuthorized kb agent capability).Decides (MayDo kb agent capability) := by
  refine ⟨decides_verifyReceiptComplete .., fun hgate r hr hsealed => ?_,
    decides_isAuthorized kb⟩
  refine (decides_verifyReceiptComplete ..).congr ⟨?_, fun hready => ?_⟩
  · rintro ⟨r', -, -, hagent, -, -, hready⟩
    rwa [← hagent r.agentID rfl] at hready
  · exact ⟨r, hr, by simp, by simp, .inr hsealed, (obliged_of_passed hgate).linked r hr, hready⟩

end Gate

end Notebook

end SovereignBus
