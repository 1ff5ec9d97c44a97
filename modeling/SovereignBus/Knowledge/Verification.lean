import Mathlib

/-!
The verification of query results in `seb/verification/idris/SEB_Knowledge_Verification.idr`.

* `checkTree`, `verifyQuery`: the functions of the source. A proof tree has steps, and a step
  has proof trees as its premises.
* `TreeHolds`: what the check is for, a tree whose steps follow known rules from trees of the
  same kind. `checkTree_iff` says that it decides this.
* `Justified`: a query whose relations are stored or have a tree that holds. The proof table is
  looked into, but its trees are not checked: `LetThrough` are the relations that pass for it.
* `verify_query_iff`: what the verification passes, up to the relations let through; what comes
  out is what went in, and otherwise the error is the one of the first failing check.
* `checkTree_relabel`: the check does not look at what is derived.
-/

namespace SovereignBus

namespace Knowledge

/-! ### Data -/

/-- `Hash256`. -/
abbrev Hash256 := Fin 32 → UInt8

/-- `KnowledgeObject`. -/
structure KnowledgeObject where
  objHash : Hash256
  content : List UInt8
  mimeType : String
  size : ℕ
  createdAt : ℤ

/-- `Relation`. -/
structure Relation where
  subject : Hash256
  predicate : String
  object : Hash256
  weight : Float
  source : String
  proofId : Option String

mutual

/-- `ProofStep`. -/
inductive ProofStep where
  | mkStep (ruleName : String) (premises : List ProofTree) (conclusion : String)

/-- `ProofTree`. -/
inductive ProofTree where
  | mkTree (fact : String) (steps : List ProofStep)

end

/-- `QueryResult`. -/
structure QueryResult where
  objects : List KnowledgeObject
  relations : List Relation
  proofTrees : List ProofTree

/-- `VerifiedResult`. -/
structure VerifiedResult where
  objects : List KnowledgeObject
  relations : List Relation
  proofTrees : List ProofTree

/-- `KnowledgeStore`. -/
structure KnowledgeStore where
  objectHashes : List Hash256
  relationTriples : List (Hash256 × String × Hash256)
  proofTable : List (String × ProofTree)
  validRules : List String

/-! ### The checks -/

/-- `eqHash`. -/
def eqHash (h1 h2 : Hash256) : Bool :=
  (List.zipWith (fun x y => x == y) (List.ofFn h1) (List.ofFn h2)).all id

/-- `store_contains_hash_impl`. -/
def storeContainsHash (store : KnowledgeStore) (h : Hash256) : Bool :=
  store.objectHashes.any (eqHash h)

/-- `store_has_relation_impl`. -/
def storeHasRelation (store : KnowledgeStore) (sub : Hash256) (pred : String) (obj : Hash256) :
    Bool :=
  store.relationTriples.any fun t => eqHash t.1 sub && t.2.1 == pred && eqHash t.2.2 obj

/-- The `lookup` of `find_proof_impl`. -/
def lookup (pid : String) : List (String × ProofTree) → Option ProofTree
  | [] => none
  | kv :: rest => if kv.1 == pid then some kv.2 else lookup pid rest

/-- `find_proof_impl`. -/
def findProof (store : KnowledgeStore) (rel : Relation) : Option ProofTree :=
  match rel.proofId with
  | none => none
  | some pid => lookup pid store.proofTable

section

variable (store : KnowledgeStore)

mutual

/-- `check_step_impl`, without the steps around it, which it does not use. -/
def checkStep : ProofStep → Bool
  | .mkStep ruleName premises conclusion =>
      store.validRules.contains ruleName && !(conclusion == "") && checkTrees premises

/-- `check_tree_impl`. -/
def checkTree : ProofTree → Bool
  | .mkTree fact steps => !(fact == "") && checkSteps steps

/-- `all` over the premises of a step. -/
def checkTrees : List ProofTree → Bool
  | [] => true
  | tree :: trees => checkTree tree && checkTrees trees

/-- `all` over the steps of a tree. -/
def checkSteps : List ProofStep → Bool
  | [] => true
  | step :: steps => checkStep step && checkSteps steps

end

/-- `verify_object`. -/
def verifyObject (obj : KnowledgeObject) : Except String KnowledgeObject :=
  if storeContainsHash store obj.objHash then .ok obj
  else .error "Object not in store: hash mismatch"

/-- `verify_relation`. -/
def verifyRelation (rel : Relation) : Except String Relation :=
  if storeHasRelation store rel.subject rel.predicate rel.object then .ok rel
  else
    match findProof store rel with
    | some _ => .ok rel
    | none => .error "Relation not found and not derivable"

/-- The `fact` of a tree. -/
def ProofTree.fact : ProofTree → String
  | .mkTree fact _ => fact

/-- `verify_proof`. -/
def verifyProof (pt : ProofTree) : Except String ProofTree :=
  if checkTree store pt then .ok pt else .error ("Invalid proof tree for fact: " ++ pt.fact)

/-- `verify_query`. -/
def verifyQuery (qr : QueryResult) : Except String VerifiedResult := do
  let objs ← qr.objects.mapM (verifyObject store)
  let rels ← qr.relations.mapM (verifyRelation store)
  let proofs ← qr.proofTrees.mapM (verifyProof store)
  return ⟨objs, rels, proofs⟩

/-! ### What is verified -/

mutual

/-- A step by a known rule to a conclusion, from trees that hold. -/
inductive StepHolds : ProofStep → Prop where
  | intro {ruleName premises conclusion} (hrule : ruleName ∈ store.validRules)
      (hconclusion : conclusion ≠ "") (hpremises : ∀ tree ∈ premises, TreeHolds tree) :
      StepHolds (.mkStep ruleName premises conclusion)

/-- A tree for a fact, all of whose steps hold. -/
inductive TreeHolds : ProofTree → Prop where
  | intro {fact steps} (hfact : fact ≠ "") (hsteps : ∀ step ∈ steps, StepHolds step) :
      TreeHolds (.mkTree fact steps)

end

/-- What `verify_relation` asks: the relation is stored, or it names an entry of the proof
table. -/
def Supported (rel : Relation) : Prop :=
  (rel.subject, rel.predicate, rel.object) ∈ store.relationTriples
    ∨ ∃ pid ∈ rel.proofId, pid ∈ store.proofTable.map Prod.fst

/-- What `verify_query` asks of a query. -/
structure Passes (qr : QueryResult) : Prop where
  objects : ∀ obj ∈ qr.objects, obj.objHash ∈ store.objectHashes
  relations : ∀ rel ∈ qr.relations, Supported store rel
  proofTrees : ∀ pt ∈ qr.proofTrees, TreeHolds store pt

/-- The tree that the proof table has under a name, in its first entry for it. -/
def TableProof (pid : String) (pt : ProofTree) : Prop :=
  ∃ pre post, store.proofTable = pre ++ (pid, pt) :: post ∧ pid ∉ pre.map Prod.fst

/-- The relation is stored or derived by a tree that holds. -/
def Derivable (rel : Relation) : Prop :=
  (rel.subject, rel.predicate, rel.object) ∈ store.relationTriples
    ∨ ∃ pid ∈ rel.proofId, ∃ pt, TableProof store pid pt ∧ TreeHolds store pt

/-- The relation is not stored, and its tree in the proof table does not hold: it may be the tree
without a fact or a step. -/
def LetThrough (rel : Relation) : Prop :=
  (rel.subject, rel.predicate, rel.object) ∉ store.relationTriples
    ∧ ∃ pid ∈ rel.proofId, ∃ pt, TableProof store pid pt ∧ ¬ TreeHolds store pt

/-- The store justifies the result of a query. -/
structure Justified (qr : QueryResult) : Prop where
  objects : ∀ obj ∈ qr.objects, obj.objHash ∈ store.objectHashes
  relations : ∀ rel ∈ qr.relations, Derivable store rel
  proofTrees : ∀ pt ∈ qr.proofTrees, TreeHolds store pt

end

/-! ### The checks decide it -/

variable {store : KnowledgeStore}

lemma eqHash_iff (h1 h2 : Hash256) : eqHash h1 h2 = true ↔ h1 = h2 := by
  have hzip : List.zipWith (fun x y => x == y) (List.ofFn h1) (List.ofFn h2)
      = List.ofFn fun i => h1 i == h2 i := by
    refine List.ext_getElem (by simp) fun i hi hi' => ?_
    simp
  rw [eqHash, hzip, List.all_eq_true, List.forall_mem_ofFn_iff, funext_iff]
  simp

lemma storeContainsHash_iff (h : Hash256) :
    storeContainsHash store h = true ↔ h ∈ store.objectHashes := by
  simp [storeContainsHash, eqHash_iff]

lemma storeHasRelation_iff (sub : Hash256) (pred : String) (obj : Hash256) :
    storeHasRelation store sub pred obj = true ↔ (sub, pred, obj) ∈ store.relationTriples := by
  simp only [storeHasRelation, List.any_eq_true, Bool.and_eq_true, eqHash_iff, beq_iff_eq]
  constructor
  · rintro ⟨⟨s, p, o⟩, hmem, ⟨rfl, rfl⟩, rfl⟩
    exact hmem
  · exact fun hmem => ⟨_, hmem, ⟨rfl, rfl⟩, rfl⟩

lemma lookup_isSome (pid : String) (table : List (String × ProofTree)) :
    (lookup pid table).isSome = true ↔ pid ∈ table.map Prod.fst := by
  induction table with
  | nil => simp [lookup]
  | cons kv rest ih =>
      rw [lookup, List.map_cons, List.mem_cons]
      by_cases hk : kv.1 = pid
      · simp [hk]
      · simp [hk, ih, Ne.symm hk]

lemma findProof_isSome (rel : Relation) :
    (findProof store rel).isSome = true
      ↔ ∃ pid ∈ rel.proofId, pid ∈ store.proofTable.map Prod.fst := by
  rw [findProof]
  cases hpid : rel.proofId with
  | none => simp
  | some pid => simp [lookup_isSome]

mutual

lemma checkStep_iff : ∀ step, checkStep store step = true ↔ StepHolds store step
  | .mkStep ruleName premises conclusion => by
      rw [checkStep, Bool.and_eq_true, Bool.and_eq_true, checkTrees_iff premises]
      constructor
      · rintro ⟨⟨hrule, hconclusion⟩, hpremises⟩
        exact .intro (by simpa using hrule) (by simpa using hconclusion) hpremises
      · rintro ⟨hrule, hconclusion, hpremises⟩
        exact ⟨⟨by simpa using hrule, by simpa using hconclusion⟩, hpremises⟩

/-- The check decides whether a tree holds. -/
lemma checkTree_iff : ∀ tree, checkTree store tree = true ↔ TreeHolds store tree
  | .mkTree fact steps => by
      rw [checkTree, Bool.and_eq_true, checkSteps_iff steps]
      constructor
      · rintro ⟨hfact, hsteps⟩
        exact .intro (by simpa using hfact) hsteps
      · rintro ⟨hfact, hsteps⟩
        exact ⟨by simpa using hfact, hsteps⟩

lemma checkTrees_iff : ∀ trees, checkTrees store trees = true ↔ ∀ tree ∈ trees, TreeHolds store tree
  | [] => by simp [checkTrees]
  | tree :: trees => by
      rw [checkTrees, Bool.and_eq_true, checkTree_iff tree, checkTrees_iff trees,
        List.forall_mem_cons]

lemma checkSteps_iff : ∀ steps, checkSteps store steps = true ↔ ∀ step ∈ steps, StepHolds store step
  | [] => by simp [checkSteps]
  | step :: steps => by
      rw [checkSteps, Bool.and_eq_true, checkStep_iff step, checkSteps_iff steps,
        List.forall_mem_cons]

end

/-! ### More in the store, other names in the trees -/

/-- Everything in the one store is in the other. -/
structure Extends (store store' : KnowledgeStore) : Prop where
  objectHashes : store.objectHashes ⊆ store'.objectHashes
  relationTriples : store.relationTriples ⊆ store'.relationTriples
  proofTable : store.proofTable.map Prod.fst ⊆ store'.proofTable.map Prod.fst
  validRules : store.validRules ⊆ store'.validRules

mutual

lemma StepHolds.mono {store' : KnowledgeStore} (h : store.validRules ⊆ store'.validRules) :
    ∀ step, StepHolds store step → StepHolds store' step
  | .mkStep _ premises _, .intro hrule hconclusion hpremises =>
      .intro (h hrule) hconclusion (TreeHolds.mono_all h premises hpremises)

lemma TreeHolds.mono {store' : KnowledgeStore} (h : store.validRules ⊆ store'.validRules) :
    ∀ tree, TreeHolds store tree → TreeHolds store' tree
  | .mkTree _ steps, .intro hfact hsteps => .intro hfact (StepHolds.mono_all h steps hsteps)

lemma TreeHolds.mono_all {store' : KnowledgeStore} (h : store.validRules ⊆ store'.validRules) :
    ∀ trees : List ProofTree, (∀ tree ∈ trees, TreeHolds store tree) →
      ∀ tree ∈ trees, TreeHolds store' tree
  | [], _ => by simp
  | tree :: trees, hall => by
      rw [List.forall_mem_cons] at hall ⊢
      exact ⟨TreeHolds.mono h tree hall.1, TreeHolds.mono_all h trees hall.2⟩

lemma StepHolds.mono_all {store' : KnowledgeStore} (h : store.validRules ⊆ store'.validRules) :
    ∀ steps : List ProofStep, (∀ step ∈ steps, StepHolds store step) →
      ∀ step ∈ steps, StepHolds store' step
  | [], _ => by simp
  | step :: steps, hall => by
      rw [List.forall_mem_cons] at hall ⊢
      exact ⟨StepHolds.mono h step hall.1, StepHolds.mono_all h steps hall.2⟩

end

/-- What passes with one store, passes with a store with more in it. -/
lemma Passes.mono {store' : KnowledgeStore} (h : Extends store store') {qr : QueryResult}
    (hqr : Passes store qr) : Passes store' qr where
  objects obj hobj := h.objectHashes (hqr.objects obj hobj)
  relations rel hrel := by
    rcases hqr.relations rel hrel with hstored | ⟨pid, hpid, hproof⟩
    · exact .inl (h.relationTriples hstored)
    · exact .inr ⟨pid, hpid, h.proofTable hproof⟩
  proofTrees pt hpt := TreeHolds.mono h.validRules pt (hqr.proofTrees pt hpt)

section

variable (rename : String → String)

mutual

/-- A step with another conclusion. -/
def relabelStep : ProofStep → ProofStep
  | .mkStep ruleName premises conclusion =>
      .mkStep ruleName (relabelTrees premises) (rename conclusion)

/-- A tree for another fact. -/
def relabelTree : ProofTree → ProofTree
  | .mkTree fact steps => .mkTree (rename fact) (relabelSteps steps)

def relabelTrees : List ProofTree → List ProofTree
  | [] => []
  | tree :: trees => relabelTree tree :: relabelTrees trees

def relabelSteps : List ProofStep → List ProofStep
  | [] => []
  | step :: steps => relabelStep step :: relabelSteps steps

end

variable {rename}

lemma rename_beq (h : ∀ s, rename s = "" ↔ s = "") (s : String) : (rename s == "") = (s == "") := by
  rw [Bool.eq_iff_iff, beq_iff_eq, beq_iff_eq, h]

mutual

lemma checkStep_relabel (h : ∀ s, rename s = "" ↔ s = "") :
    ∀ step, checkStep store (relabelStep rename step) = checkStep store step
  | .mkStep _ premises conclusion => by
      rw [relabelStep, checkStep, checkStep, rename_beq h, checkTrees_relabel h premises]

/-- The check does not tell one name from another. -/
lemma checkTree_relabel (h : ∀ s, rename s = "" ↔ s = "") :
    ∀ tree, checkTree store (relabelTree rename tree) = checkTree store tree
  | .mkTree fact steps => by
      rw [relabelTree, checkTree, checkTree, rename_beq h, checkSteps_relabel h steps]

lemma checkTrees_relabel (h : ∀ s, rename s = "" ↔ s = "") :
    ∀ trees, checkTrees store (relabelTrees rename trees) = checkTrees store trees
  | [] => rfl
  | tree :: trees => by
      rw [relabelTrees, checkTrees, checkTrees, checkTree_relabel h tree,
        checkTrees_relabel h trees]

lemma checkSteps_relabel (h : ∀ s, rename s = "" ↔ s = "") :
    ∀ steps, checkSteps store (relabelSteps rename steps) = checkSteps store steps
  | [] => rfl
  | step :: steps => by
      rw [relabelSteps, checkSteps, checkSteps, checkStep_relabel h step,
        checkSteps_relabel h steps]

end

end

/-! ### Queries -/

/-- A list whose elements are checked one by one: it comes out as it is, or the first element
that fails the check ends the pass. -/
lemma mapM_check {A E : Type} (p : A → Bool) (e : A → E) (l : List A) :
    l.mapM (m := Except E) (fun x => if p x then .ok x else .error (e x))
      = match l.find? fun x => !p x with
        | none => .ok l
        | some x => .error (e x) := by
  induction l with
  | nil => rfl
  | cons x l ih =>
      rw [List.mapM_cons, ih, List.find?_cons]
      cases hx : p x with
      | false => rfl
      | true =>
          cases l.find? fun x => !p x with
          | none => rfl
          | some y => rfl

lemma verifyRelation_eq (store : KnowledgeStore) (rel : Relation) :
    verifyRelation store rel
      = if storeHasRelation store rel.subject rel.predicate rel.object
            || (findProof store rel).isSome
          then .ok rel
          else .error "Relation not found and not derivable" := by
  rw [verifyRelation]
  cases storeHasRelation store rel.subject rel.predicate rel.object with
  | true => rfl
  | false => cases findProof store rel <;> rfl

lemma supported_iff (rel : Relation) :
    (storeHasRelation store rel.subject rel.predicate rel.object
        || (findProof store rel).isSome) = true ↔ Supported store rel := by
  rw [Bool.or_eq_true, storeHasRelation_iff, findProof_isSome, Supported]

/-- The first check that fails, in the order of the passes. -/
inductive FirstError (store : KnowledgeStore) (qr : QueryResult) : String → Prop where
  | object {obj} (hobj : obj ∈ qr.objects) (h : obj.objHash ∉ store.objectHashes) :
      FirstError store qr "Object not in store: hash mismatch"
  | relation {rel} (hobjs : ∀ obj ∈ qr.objects, obj.objHash ∈ store.objectHashes)
      (hrel : rel ∈ qr.relations) (h : ¬ Supported store rel) :
      FirstError store qr "Relation not found and not derivable"
  | proofTree {pre pt post} (hobjs : ∀ obj ∈ qr.objects, obj.objHash ∈ store.objectHashes)
      (hrels : ∀ rel ∈ qr.relations, Supported store rel)
      (hpts : qr.proofTrees = pre ++ pt :: post) (hpre : ∀ t ∈ pre, TreeHolds store t)
      (h : ¬ TreeHolds store pt) :
      FirstError store qr ("Invalid proof tree for fact: " ++ pt.fact)

/-- A query comes out as it went in and passes, or the first failing check gives the
error. -/
lemma verifyQuery_cases (store : KnowledgeStore) (qr : QueryResult) :
    (verifyQuery store qr = .ok ⟨qr.objects, qr.relations, qr.proofTrees⟩ ∧ Passes store qr)
      ∨ ∃ msg, verifyQuery store qr = .error msg ∧ FirstError store qr msg
          ∧ ¬ Passes store qr := by
  have hobject : verifyObject store
      = fun obj => if storeContainsHash store obj.objHash then .ok obj
          else .error "Object not in store: hash mismatch" := rfl
  have hrelation := funext (verifyRelation_eq store)
  have hproof : verifyProof store
      = fun pt => if checkTree store pt then .ok pt
          else .error ("Invalid proof tree for fact: " ++ pt.fact) := rfl
  rw [verifyQuery, hobject, hrelation, hproof, mapM_check, mapM_check, mapM_check]
  cases hobjs : qr.objects.find? fun obj => !storeContainsHash store obj.objHash with
  | some obj =>
      have hmem := List.mem_of_find?_eq_some hobjs
      have hnot : obj.objHash ∉ store.objectHashes := by
        have := List.find?_some hobjs
        rwa [Bool.not_eq_true', Bool.eq_false_iff, Ne, storeContainsHash_iff] at this
      exact .inr ⟨_, rfl, .object hmem hnot, fun h => hnot (h.objects obj hmem)⟩
  | none =>
      have hall : ∀ obj ∈ qr.objects, obj.objHash ∈ store.objectHashes := fun obj hobj => by
        have := List.find?_eq_none.mp hobjs obj hobj
        rwa [Bool.not_eq_true', Bool.not_eq_false, storeContainsHash_iff] at this
      cases hrels : qr.relations.find? fun rel =>
          !(storeHasRelation store rel.subject rel.predicate rel.object
            || (findProof store rel).isSome) with
      | some rel =>
          have hmem := List.mem_of_find?_eq_some hrels
          have hnot : ¬ Supported store rel := by
            have := List.find?_some hrels
            rwa [Bool.not_eq_true', Bool.eq_false_iff, Ne, supported_iff] at this
          exact .inr ⟨_, rfl, .relation hall hmem hnot, fun h => hnot (h.relations rel hmem)⟩
      | none =>
          have hsup : ∀ rel ∈ qr.relations, Supported store rel := fun rel hrel => by
            have := List.find?_eq_none.mp hrels rel hrel
            rwa [Bool.not_eq_true', Bool.not_eq_false, supported_iff] at this
          cases hpts : qr.proofTrees.find? fun pt => !checkTree store pt with
          | some pt =>
              obtain ⟨hfail, pre, post, heq, hpre⟩ := List.find?_eq_some_iff_append.mp hpts
              have hnot : ¬ TreeHolds store pt := by
                rwa [Bool.not_eq_true', Bool.eq_false_iff, Ne, checkTree_iff] at hfail
              refine .inr ⟨_, rfl, .proofTree hall hsup heq (fun t ht => ?_) hnot, fun h =>
                hnot (h.proofTrees pt (by simp [heq]))⟩
              have := hpre t ht
              rwa [Bool.not_not, checkTree_iff] at this
          | none =>
              refine .inl ⟨rfl, hall, hsup, fun pt hpt => ?_⟩
              have := List.find?_eq_none.mp hpts pt hpt
              rwa [Bool.not_eq_true', Bool.not_eq_false, checkTree_iff] at this

lemma verifyQuery_eq_ok (store : KnowledgeStore) (qr : QueryResult) (vr : VerifiedResult) :
    verifyQuery store qr = .ok vr
      ↔ Passes store qr ∧ vr = ⟨qr.objects, qr.relations, qr.proofTrees⟩ := by
  rcases verifyQuery_cases store qr with ⟨hok, hpasses⟩ | ⟨msg, herr, -, hnot⟩
  · rw [hok, Except.ok.injEq, eq_comm]
    exact (and_iff_right hpasses).symm
  · rw [herr]
    exact iff_of_false (by simp) fun h => hnot h.1

lemma verifyQuery_isOk (store : KnowledgeStore) (qr : QueryResult) :
    (verifyQuery store qr).isOk = true ↔ Passes store qr := by
  rcases verifyQuery_cases store qr with ⟨hok, hpasses⟩ | ⟨msg, herr, -, hnot⟩
  · rw [hok]
    exact iff_of_true rfl hpasses
  · rw [herr]
    exact iff_of_false (by simp [Except.isOk, Except.toBool]) hnot

/-- Names in the trees do not matter for a query. -/
lemma passes_relabel {rename : String → String} (h : ∀ s, rename s = "" ↔ s = "")
    (store : KnowledgeStore) (qr : QueryResult) :
    Passes store { qr with proofTrees := relabelTrees rename qr.proofTrees }
      ↔ Passes store qr := by
  have htrees : (∀ pt ∈ relabelTrees rename qr.proofTrees, TreeHolds store pt)
      ↔ ∀ pt ∈ qr.proofTrees, TreeHolds store pt := by
    rw [← checkTrees_iff, checkTrees_relabel h, checkTrees_iff]
  exact ⟨fun hj => ⟨hj.objects, hj.relations, htrees.mp hj.proofTrees⟩,
    fun hj => ⟨hj.objects, hj.relations, htrees.mpr hj.proofTrees⟩⟩

/-! ### What the proof table lets through -/

lemma lookup_eq (pid : String) (table : List (String × ProofTree)) :
    lookup pid table = (table.find? fun kv => kv.1 == pid).map Prod.snd := by
  induction table with
  | nil => rfl
  | cons kv rest ih =>
      rw [lookup, List.find?_cons, ih]
      cases kv.1 == pid <;> rfl

/-- The first entry for a name is the one that is looked up. -/
lemma tableProof_iff {pid : String} {pt : ProofTree} :
    TableProof store pid pt ↔ lookup pid store.proofTable = some pt := by
  rw [lookup_eq, Option.map_eq_some_iff]
  constructor
  · rintro ⟨pre, post, htable, hpre⟩
    refine ⟨(pid, pt), List.find?_eq_some_iff_append.mpr ⟨by simp, pre, post, htable, ?_⟩, rfl⟩
    intro kv hkv
    have hne : kv.1 ≠ pid := fun heq => hpre (heq ▸ List.mem_map_of_mem hkv)
    simpa using hne
  · rintro ⟨⟨k, t⟩, hfind, rfl⟩
    obtain ⟨hk, pre, post, htable, hpre⟩ := List.find?_eq_some_iff_append.mp hfind
    obtain rfl : k = pid := by simpa using hk
    refine ⟨pre, post, htable, fun hmem => ?_⟩
    obtain ⟨kv, hkv, heq⟩ := List.mem_map.mp hmem
    have hne := hpre kv hkv
    simp [heq] at hne

/-- What is asked of a relation says that it is derivable, or let through. -/
lemma supported_iff_derivable (rel : Relation) :
    Supported store rel ↔ Derivable store rel ∨ LetThrough store rel := by
  have htable (pid : String) :
      pid ∈ store.proofTable.map Prod.fst ↔ ∃ pt, TableProof store pid pt := by
    simp only [tableProof_iff, ← lookup_isSome, Option.isSome_iff_exists]
  rw [Supported, Derivable, LetThrough]
  simp only [htable]
  constructor
  · rintro (hstored | ⟨pid, hpid, pt, hpt⟩)
    · exact .inl (.inl hstored)
    · by_cases hholds : TreeHolds store pt
      · exact .inl (.inr ⟨pid, hpid, pt, hpt, hholds⟩)
      · by_cases hstored : (rel.subject, rel.predicate, rel.object) ∈ store.relationTriples
        · exact .inl (.inl hstored)
        · exact .inr ⟨hstored, pid, hpid, pt, hpt, hholds⟩
  · rintro ((hstored | ⟨pid, hpid, pt, hpt, -⟩) | ⟨-, pid, hpid, pt, hpt, -⟩)
    · exact .inl hstored
    · exact .inr ⟨pid, hpid, pt, hpt⟩
    · exact .inr ⟨pid, hpid, pt, hpt⟩

/-- A relation is not let through and derivable. -/
lemma not_letThrough_of_derivable {rel : Relation} (h : Derivable store rel) :
    ¬ LetThrough store rel := by
  rintro ⟨hstored, pid, hpid, pt, hpt, hfails⟩
  rcases h with h | ⟨pid', hpid', pt', hpt', hholds⟩
  · exact hstored h
  · obtain rfl := Option.some.inj (hpid.symm.trans hpid')
    obtain rfl := Option.some.inj ((tableProof_iff.mp hpt).symm.trans (tableProof_iff.mp hpt'))
    exact hfails hholds

/-- The store justifies what passes without a relation that is let through. -/
lemma justified_iff (qr : QueryResult) :
    Justified store qr ↔ Passes store qr ∧ ∀ rel ∈ qr.relations, ¬ LetThrough store rel := by
  constructor
  · rintro ⟨hobjects, hrelations, htrees⟩
    refine ⟨⟨hobjects, fun rel hrel => ?_, htrees⟩, fun rel hrel => ?_⟩
    · exact (supported_iff_derivable rel).mpr (.inl (hrelations rel hrel))
    · exact not_letThrough_of_derivable (hrelations rel hrel)
  · rintro ⟨⟨hobjects, hrelations, htrees⟩, hnot⟩
    refine ⟨hobjects, fun rel hrel => ?_, htrees⟩
    exact ((supported_iff_derivable rel).mp (hrelations rel hrel)).resolve_right (hnot rel hrel)

/-- A relation that is stored nowhere, with a name in the proof table. -/
lemma exists_unstored (store : KnowledgeStore) (pid : String) :
    ∃ rel : Relation, rel.proofId = some pid
      ∧ (rel.subject, rel.predicate, rel.object) ∉ store.relationTriples := by
  have : Infinite String := Infinite.of_injective String.ofList fun _ _ h => String.ofList_inj.mp h
  obtain ⟨predicate, hpredicate⟩ :=
    (store.relationTriples.map fun t => t.2.1).toFinset.exists_notMem
  refine ⟨⟨0, predicate, 0, 1, "", some pid⟩, rfl, fun hmem => hpredicate ?_⟩
  exact List.mem_toFinset.mpr (List.mem_map_of_mem (f := fun t => t.2.1) hmem)

/-- The verification is sound on the stores whose proof tables hold, and on no others. -/
lemma sound_iff (store : KnowledgeStore) :
    (∀ qr, Passes store qr → Justified store qr)
      ↔ ∀ pid pt, TableProof store pid pt → TreeHolds store pt := by
  constructor
  · intro hsound pid pt hpt
    by_contra hfails
    obtain ⟨rel, hpid, hstored⟩ := exists_unstored store pid
    have hthrough : LetThrough store rel := ⟨hstored, pid, hpid, pt, hpt, hfails⟩
    have hpasses : Passes store ⟨[], [rel], []⟩ :=
      ⟨by simp, by simpa using (supported_iff_derivable rel).mpr (.inr hthrough), by simp⟩
    exact ((justified_iff _).mp (hsound _ hpasses)).2 rel (by simp) hthrough
  · rintro htable qr hpasses
    refine (justified_iff qr).mpr ⟨hpasses, ?_⟩
    rintro rel - ⟨-, pid, -, pt, hpt, hfails⟩
    exact hfails (htable pid pt hpt)

/-- What the verification of a query passes. It is the query itself, with stored objects, trees
that hold and supported relations, and the store justifies it up to the relations let through:
on all queries just if the trees of the proof table hold. An error is the one of the first failing
check; a store with more in it passes as much; and the trees of a query are verified whatever
their facts and conclusions say. -/
theorem verify_query_iff (store : KnowledgeStore) (qr : QueryResult) :
    (∀ vr, verifyQuery store qr = .ok vr
        ↔ Passes store qr ∧ vr = ⟨qr.objects, qr.relations, qr.proofTrees⟩)
      ∧ (Justified store qr
        ↔ (verifyQuery store qr).isOk = true ∧ ∀ rel ∈ qr.relations, ¬ LetThrough store rel)
      ∧ ((∀ qr', (verifyQuery store qr').isOk = true → Justified store qr')
        ↔ ∀ pid pt, TableProof store pid pt → TreeHolds store pt)
      ∧ (∀ msg, verifyQuery store qr = .error msg → FirstError store qr msg)
      ∧ (∀ store', Extends store store' → (verifyQuery store qr).isOk →
          verifyQuery store' qr = verifyQuery store qr)
      ∧ ∀ rename : String → String, (∀ s, rename s = "" ↔ s = "") →
          (verifyQuery store { qr with proofTrees := relabelTrees rename qr.proofTrees }).isOk
            = (verifyQuery store qr).isOk := by
  refine ⟨verifyQuery_eq_ok store qr, ?_, ?_, fun msg hmsg => ?_, fun store' hext hok => ?_,
    fun rename h => ?_⟩
  · rw [justified_iff, verifyQuery_isOk]
  · simp only [verifyQuery_isOk, sound_iff]
  · rcases verifyQuery_cases store qr with ⟨hok, -⟩ | ⟨msg', herr, hfirst, -⟩
    · rw [hok] at hmsg
      cases hmsg
    · rw [herr] at hmsg
      exact Except.error.inj hmsg ▸ hfirst
  · have hpasses := (verifyQuery_isOk store qr).mp hok
    rw [(verifyQuery_eq_ok store qr _).mpr ⟨hpasses, rfl⟩]
    exact (verifyQuery_eq_ok store' qr _).mpr ⟨hpasses.mono hext, rfl⟩
  · rw [Bool.eq_iff_iff, verifyQuery_isOk, verifyQuery_isOk, passes_relabel h]

end Knowledge

end SovereignBus
