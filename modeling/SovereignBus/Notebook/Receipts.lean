import SovereignBus.Library.Walk

/-!
The check of the receipt chain of `frontend/prolog/notebook-engine.pl`.

* `receiptChainLink`, `chainReachesGenesis`, `verifyCellChainIntegrity`: the predicates of the
  source, searched depth first, as deep as their fuel.
* `Intact`: from the hash of every receipt, links lead to the genesis hash.
* `Decided`: the check ends, and succeeds exactly if the chain is intact.
* `Settled`: a receipt has no link, or each is led to genesis until one from which neither
  genesis nor a loop can be reached.
* `chain_decided_iff`: the check is decided exactly if it is settled, which it is where no
  links form a loop (`decided_of_acyclic`).
* `loop_undecided`: links that form a loop make it run on.
-/

namespace SovereignBus

namespace Notebook

namespace Receipts

open Relation

/-- A hash, which is an atom. -/
abbrev Hash := String

/-- The previous hash of the first receipt. -/
def genesis : Hash := "0000000000000000000000000000000000000000000000000000000000000000"

def IsGenesisHash (hash : Hash) : Prop := hash = genesis

instance : DecidablePred IsGenesisHash := fun hash => inferInstanceAs (Decidable (hash = genesis))

/-- The previous hashes that the links of a hash name, in the order of the facts. -/
def previous (links : List (Hash × Hash)) (hash : Hash) : List Hash :=
  (links.filter fun l => hash == l.1).map Prod.snd

/-- `receipt_chain_link` with its first argument bound. -/
def receiptChainLink (links : List (Hash × Hash)) (hash : Hash) : Answers Hash :=
  .ofList (previous links hash)

def chainReachesGenesis (links : List (Hash × Hash)) : ℕ → Hash → Answers Unit
  | 0, _ => .stuck
  | fuel + 1, hash => do
      let prevHash ← receiptChainLink links hash
      if IsGenesisHash prevHash then return () else chainReachesGenesis links fuel prevHash

/-- `verify_cell_chain_integrity`, for the hashes of the receipts. -/
def verifyCellChainIntegrity (receipts : List Hash) (links : List (Hash × Hash)) (fuel : ℕ) :
    Answers Unit := do
  let _ ← Answers.forAll (.ofList receipts) fun hash => receiptChainLink links hash
  Answers.forAll (.ofList receipts) fun hash => chainReachesGenesis links fuel hash

/-! ### The chain -/

/-- A link leads from one hash to another. -/
def Linked (links : List (Hash × Hash)) (hash prevHash : Hash) : Prop := (hash, prevHash) ∈ links

/-- From every receipt, links lead to the genesis hash. -/
def Intact (receipts : List Hash) (links : List (Hash × Hash)) : Prop :=
  ∀ hash ∈ receipts, TransGen (Linked links) hash genesis

/-- The check ends, and succeeds exactly if the chain is intact. -/
def Decided (receipts : List Hash) (links : List (Hash × Hash)) : Prop :=
  ∃ answer : Option Unit,
    (∃ enough, ∀ fuel ≥ enough,
      (verifyCellChainIntegrity receipts links fuel).first = some answer)
    ∧ (answer.isSome ↔ Intact receipts links)

/-- The links of a hash lead to genesis, the first of them first that do not fail. -/
def Led (links : List (Hash × Hash)) : Hash → Prop := Walk.Led (previous links) IsGenesisHash

/-- Links lead from a hash neither to genesis nor into a loop. -/
def Lost (links : List (Hash × Hash)) : Hash → Prop := Walk.Fails (previous links) IsGenesisHash

/-- A receipt has no link, or all are led to genesis, or all before one that is lost. -/
def Settled (receipts : List Hash) (links : List (Hash × Hash)) : Prop :=
  (∃ hash ∈ receipts, ∀ prevHash, ¬ Linked links hash prevHash)
    ∨ (∀ hash ∈ receipts, Led links hash)
    ∨ ∃ pre hash post, receipts = pre ++ hash :: post
      ∧ (∀ h ∈ pre, Led links h) ∧ Lost links hash

variable {receipts : List Hash} {links : List (Hash × Hash)} {hash prevHash : Hash}

lemma mem_previous_iff : prevHash ∈ previous links hash ↔ Linked links hash prevHash := by
  simp [previous, Linked]

/-- The relation that the walk follows is that of the links. -/
lemma linked_eq (links : List (Hash × Hash)) :
    (fun hash prevHash => prevHash ∈ previous links hash) = Linked links := by
  funext hash prevHash
  exact propext mem_previous_iff

lemma previous_eq_nil_iff :
    previous links hash = [] ↔ ∀ prevHash, ¬ Linked links hash prevHash := by
  simp only [List.eq_nil_iff_forall_not_mem, mem_previous_iff]

/-- Only hashes with a link have previous ones. -/
lemma previous_eq_nil (h : hash ∉ (links.map Prod.fst).toFinset) : previous links hash = [] := by
  refine previous_eq_nil_iff.mpr fun prevHash hlinked => h ?_
  exact List.mem_toFinset.mpr (List.mem_map_of_mem hlinked)

lemma transGen_of_led (h : Led links hash) : TransGen (Linked links) hash genesis := by
  obtain ⟨_, rfl, hreach⟩ := Walk.Led.transGen h
  exact linked_eq links ▸ hreach

lemma not_transGen_of_lost (h : Lost links hash) : ¬ TransGen (Linked links) hash genesis := by
  rw [← linked_eq]
  exact fun hreach => h.not_goal genesis hreach rfl

/-! ### The check -/

/-- The search for genesis is a walk along the links. -/
lemma chainReachesGenesis_eq (fuel : ℕ) :
    chainReachesGenesis links fuel hash = Walk.walk (previous links) IsGenesisHash fuel hash := by
  induction fuel generalizing hash with
  | zero => rfl
  | succ fuel ih =>
      rw [chainReachesGenesis, Walk.walk]
      simp only [ih]
      rfl

lemma first_receiptChainLink :
    (receiptChainLink links hash).first = some (previous links hash).head? :=
  Answers.first_ofList _

/-- The first part of the check ends, and fails if a receipt has no link. -/
lemma first_links_none_iff :
    (Answers.forAll (.ofList receipts) fun hash => receiptChainLink links hash).first = some none
      ↔ ∃ hash ∈ receipts, previous links hash = [] := by
  rw [Answers.first_forAll_none_iff_of_ends (by simp [first_receiptChainLink])]
  simp [first_receiptChainLink]

lemma first_links_some_iff :
    (Answers.forAll (.ofList receipts) fun hash => receiptChainLink links hash).first
        = some (some ())
      ↔ ∀ hash ∈ receipts, previous links hash ≠ [] := by
  rw [Answers.first_forAll_some_iff]
  refine forall₂_congr fun hash _ => ?_
  rw [first_receiptChainLink]
  cases previous links hash <;> simp

/-- The check fails if a receipt has no link, or at the first receipt whose search fails. -/
lemma verify_none_iff {fuel : ℕ} :
    (verifyCellChainIntegrity receipts links fuel).first = some none
      ↔ (∃ hash ∈ receipts, previous links hash = [])
        ∨ ∃ pre hash post, receipts = pre ++ hash :: post
          ∧ (∀ h ∈ pre, (chainReachesGenesis links fuel h).first = some (some ()))
          ∧ (chainReachesGenesis links fuel hash).first = some none := by
  have hgap : (∀ hash ∈ receipts, previous links hash ≠ [])
      ↔ ¬ ∃ hash ∈ receipts, previous links hash = [] := by simp
  rw [verifyCellChainIntegrity, Answers.forAll, Answers.first_naf_bind_none_iff, ← Answers.forAll,
    first_links_none_iff, first_links_some_iff, hgap, or_and_left, and_iff_right (Classical.em _),
    Answers.first_forAll_none_iff]
  simp only [Unique.exists_iff, PUnit.default_eq_unit]

/-- A search that succeeds has found a link. -/
lemma previous_ne_nil {fuel : ℕ}
    (h : (chainReachesGenesis links fuel hash).first = some (some ())) :
    previous links hash ≠ [] := by
  intro hnil
  cases fuel with
  | zero => simp [chainReachesGenesis] at h
  | succ fuel =>
      rw [chainReachesGenesis, receiptChainLink, hnil, Answers.ofList_nil_bind] at h
      simp at h

lemma verify_some_iff {fuel : ℕ} :
    (verifyCellChainIntegrity receipts links fuel).first = some (some ())
      ↔ ∀ hash ∈ receipts, (chainReachesGenesis links fuel hash).first = some (some ()) := by
  rw [verifyCellChainIntegrity, Answers.forAll, Answers.first_naf_bind_some_iff, ← Answers.forAll,
    first_links_some_iff, Answers.first_forAll_some_iff]
  simp only [Unique.exists_iff, PUnit.default_eq_unit]
  constructor
  · exact fun h => h.2
  · exact fun h => ⟨fun hash hmem => previous_ne_nil (h hash hmem), h⟩

/-- A check that ends is settled. -/
lemma settled_of_first {fuel : ℕ} {answer : Option Unit}
    (h : (verifyCellChainIntegrity receipts links fuel).first = some answer) :
    Settled receipts links := by
  have hled : ∀ hash, (chainReachesGenesis links fuel hash).first = some (some ()) →
      Led links hash := fun hash hfound => Walk.led_of_walk (chainReachesGenesis_eq fuel ▸ hfound)
  match answer with
  | some () => exact .inr (.inl fun hash hmem => hled hash (verify_some_iff.mp h hash hmem))
  | none =>
      rcases verify_none_iff.mp h with ⟨hash, hmem, hnil⟩ | ⟨pre, hash, post, hl, hpre, hfail⟩
      · exact .inl ⟨hash, hmem, previous_eq_nil_iff.mp hnil⟩
      · exact .inr (.inr ⟨pre, hash, post, hl, fun x hx => hled x (hpre x hx),
          Walk.fails_of_walk (chainReachesGenesis_eq fuel ▸ hfail)⟩)

/-- Fuel that is enough for all the hashes of a list that are led to genesis. -/
lemma exists_enough {hashes : List Hash} (h : ∀ hash ∈ hashes, Led links hash) :
    ∃ enough, ∀ fuel ≥ enough, ∀ hash ∈ hashes,
      (chainReachesGenesis links fuel hash).first = some (some ()) := by
  induction hashes with
  | nil => exact ⟨0, by simp⟩
  | cons hash hashes ih =>
      rw [List.forall_mem_cons] at h
      obtain ⟨enough, hall⟩ := ih h.2
      obtain ⟨deep, hwalk⟩ := Walk.walk_of_led (fun _ => previous_eq_nil) h.1
      refine ⟨max deep enough, fun fuel hfuel => List.forall_mem_cons.mpr ⟨?_, ?_⟩⟩
      · rw [chainReachesGenesis_eq]
        exact hwalk fuel (le_of_max_le_left hfuel)
      · exact hall fuel (le_of_max_le_right hfuel)

/-- A search from a lost hash fails when it is deep enough. -/
lemma exists_enough_of_lost (h : Lost links hash) :
    ∃ enough, ∀ fuel ≥ enough, (chainReachesGenesis links fuel hash).first = some none := by
  refine ⟨(links.map Prod.fst).toFinset.card + 1, fun fuel hfuel => ?_⟩
  rw [chainReachesGenesis_eq]
  exact Walk.walk_of_fails (fun _ => previous_eq_nil) fuel (Nat.lt_of_succ_le hfuel) hash h

/-- A check that fails is right where the chain is not intact. -/
lemma decided_of_none {enough : ℕ} (hnot : ¬ Intact receipts links)
    (h : ∀ fuel ≥ enough, (verifyCellChainIntegrity receipts links fuel).first = some none) :
    Decided receipts links :=
  ⟨none, ⟨enough, h⟩, by simp [hnot]⟩

lemma decided_of_settled (h : Settled receipts links) : Decided receipts links := by
  rcases h with ⟨hash, hmem, hnone⟩ | hled | ⟨pre, hash, post, hl, hpre, hlost⟩
  · have hnot : ¬ Intact receipts links := fun hintact => by
      obtain ⟨prevHash, hlinked, -⟩ := TransGen.head'_iff.mp (hintact hash hmem)
      exact hnone prevHash hlinked
    exact decided_of_none hnot fun fuel (_ : fuel ≥ 0) =>
      verify_none_iff.mpr (.inl ⟨hash, hmem, previous_eq_nil_iff.mpr hnone⟩)
  · obtain ⟨enough, hfound⟩ := exists_enough hled
    have hintact : Intact receipts links := fun hash hmem => transGen_of_led (hled hash hmem)
    exact ⟨some (), ⟨enough, fun fuel hfuel => verify_some_iff.mpr (hfound fuel hfuel)⟩,
      by simp [hintact]⟩
  · obtain ⟨enough, hfound⟩ := exists_enough hpre
    obtain ⟨deep, hfail⟩ := exists_enough_of_lost hlost
    have hmem : hash ∈ receipts := by simp [hl]
    refine decided_of_none (fun hintact => not_transGen_of_lost hlost (hintact hash hmem))
      fun fuel (hfuel : fuel ≥ max enough deep) =>
        verify_none_iff.mpr (.inr ⟨pre, hash, post, hl, ?_, ?_⟩)
    · exact hfound fuel (le_of_max_le_left hfuel)
    · exact hfail fuel (le_of_max_le_right hfuel)

/-- Where the links form no loop, the check is decided. -/
lemma decided_of_acyclic (h : ∀ hash, ¬ TransGen (Linked links) hash hash) :
    Decided receipts links := by
  have hor : ∀ hash, Lost links hash ∨ Led links hash := fun hash =>
    Walk.fails_or_led (fun _ => previous_eq_nil) fun ⟨w, _, hcycle⟩ =>
      h w (linked_eq links ▸ hcycle)
  refine decided_of_settled (.inr ?_)
  by_cases hled : ∀ hash ∈ receipts, Led links hash
  · exact .inl hled
  · push Not at hled
    obtain ⟨pre, hash, post, hl, hpre, hnot⟩ := Answers.exists_first hled
    exact .inr ⟨pre, hash, post, hl, fun x hx => not_not.mp (hpre x hx),
      (hor hash).resolve_right hnot⟩

/-- The check ends, and succeeds exactly if the chain is intact, exactly if a receipt has no link
or each is led to genesis until one that is lost. -/
theorem chain_decided_iff (receipts : List Hash) (links : List (Hash × Hash)) :
    Decided receipts links ↔ Settled receipts links := by
  constructor
  · rintro ⟨answer, ⟨enough, hends⟩, -⟩
    exact settled_of_first (hends enough le_rfl)
  · exact decided_of_settled

/-- Two links that form a loop. -/
def loop : List (Hash × Hash) := [("a", "b"), ("b", "a")]

/-- The search for genesis goes around the loop. -/
lemma chainReachesGenesis_loop (fuel : ℕ) :
    chainReachesGenesis loop fuel "a" = .stuck ∧ chainReachesGenesis loop fuel "b" = .stuck := by
  induction fuel with
  | zero => exact ⟨rfl, rfl⟩
  | succ fuel ih =>
      constructor
      · change Answers.or (chainReachesGenesis loop fuel "b") (.ofList []) = _
        rw [ih.2]
        rfl
      · change Answers.or (chainReachesGenesis loop fuel "a") (.ofList []) = _
        rw [ih.1]
        rfl

/-- The check of a receipt behind a loop runs on. -/
theorem loop_undecided : ¬ Decided ["a"] loop := by
  rintro ⟨answer, ⟨enough, hends⟩, -⟩
  have hchain : (verifyCellChainIntegrity ["a"] loop enough).first = none := by
    change (((chainReachesGenesis loop enough "a").naf.or (.ofList [])).naf.or
      (.ofList [])).first = none
    rw [(chainReachesGenesis_loop enough).1]
    rfl
  simpa [hchain] using hends enough le_rfl

end Receipts

end Notebook

end SovereignBus
