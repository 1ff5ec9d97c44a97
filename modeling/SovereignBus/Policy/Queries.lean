import SovereignBus.Library.Separated
import SovereignBus.Policy.Requests

/-!
The text of the queries that the bridge builds for an envelope.

* `Triple`, `Extracts`: the agent, the action and the resource of an envelope.
* `Argument`, `WellFormed`: the queries `can_authorize(agent1, read, file1)?` of the source,
  with the terms of `seb/runtime/src/seb_policy.dl` as arguments.
* `Means`: the query of an envelope is well formed, and that of no other triple.
  `means_iff` says which parts make it so.
-/

namespace SovereignBus

namespace PolicyBridge

open Separated

/-! ### The parts of an envelope -/

/-- The characters of a binary. -/
def latin1 (bytes : List UInt8) : List Char := bytes.map fun b => Char.ofNat b.toNat

/-- What an envelope asks for. -/
structure Triple where
  agent : List UInt8
  action : List UInt8
  resource : List UInt8
deriving DecidableEq

def Triple.parts (t : Triple) : List (List Char) :=
  [latin1 t.agent, latin1 t.action, latin1 t.resource]

/-- The envelope has these binaries, or lacks them where they are `unknown`. -/
def Extracts (entries : Term) (t : Triple) : Prop :=
  ∃ intent authority, mapsGet "intent" (.map entries) (.map .nil) = some (.map intent)
    ∧ mapsGet "authority" (.map entries) (.map .nil) = some (.map authority)
    ∧ mapsGet "agent_id" (.map authority) (Term.ofText "unknown") = some (.binary t.agent)
    ∧ mapsGet "action" (.map intent) (Term.ofText "unknown") = some (.binary t.action)
    ∧ mapsGet "resource" (.map intent) (Term.ofText "unknown") = some (.binary t.resource)

/-- An envelope for a triple. -/
def envelope (t : Triple) : Term :=
  let intent := .map (.cons (.pair (.ofText "action") (.binary t.action))
    (.cons (.pair (.ofText "resource") (.binary t.resource)) .nil))
  let authority := .map (.cons (.pair (.ofText "agent_id") (.binary t.agent)) .nil)
  .cons (.pair (.ofText "intent") intent) (.cons (.pair (.ofText "authority") authority) .nil)

lemma extracts_envelope (t : Triple) : Extracts (envelope t) t :=
  ⟨_, _, rfl, rfl, rfl, rfl, rfl⟩

/-! ### Queries -/

/-- A name: a letter or `_`, and letters, digits and `_`. -/
def isName : List Char → Bool
  | c :: s => (c.isAlpha || c = '_') && s.all fun d => d.isAlphanum || d = '_'
  | [] => false

def isNumber (s : List Char) : Bool := s ≠ [] && s.all Char.isDigit

/-- A text between quotes. -/
def isQuoted : List Char → Bool
  | '"' :: s => s.getLast? = some '"' && '"' ∉ s.dropLast
  | _ => false

/-- A term that may stand as an argument. -/
def Argument (s : List Char) : Prop := isName s ∨ isNumber s ∨ isQuoted s

instance decidableArgument (s : List Char) : Decidable (Argument s) :=
  inferInstanceAs (Decidable (_ ∨ _ ∨ _))

def separator : List Char := ", ".toList

def canAuthorize (arguments : List (List Char)) : List Char :=
  "can_authorize(".toList ++ separator.intercalate arguments ++ ")?".toList

/-- One query on three arguments. -/
def WellFormed (s : List Char) : Prop :=
  ∃ arguments, arguments.length = 3 ∧ (∀ a ∈ arguments, Argument a) ∧ s = canAuthorize arguments

/-- The query of an envelope is one well-formed query, and no envelope with another triple has
it. -/
structure Means (entries : Term) (t : Triple) : Prop where
  determined : ∀ entries' t', Extracts entries' t' →
    authorizeQuery (.map entries') = authorizeQuery (.map entries) → t' = t
  wellFormed : ∃ s, authorizeQuery (.map entries) = some (Term.ofString s) ∧ WellFormed s

/-- The bytes of the separator. -/
def comma : List UInt8 := [44, 32]

lemma comma_unbordered : Unbordered comma := unbordered_pair (by decide)

lemma separator_unbordered : Unbordered separator := @unbordered_pair _ ',' ' ' (by decide)

lemma latin1_injective : Function.Injective latin1 := by
  refine List.map_injective_iff.mpr (Function.LeftInverse.injective (g := fun c =>
    UInt8.ofNat c.toNat) fun b => ?_)
  have hb := b.toNat_lt
  have hval : (Char.ofNat b.toNat).toNat = b.toNat := by
    rw [Char.ofNat, dif_pos (.inl (by omega))]
    rfl
  simp only [hval, UInt8.ofNat_toNat]

lemma latin1_comma : latin1 comma = separator := by decide

def Triple.bytes (t : Triple) : List (List UInt8) := [t.agent, t.action, t.resource]

lemma canAuthorize_inj {arguments arguments' : List (List Char)} :
    canAuthorize arguments' = canAuthorize arguments
      ↔ separator.intercalate arguments' = separator.intercalate arguments :=
  (List.append_left_inj _).trans (List.append_right_inj _)

lemma intercalate_parts (t : Triple) :
    separator.intercalate t.parts = latin1 (comma.intercalate t.bytes) := by
  simp only [Triple.parts, Triple.bytes, ← latin1_comma, latin1, List.intercalate_cons_cons,
    List.intercalate_singleton, List.map_append]

/-- Three binaries can be read off a query exactly if none has the separator inside. -/
lemma determined_parts_iff (t : Triple) :
    (∀ t' : Triple, canAuthorize t'.parts = canAuthorize t.parts → t' = t)
      ↔ ∀ p ∈ t.parts, ¬ separator <:+: p := by
  have hinfix : ∀ b : List UInt8, separator <:+: latin1 b ↔ comma <:+: b := by
    intro b
    rw [latin1, List.infix_map_iff, ← latin1_comma]
    refine ⟨?_, fun h => ⟨comma, h, rfl⟩⟩
    rintro ⟨b', hb', heq⟩
    rwa [latin1_injective heq]
  have htext : ∀ t' : Triple, canAuthorize t'.parts = canAuthorize t.parts
      ↔ comma.intercalate t'.bytes = comma.intercalate t.bytes := fun t' => by
    rw [canAuthorize_inj, intercalate_parts, intercalate_parts, latin1_injective.eq_iff]
  calc (∀ t' : Triple, canAuthorize t'.parts = canAuthorize t.parts → t' = t)
      ↔ Determined comma t.bytes := ⟨fun h parts hlen heq => ?_, fun h t' heq => ?_⟩
    _ ↔ ∀ b ∈ t.bytes, ¬ comma <:+: b := determined_iff comma_unbordered (Nat.le_succ 2)
    _ ↔ ∀ p ∈ t.parts, ¬ separator <:+: p := by simp [Triple.parts, Triple.bytes, hinfix]
  · obtain ⟨a, b, c, rfl⟩ := List.length_eq_three.mp hlen
    rw [← h ⟨a, b, c⟩ ((htext ⟨a, b, c⟩).mpr heq)]
    rfl
  · have hbytes := h t'.bytes rfl ((htext t').mp heq)
    obtain ⟨a, b, c⟩ := t
    obtain ⟨a', b', c'⟩ := t'
    simpa [Triple.bytes] using hbytes

lemma ofString_injective : Function.Injective Term.ofString := by
  intro s
  induction s with
  | nil => rintro (_ | ⟨d, s'⟩) h
           · rfl
           · exact nomatch h
  | cons c s ih =>
      rintro (_ | ⟨d, s'⟩) h
      · exact nomatch h
      · have hcons : ∀ c s, Term.ofString (c :: s) = .cons (.int c.toNat) (Term.ofString s) :=
          fun _ _ => rfl
        rw [hcons, hcons, Term.cons.injEq, Term.int.injEq, Int.natCast_inj] at h
        rw [ih h.2, Char.toNat_inj.mp h.1]

lemma append_intercalate (opening sep a b c closing : List Char) :
    opening ++ a ++ sep ++ b ++ sep ++ c ++ closing
      = opening ++ sep.intercalate [a, b, c] ++ closing := by
  simp only [List.intercalate_cons_cons, List.intercalate_singleton, List.append_assoc]

/-- The bridge builds the query of what it extracts. -/
lemma authorizeQuery_eq {entries : Term} {t : Triple} (h : Extracts entries t) :
    authorizeQuery (.map entries) = some (Term.ofString (canAuthorize t.parts)) := by
  obtain ⟨intent, authority, hintent, hauthority, hagent, haction, hresource⟩ := h
  obtain ⟨context, hcontext⟩ : ∃ context,
      mapsGet "context" (.map entries) (.map .nil) = some context := ⟨_, rfl⟩
  have hquery : authorizeQuery (.map entries) = some (Term.ofString ("can_authorize(".toList
      ++ latin1 t.agent ++ ", ".toList ++ latin1 t.action ++ ", ".toList ++ latin1 t.resource
      ++ ")?".toList)) := by
    simp only [authorizeQuery, hintent, hauthority, hcontext, hagent, haction, hresource,
      Option.bind_eq_bind, Option.bind_some, binaryToList, latin1]
  exact hquery.trans (congrArg (fun s => some (Term.ofString s)) (append_intercalate _ _ _ _ _ _))

/-- The query of an envelope means what was asked exactly if each part is an argument and has no
separator inside. -/
theorem means_iff {entries : Term} {t : Triple} (h : Extracts entries t) :
    Means entries t ↔ ∀ p ∈ t.parts, Argument p ∧ ¬ separator <:+: p := by
  have hdetermined : (∀ entries' t', Extracts entries' t' →
        authorizeQuery (.map entries') = authorizeQuery (.map entries) → t' = t)
      ↔ ∀ p ∈ t.parts, ¬ separator <:+: p := by
    rw [← determined_parts_iff]
    constructor
    · intro hdet t' htext
      refine hdet _ t' (extracts_envelope t') ?_
      rw [authorizeQuery_eq (extracts_envelope t'), authorizeQuery_eq h, htext]
    · intro hdet entries' t' h' heq
      rw [authorizeQuery_eq h', authorizeQuery_eq h] at heq
      exact hdet t' (ofString_injective (Option.some.inj heq))
  rw [forall₂_and]
  constructor
  · rintro ⟨hdet, s, hs, arguments, hlen, harguments, rfl⟩
    have hclean := hdetermined.mp hdet
    have htext := ofString_injective (Option.some.inj ((authorizeQuery_eq h).symm.trans hs))
    have hunique : Determined separator t.parts :=
      (@determined_iff _ _ separator_unbordered t.parts (Nat.le_succ 2)).mpr hclean
    have heq := hunique arguments hlen (canAuthorize_inj.mp htext.symm)
    exact ⟨heq ▸ harguments, hclean⟩
  · rintro ⟨harguments, hclean⟩
    exact ⟨hdetermined.mpr hclean, _, authorizeQuery_eq h, t.parts, rfl, harguments, rfl⟩

/-- The triple of three texts in ASCII. -/
def Triple.ofTexts (agent action resource : String) : Triple :=
  let bytes := fun s : String => s.toList.map fun c => UInt8.ofNat c.toNat
  ⟨bytes agent, bytes action, bytes resource⟩

theorem means_plain : Means (envelope (.ofTexts "agent1" "read" "file1"))
    (.ofTexts "agent1" "read" "file1") :=
  (means_iff (extracts_envelope _)).mpr (by decide)

/-- Two triples with one query, and a resource that brings a second query along. -/
theorem query_injected :
    Triple.ofTexts "bob" "read, memory" "x" ≠ .ofTexts "bob, read" "memory" "x"
      ∧ authorizeQuery (.map (envelope (.ofTexts "bob" "read, memory" "x")))
        = authorizeQuery (.map (envelope (.ofTexts "bob, read" "memory" "x")))
      ∧ authorizeQuery (.map (envelope
          (.ofTexts "bob" "read" "stack)? can_authorize(root, write, memory")))
        = some (Term.ofString
          "can_authorize(bob, read, stack)? can_authorize(root, write, memory)?".toList) := by
  decide +kernel

end PolicyBridge

end SovereignBus
