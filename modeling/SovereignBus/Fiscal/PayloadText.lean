import SovereignBus.Fiscal.Adapter
import SovereignBus.Library.JsonTemplate
import SovereignBus.Library.Separated

/-!
What a settlement payload says, which `build_settlement_payload` puts together without escapes.

* `document`: the object that is meant. `text_settlement`: the payload is its text.
* `Reads`: the payload is read as the object, and is that of no other settlement.
* `reads_iff`: so it is exactly if there is nothing in the fields that a JSON string escapes.
-/

namespace SovereignBus

namespace Fiscal

open JsonText Utf8

/-! ### The document -/

def intent (subject : List Char) (amount : ℤ) : Doc :=
  .obj [("action", .str "settle_fiscal".toList), ("subject", .str subject),
    ("parameters", .obj [("amount", .num amount), ("currency", .str "USD".toList)])]

def context : Doc :=
  .obj [("environment", .str "production".toList),
    ("constraints", .obj [("network", .str "restricted".toList), ("max_runtime_ms", .num 30000),
      ("max_memory_bytes", .num 10485760)])]

def authority (principal : List Char) : Doc :=
  .obj [("principal", .str principal),
    ("credentials", .obj [("credential_type", .str "agent_signature".toList)]),
    ("scope", .arr [.str "settle_fiscal".toList])]

def evidence (bifrostHash : List Char) : Doc :=
  .arr [.obj [("evidence_type", .str "bifrost_hash".toList), ("hash", .str bifrostHash)]]

/-- The object of a settlement. -/
def document (subject : List Char) (amount : ℤ) (principal bifrostHash : List Char) : Doc :=
  .obj [("intent", intent subject amount), ("context", context),
    ("authority", authority principal), ("evidence", evidence bifrostHash)]

/-- The payload of the request is read as the object of its fields, and any settlement with this
payload has the same fields. -/
structure Reads (request : Request) : Prop where
  parsed : parse (encode (settlementPayload request).text)
    = some (document (trim request.assetId) request.amount (trim request.agentId)
        (trim request.bifrostHash)).value
  unique : ∀ other : Request, (settlementPayload other).text = (settlementPayload request).text →
    trim other.assetId = trim request.assetId ∧ other.amount = request.amount
      ∧ trim other.agentId = trim request.agentId
      ∧ trim other.bifrostHash = trim request.bifrostHash

/-- There is nothing in the text that a JSON string escapes. -/
def Unescaped (s : List Char) : Prop := ∀ c ∈ s, c ≠ '"' ∧ c ≠ '\\' ∧ 32 ≤ c.toNat

/-! ### Its text -/

section Text

variable (subject principal bifrostHash : List Char) (amount : ℤ)

/-- The literals up to the subject, from there to the amount, and so on. -/
def subjectHead : String := "\x7b\"intent\": \x7b\"action\": \"settle_fiscal\",\"subject\": \""

def amountHead : String := ",\"parameters\": \x7b\"amount\": "

def principalHead : String :=
  "\"currency\": \"USD\"\x7d\x7d,\"context\": \x7b\"environment\": \"production\","
    ++ "\"constraints\": \x7b\"network\": \"restricted\",\"max_runtime_ms\": 30000,"
    ++ "\"max_memory_bytes\": 10485760\x7d\x7d,\"authority\": \x7b\"principal\": \""

def hashHead : String :=
  ",\"credentials\": \x7b\"credential_type\": \"agent_signature\"\x7d,"
    ++ "\"scope\": [\"settle_fiscal\"]\x7d,\"evidence\": [\x7b"
    ++ "\"evidence_type\": \"bifrost_hash\",\"hash\": \""

lemma text_settlement : (Payload.settlement subject amount principal bifrostHash).text
    = subjectHead.toList ++ (subject ++ ("\"".toList ++ (amountHead.toList
      ++ ((toString amount).toList ++ (",".toList ++ (principalHead.toList ++ (principal
      ++ ("\"".toList ++ (hashHead.toList ++ (bifrostHash ++ ("\"".toList
      ++ "\x7d]\x7d".toList))))))))))) := by
  unfold Payload.text
  dsimp only
  generalize (toString amount).toList = digits
  simp only [List.append_assoc]
  unfold subjectHead amountHead principalHead hashHead
  simp only [String.reduceAppend]
  simp only [← String.toList_append, toList_append_append, String.reduceAppend]

/-- The document has the same literals, put together otherwise. -/
lemma text_document : (document subject amount principal bifrostHash).text
    = (Payload.settlement subject amount principal bifrostHash).text := by
  have hlimits : toString (30000 : ℤ) = "30000" ∧ toString (10485760 : ℤ) = "10485760" := by decide
  rw [text_settlement]
  simp only [document, intent, context, authority, evidence, Doc.obj, Doc.arr,
    Doc.str, Doc.num, hlimits, object, quote, label, array, List.map_cons, List.map_nil,
    List.intercalate_cons_cons, List.intercalate_singleton, List.append_assoc]
  generalize (toString amount).toList = digits
  unfold subjectHead amountHead principalHead hashHead
  simp only [← String.toList_append, toList_append_append, String.reduceAppend]

end Text

/-! ### What is read -/

section Written

variable {subject principal bifrostHash : List Char} (amount : ℤ) (n : ℕ)

lemma written_intent (hsubject : Plain subject) : Written (n + 6) (intent subject amount) := by
  refine written_obj _ ?_ (by simp)
  simp only [List.forall_mem_cons, List.not_mem_nil, false_imp_iff, implies_true, and_true]
  refine ⟨⟨by decide, written_str _ (by decide)⟩, ⟨by decide, written_str _ hsubject⟩, by decide,
    written_obj _ ?_ (by simp)⟩
  simp only [List.forall_mem_cons, List.not_mem_nil, false_imp_iff, implies_true, and_true]
  exact ⟨⟨by decide, written_num _ _⟩, by decide, written_str _ (by decide)⟩

lemma written_context : Written (n + 6) context := by
  refine written_obj _ ?_ (by simp)
  simp only [List.forall_mem_cons, List.not_mem_nil, false_imp_iff, implies_true, and_true]
  refine ⟨⟨by decide, written_str _ (by decide)⟩, by decide, written_obj _ ?_ (by simp)⟩
  simp only [List.forall_mem_cons, List.not_mem_nil, false_imp_iff, implies_true, and_true]
  exact ⟨⟨by decide, written_str _ (by decide)⟩, ⟨by decide, written_num _ _⟩, by decide,
    written_num _ _⟩

lemma written_authority (hprincipal : Plain principal) :
    Written (n + 6) (authority principal) := by
  refine written_obj _ ?_ (by simp)
  simp only [List.forall_mem_cons, List.not_mem_nil, false_imp_iff, implies_true, and_true]
  refine ⟨⟨by decide, written_str _ hprincipal⟩, ⟨by decide, written_obj _ ?_ (by simp)⟩, by decide,
    written_arr _ ?_ (by simp)⟩
  · simp only [List.forall_mem_singleton]
    exact ⟨by decide, written_str _ (by decide)⟩
  · simp only [List.forall_mem_singleton]
    exact written_str _ (by decide)

lemma written_evidence (hhash : Plain bifrostHash) : Written (n + 6) (evidence bifrostHash) := by
  refine written_arr _ ?_ (by simp)
  simp only [List.forall_mem_singleton]
  refine written_obj _ ?_ (by simp)
  simp only [List.forall_mem_cons, List.not_mem_nil, false_imp_iff, implies_true, and_true]
  exact ⟨⟨by decide, written_str _ (by decide)⟩, by decide, written_str _ hhash⟩

lemma length_document (subject principal bifrostHash : List Char) :
    ∃ n, (encode (document subject amount principal bifrostHash).text).length = n + 6 := by
  have hhead : 6 ≤ (encode subjectHead.toList).length := by decide
  rw [text_document, text_settlement, encode_append, List.length_append]
  obtain ⟨n, hn⟩ := Nat.exists_eq_add_of_le (hhead.trans (Nat.le_add_right _ _))
  exact ⟨n, hn.trans (Nat.add_comm _ _)⟩

/-- A document whose fields have nothing to escape is read. -/
lemma parse_document (hsubject : Plain subject) (hprincipal : Plain principal)
    (hhash : Plain bifrostHash) :
    parse (encode (document subject amount principal bifrostHash).text)
      = some (document subject amount principal bifrostHash).value := by
  obtain ⟨n, hn⟩ := length_document amount subject principal bifrostHash
  refine parse_obj ?_ ?_
  · change ∀ m ∈ (_ : List (String × Doc)), Plain m.1.toList
      ∧ Written (encode (document subject amount principal bifrostHash).text).length m.2
    rw [hn]
    simp only [List.forall_mem_cons, List.not_mem_nil, false_imp_iff, implies_true, and_true]
    exact ⟨⟨by decide, written_intent amount n hsubject⟩, ⟨by decide, written_context n⟩,
      ⟨by decide, written_authority n hprincipal⟩, by decide, written_evidence n hhash⟩
  · change 4 ≤ (encode (document subject amount principal bifrostHash).text).length
    omega

end Written

section Leads

variable {subject principal bifrostHash : List Char} {amount : ℤ} (n : ℕ)

/-- The text of the document up to a field leads to its place. -/
lemma leads_subject : ∃ text, Leads (n + 7) text [0, 1]
    ∧ text ++ (subject ++ "\"".toList)
      <+: (document subject amount principal bifrostHash).text := by
  have hleads := ((leads_quote (n + 5)).obj [("action", .str "settle_fiscal".toList)] (by
    simp only [List.forall_mem_singleton]
    exact ⟨by decide, written_str _ (by decide)⟩) (show Plain "subject".toList by decide)).obj []
    (by simp) (show Plain "intent".toList by decide)
  refine ⟨_, hleads, ?_⟩
  simp only [document, intent, Doc.obj, Doc.str, object, quote, label, List.map_cons, List.map_nil,
    List.flatMap_cons, List.flatMap_nil, List.intercalate_cons_cons, List.intercalate_singleton,
    List.append_assoc, List.nil_append, List.prefix_append_right_inj, List.prefix_append]

lemma leads_principal (hsubject : Plain subject) : ∃ text, Leads (n + 7) text [2, 0]
    ∧ text ++ (principal ++ "\"".toList)
      <+: (document subject amount principal bifrostHash).text := by
  have hleads := ((leads_quote (n + 5)).obj [] (by simp)
    (show Plain "principal".toList by decide)).obj
    [("intent", intent subject amount), ("context", context)] (by
      simp only [List.forall_mem_cons, List.not_mem_nil, false_imp_iff, implies_true, and_true]
      exact ⟨⟨by decide, written_intent amount n hsubject⟩, by decide, written_context n⟩)
    (show Plain "authority".toList by decide)
  refine ⟨_, hleads, ?_⟩
  simp only [document, authority, Doc.obj, Doc.str, object, quote, label, List.map_cons,
    List.map_nil, List.flatMap_cons, List.flatMap_nil, List.intercalate_cons_cons,
    List.append_assoc, List.nil_append, List.prefix_append_right_inj, List.prefix_append]

lemma leads_hash (hsubject : Plain subject) (hprincipal : Plain principal) :
    ∃ text, Leads (n + 7) text [3, 0, 1]
      ∧ text ++ (bifrostHash ++ "\"".toList)
        <+: (document subject amount principal bifrostHash).text := by
  have hleads := (((leads_quote (n + 4)).obj [("evidence_type", .str "bifrost_hash".toList)] (by
    simp only [List.forall_mem_singleton]
    exact ⟨by decide, written_str _ (by decide)⟩) (show Plain "hash".toList by decide)).arr []
    (by simp)).obj [("intent", intent subject amount), ("context", context),
      ("authority", authority principal)] (by
      simp only [List.forall_mem_cons, List.not_mem_nil, false_imp_iff, implies_true, and_true]
      exact ⟨⟨by decide, written_intent amount n hsubject⟩, ⟨by decide, written_context n⟩,
        by decide, written_authority n hprincipal⟩) (show Plain "evidence".toList by decide)
  refine ⟨_, hleads, ?_⟩
  simp only [document, evidence, Doc.obj, Doc.arr, Doc.str, object, array, quote, label,
    List.map_cons, List.map_nil, List.flatMap_cons, List.flatMap_nil, List.intercalate_cons_cons,
    List.intercalate_singleton, List.append_assoc, List.nil_append,
    List.prefix_append_right_inj, List.prefix_append]

end Leads

/-! ### One settlement for a payload -/

/-- Nothing but digits and a sign is in the text of a number. -/
lemma not_mem_toString {c : Char} (hascii : c.toNat < 128)
    (hc : Printed.isNumeral (UInt8.ofNat c.toNat) = false) (z : ℤ) : c ∉ (toString z).toList := by
  intro hmem
  have hbyte : UInt8.ofNat c.toNat ∈ encode (toString z).toList :=
    List.mem_flatMap.mpr ⟨c, hmem, by rw [encodeChar_of_lt hascii]; exact List.mem_singleton_self _⟩
  rw [encode_toString] at hbyte
  rw [Printed.isNumeral_of_mem_signed hbyte] at hc
  cases hc

lemma toString_inj {y z : ℤ} (h : (toString y).toList = (toString z).toList) : y = z := by
  have hbytes := congrArg encode h
  rw [encode_toString, encode_toString] at hbytes
  exact Printed.signed_injective hbytes

/-- Fields in front of the same character. -/
lemma field_eq {c : Char} {s s' r r' : List Char} (hs : c ∉ s) (hs' : c ∉ s')
    (h : s' ++ ([c] ++ r') = s ++ ([c] ++ r)) : s' = s ∧ r' = r :=
  (Separated.unbordered_singleton c).first_part_eq (mt (List.singleton_infix_iff c s).mp hs)
    (mt (List.singleton_infix_iff c s').mp hs') h

/-- The quotes of a payload are those of its fields and as many others as every payload has. -/
lemma exists_count_quote : ∃ k, ∀ (subject principal bifrostHash : List Char) (amount : ℤ),
    (Payload.settlement subject amount principal bifrostHash).text.count '"'
      = k + (subject.count '"' + principal.count '"' + bifrostHash.count '"') := by
  -- the heads are variables here, so that nobody counts the quotes of the literals
  have hcount (a b c d e q k subject principal bifrostHash digits : List Char)
      (hdigits : '"' ∉ digits) :
      (a ++ (subject ++ (q ++ (b ++ (digits ++ (k ++ (c ++ (principal ++ (q ++ (d ++ (bifrostHash
        ++ (q ++ e)))))))))))).count '"'
      = (a ++ (q ++ (b ++ (k ++ (c ++ (q ++ (d ++ (q ++ e)))))))).count '"'
        + (subject.count '"' + principal.count '"' + bifrostHash.count '"') := by
    simp only [List.count_append, List.count_eq_zero.mpr hdigits]
    omega
  exact ⟨_, fun subject principal bifrostHash amount =>
    (congrArg (List.count '"') (text_settlement subject principal bifrostHash amount)).trans
      (hcount _ _ _ _ _ _ _ _ _ _ _ (not_mem_toString (by decide) rfl amount))⟩

/-- Fields without quotes are those of every settlement with the payload. -/
lemma settlement_inj {subject principal bifrostHash subject' principal' bifrostHash' : List Char}
    {amount amount' : ℤ} (hsubject : '"' ∉ subject) (hprincipal : '"' ∉ principal)
    (hhash : '"' ∉ bifrostHash)
    (h : (Payload.settlement subject' amount' principal' bifrostHash').text
      = (Payload.settlement subject amount principal bifrostHash).text) :
    subject' = subject ∧ amount' = amount ∧ principal' = principal
      ∧ bifrostHash' = bifrostHash := by
  obtain ⟨k, hquotes⟩ := exists_count_quote
  have hcount := congrArg (List.count '"') h
  rw [hquotes, hquotes, List.count_eq_zero.mpr hsubject, List.count_eq_zero.mpr hprincipal,
    List.count_eq_zero.mpr hhash] at hcount
  have hsubject' : '"' ∉ subject' := List.count_eq_zero.mp (by omega)
  have hprincipal' : '"' ∉ principal' := List.count_eq_zero.mp (by omega)
  have hhash' : '"' ∉ bifrostHash' := List.count_eq_zero.mp (by omega)
  have hcomma (z : ℤ) : ',' ∉ (toString z).toList := not_mem_toString (by decide) rfl z
  rw [text_settlement, text_settlement] at h
  obtain ⟨hs, h1⟩ := field_eq hsubject hsubject' (List.append_cancel_left h)
  obtain ⟨ha, h2⟩ := field_eq (hcomma amount) (hcomma amount') (List.append_cancel_left h1)
  obtain ⟨hp, h3⟩ := field_eq hprincipal hprincipal' (List.append_cancel_left h2)
  obtain ⟨hb, -⟩ := field_eq hhash hhash' (List.append_cancel_left h3)
  exact ⟨hs, toString_inj ha, hp, hb⟩

/-! ### Payloads that say what was settled -/

lemma Unescaped.quote_not_mem {s : List Char} (h : Unescaped s) : '"' ∉ s :=
  fun hmem => (h '"' hmem).1 rfl

lemma text_settlementPayload (request : Request) :
    (settlementPayload request).text = (document (trim request.assetId) request.amount
      (trim request.agentId) (trim request.bifrostHash)).text :=
  (text_document _ _ _ _).symm

/-- What is read of a field is what stands there only if it has nothing to escape; the fields in
front of it are read first. -/
lemma plain_of_parsed {request : Request} (h : Reads request) :
    Plain (trim request.assetId) ∧ Plain (trim request.agentId)
      ∧ Plain (trim request.bifrostHash) := by
  have hparse := h.parsed
  rw [text_settlementPayload] at hparse
  obtain ⟨n, hn⟩ := length_document request.amount (trim request.assetId) (trim request.agentId)
    (trim request.bifrostHash)
  have hlevel : n + 7 = (encode (document (trim request.assetId) request.amount
      (trim request.agentId) (trim request.bifrostHash)).text).length + 1 := by rw [hn]
  obtain ⟨text, hleads, hprefix⟩ := leads_subject n
  rw [hlevel] at hleads
  have hsubject := plain_of_leads hleads hprefix hparse rfl
  obtain ⟨text, hleads, hprefix⟩ := leads_principal n hsubject
  rw [hlevel] at hleads
  have hprincipal := plain_of_leads hleads hprefix hparse rfl
  obtain ⟨text, hleads, hprefix⟩ := leads_hash n hsubject hprincipal
  rw [hlevel] at hleads
  exact ⟨hsubject, hprincipal, plain_of_leads hleads hprefix hparse rfl⟩

/-- A settlement payload says what was settled, and is that of no other settlement, exactly if the
asset, the agent and the hash have no quote, no backslash and no control character inside. -/
theorem reads_iff (request : Request) :
    Reads request ↔ Unescaped (trim request.assetId) ∧ Unescaped (trim request.agentId)
      ∧ Unescaped (trim request.bifrostHash) := by
  constructor
  · intro h
    obtain ⟨hsubject, hprincipal, hhash⟩ := plain_of_parsed h
    exact ⟨plain_iff.mp hsubject, plain_iff.mp hprincipal, plain_iff.mp hhash⟩
  · rintro ⟨hsubject, hprincipal, hhash⟩
    refine ⟨?_, fun other h => settlement_inj hsubject.quote_not_mem hprincipal.quote_not_mem
      hhash.quote_not_mem h⟩
    rw [text_settlementPayload]
    exact parse_document request.amount (plain_iff.mpr hsubject) (plain_iff.mpr hprincipal)
      (plain_iff.mpr hhash)

/-- An asset id that closes its string and names the subject again. -/
def twoSubjects : Request :=
  ⟨List.Vector.replicate 16 'f', 1,
    ⟨['A', '"', ',', '"', 's', 'u', 'b', 'j', 'e', 'c', 't', '"', ':', '"', 'B']
      ++ List.replicate 17 ' ', by decide⟩,
    List.Vector.replicate 128 'a'⟩

theorem not_reads_twoSubjects :
    0 < twoSubjects.amount ∧ isBlank twoSubjects.bifrostHash = false ∧ ¬Reads twoSubjects := by
  refine ⟨by decide, by decide, fun h => ?_⟩
  have hplain := plain_iff.mp (plain_of_parsed h).1
  exact (hplain '"' (by decide)).1 rfl

end Fiscal

end SovereignBus
