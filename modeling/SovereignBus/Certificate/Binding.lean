import SovereignBus.Certificate.Canonical

/-!
What the canonical form and the hash of a certificate say about it.

* `Fits`, `Digest`: certificates that fit their buffers, and the canonical bytes and the
  hash they get.
* `prefixFree_content`: the content of a canonical text can be read back,
  `canonicalText_eq_iff` what two certificates with one text have in common.
* `hash_eq_iff`: two hashes agree exactly if the versions and the first digits of the
  timestamps do.
* `binds_iff`: when the bytes and the hashes tell two certificates apart.
-/

namespace SovereignBus

namespace Certificate

open Cursor Printed
open Obligations (text)

/-- The canonical form fits its buffer, with the NUL that is printed behind it. -/
abbrev Fits (cert : ProofCertificate) : Prop := canonicalLength cert < cert.bufSize

/-- The obligations are numbered as `sov_cert_add_obligation` numbers them. -/
def Numbered (cert : ProofCertificate) : Prop :=
  cert.obligations.map Obligation.id = (List.range cert.obligations.length).map UInt32.ofNat

/-- What `sov_cert_add_obligation` is told of an obligation. -/
def Obligation.content (obl : Obligation) : Int32 × UInt32 × UInt32 :=
  (obl.kind, obl.startPc, obl.endPc)

/-- Two certificates with the same content but for the program hash. -/
structure SamePrinted (cert cert' : ProofCertificate) : Prop where
  version : cert.version = cert'.version
  timestamp : cert.timestamp = cert'.timestamp
  programSize : cert.programSize = cert'.programSize
  obligations : cert.obligations.map Obligation.content = cert'.obligations.map Obligation.content
  initialStack : cert.initialStack = cert'.initialStack
  finalStack : cert.finalStack = cert'.finalStack

/-- Two certificates with the same content. -/
structure SameContent (cert cert' : ProofCertificate) : Prop extends SamePrinted cert cert' where
  programHash : cert.programHash = cert'.programHash

/-- The canonical bytes of a certificate and the hash it gets then, whatever stood in the
buffers. -/
def Digest (cert : ProofCertificate) (bytes : List UInt8) (hash : Fin 32 → UInt8) : Prop :=
  ∀ buf buf', ∃ r r', sovCertSerializeCbor buf cert = .ok r ∧ sovCertHash buf' r.2 = .ok r'
    ∧ r.1 = bytes ∧ r'.1 = 0 ∧ r'.2.certHash = hash

/-- The hash of a canonical form: its first bytes. -/
def hashOf (bytes : List UInt8) (i : Fin 32) : UInt8 := bytes.getD i 0

/-- The certificates have canonical bytes and hashes, and these tell them apart exactly if
their content differs. -/
def Binds (cert cert' : ProofCertificate) : Prop :=
  ∃ bytes hash bytes' hash', Digest cert bytes hash ∧ Digest cert' bytes' hash'
    ∧ (¬ SameContent cert cert' → bytes ≠ bytes' ∧ hash ≠ hash')
    ∧ (SameContent cert cert' → bytes = bytes' ∧ hash = hash')

lemma numbered_apply {cert : ProofCertificate} (h : Numbered cert) (c : Call) :
    Numbered (apply cert c) := by
  cases c with
  | setProgram programHash programSize => cases programHash <;> exact h
  | setStacks initStack finalStack => exact h
  | addObligation kind startPc endPc =>
      rw [apply, sovCertAddObligation]
      split_ifs
      · exact h
      · rw [Numbered, List.map_append, h, List.length_append, List.length_singleton,
          List.range_succ, List.map_append]
        rfl

/-- The calls leave numbered obligations. -/
lemma numbered_built (now : UInt64) (calls : List Call) : Numbered (built now calls) := by
  induction calls using List.reverseRecOn with
  | nil => rfl
  | append_singleton calls c ih =>
      rw [built, List.foldl_concat]
      exact numbered_apply ih c

/-! ### The canonical bytes -/

/-- The numbers of an obligation. -/
abbrev Numbers := ℕ × ℤ × ℕ × ℕ

/-- Their text. -/
def numbersText (n : Numbers) : List UInt8 :=
  text "\x7b\"id\":" ++ ((decimal n.1 ++ text ",\"kind\":") ++ ((signed n.2.1
    ++ text ",\"start_pc\":") ++ ((decimal n.2.2.1 ++ text ",\"end_pc\":")
    ++ (decimal n.2.2.2 ++ text "\x7d"))))

lemma prefixFree_numbers : PrefixFree numbersText :=
  ((delimits_decimal.closed fun _ => ends_of_head rfl rfl).prod
    ((delimits_signed.closed fun _ => ends_of_head rfl rfl).prod
      ((delimits_decimal.closed fun _ => ends_of_head rfl rfl).prod
        (delimits_decimal.closed fun _ => ends_of_head rfl rfl)))).opened _

/-- What is printed of a certificate. -/
abbrev Content := ℕ × ℕ × ℕ × List Numbers × List ℤ × List ℤ

/-- Its text. -/
def contentText (n : Content) : List UInt8 :=
  text "\x7b\"version\":" ++ ((decimal n.1 ++ text ",\"timestamp\":") ++ ((decimal n.2.1
    ++ text ",\"program_size\":") ++ ((decimal n.2.2.1 ++ text ",\"obligations\":[")
    ++ ((joined (text ",") (n.2.2.2.1.map numbersText) ++ text "],\"stacks\":\x7b\"initial\":[")
    ++ ((joined (text ",") (n.2.2.2.2.1.map signed) ++ text "],\"final\":[")
    ++ (joined (text ",") (n.2.2.2.2.2.map signed) ++ text "]\x7d\x7d"))))))

lemma prefixFree_stack {lit rest : List UInt8} (hlit : lit = 93 :: rest) :
    PrefixFree fun l : List ℤ => joined (text ",") (l.map signed) ++ lit :=
  delimits_signed.list (by decide) (fun _ => ends_of_head rfl rfl) (fun _ => ends_of_head rfl rfl)
    (signed_append_ne rfl) rfl hlit

lemma prefixFree_obligations {lit rest : List UInt8} (hlit : lit = 93 :: rest) :
    PrefixFree fun l : List Numbers => joined (text ",") (l.map numbersText) ++ lit :=
  prefixFree_numbers.list (b := 44) (by decide) (fun _ => trivial) (fun _ => trivial)
    (fun _ _ _ heq => absurd (List.cons.inj heq).1 (by decide)) rfl hlit

lemma prefixFree_content : PrefixFree contentText :=
  ((delimits_decimal.closed fun _ => ends_of_head rfl rfl).prod
    ((delimits_decimal.closed fun _ => ends_of_head rfl rfl).prod
      ((delimits_decimal.closed fun _ => ends_of_head rfl rfl).prod
        ((prefixFree_obligations rfl).prod
          ((prefixFree_stack rfl).prod (prefixFree_stack rfl)))))).opened _

def Obligation.numbers (obl : Obligation) : Numbers :=
  (obl.id.toNat, obl.kind.toInt, obl.startPc.toNat, obl.endPc.toNat)

def ProofCertificate.content (cert : ProofCertificate) : Content :=
  (cert.version.toNat, cert.timestamp.toNat, cert.programSize.toNat,
    cert.obligations.map Obligation.numbers, cert.initialStack.map Int64.toInt,
    cert.finalStack.map Int64.toInt)

lemma canonicalText_eq (cert : ProofCertificate) :
    canonicalText cert = contentText cert.content := by
  have hobl : numbersText ∘ Obligation.numbers = obligationText := by
    funext obl
    simp [numbersText, Obligation.numbers, obligationText]
  have hvalue : signed ∘ Int64.toInt = valueText := rfl
  simp [canonicalText, headText, contentText, ProofCertificate.content, hobl, hvalue]

lemma numbers_injective : Function.Injective Obligation.numbers := fun obl obl' h => by
  simp only [Obligation.numbers, Prod.mk.injEq, UInt32.toNat_inj, Int32.toInt_inj] at h
  cases obl
  cases obl'
  simp_all

variable {cert cert' : ProofCertificate}

/-- Numbered obligations are told apart by what was said of them. -/
lemma obligations_eq_iff (hn : Numbered cert) (hn' : Numbered cert') :
    cert.obligations = cert'.obligations
      ↔ cert.obligations.map Obligation.content = cert'.obligations.map Obligation.content := by
  refine ⟨fun h => by rw [h], fun h => ?_⟩
  have hlen : cert.obligations.length = cert'.obligations.length := by
    simpa using congrArg List.length h
  have hids : cert.obligations.map Obligation.id = cert'.obligations.map Obligation.id := by
    rw [hn, hn', hlen]
  refine List.ext_getElem hlen fun i hi hi' => ?_
  have hcontent : cert.obligations[i].content = cert'.obligations[i].content := by
    simpa [hi, hi'] using congrArg (·[i]?) h
  have hid : cert.obligations[i].id = cert'.obligations[i].id := by
    simpa [hi, hi'] using congrArg (·[i]?) hids
  simp only [Obligation.content, Prod.mk.injEq] at hcontent
  exact numbers_injective (by simp [Obligation.numbers, hid, hcontent])

/-- Two certificates with one canonical text. -/
lemma canonicalText_eq_iff (hn : Numbered cert) (hn' : Numbered cert') :
    canonicalText cert = canonicalText cert' ↔ SamePrinted cert cert' := by
  have hvalues : Function.Injective (List.map Int64.toInt) :=
    List.map_injective_iff.mpr fun _ _ => Int64.toInt_inj.mp
  rw [canonicalText_eq, canonicalText_eq, (prefixFree_content.injective trivial).eq_iff]
  simp only [ProofCertificate.content, Prod.mk.injEq, UInt32.toNat_inj, UInt64.toNat_inj,
    (List.map_injective_iff.mpr numbers_injective).eq_iff, hvalues.eq_iff,
    obligations_eq_iff hn hn']
  exact ⟨fun ⟨hv, ht, hp, ho, hi, hf⟩ => ⟨hv, ht, hp, ho, hi, hf⟩,
    fun ⟨hv, ht, hp, ho, hi, hf⟩ => ⟨hv, ht, hp, ho, hi, hf⟩⟩

/-! ### The hash -/

/-- The first digits of the timestamp, as many as the hash holds behind the version. -/
def leading (cert : ProofCertificate) : List UInt8 :=
  (decimal cert.timestamp.toNat).take (8 - (decimal cert.version.toNat).length)

lemma hashOf_eq_iff {s t : List UInt8} (hs : 32 ≤ s.length) (ht : 32 ≤ t.length) :
    hashOf s = hashOf t ↔ s.take 32 = t.take 32 := by
  constructor
  · intro h
    refine List.ext_getElem (by simp; omega) fun i hi hi' => ?_
    have hlt : i < 32 := by
      rw [List.length_take] at hi
      omega
    have hbyte := congrFun h ⟨i, hlt⟩
    simp only [hashOf] at hbyte
    rw [List.getD_eq_getElem _ _ (by omega), List.getD_eq_getElem _ _ (by omega)] at hbyte
    simpa using hbyte
  · intro h
    funext i
    have hbyte := congrArg (fun l => l.getD i 0) h
    simpa [hashOf, List.getD_eq_getElem?_getD, i.isLt] using hbyte

lemma length_decimal_le (v : UInt32) : (decimal v.toNat).length ≤ 10 := by
  rw [decimal, List.length_map]
  exact (Nat.length_toDigits_le_iff (by decide) (by decide)).mpr (by have := v.toNat_lt; omega)

lemma canonicalText_eq_append (cert : ProofCertificate) : ∃ rest, canonicalText cert
    = text "\x7b\"version\":" ++ (decimal cert.version.toNat ++ (text ",\"timestamp\":"
      ++ (decimal cert.timestamp.toNat ++ (text ",\"program_size\":" ++ rest)))) := by
  simp only [canonicalText, headText, List.append_assoc]
  exact ⟨_, rfl⟩

/-- The beginning of a canonical text. -/
lemma take_canonicalText (cert : ProofCertificate) : ∃ rest, (canonicalText cert).take 32
    = text "\x7b\"version\":" ++ (decimal cert.version.toNat
      ++ ((text ",\"timestamp\":").take (21 - (decimal cert.version.toNat).length)
      ++ (decimal cert.timestamp.toNat ++ (text ",\"program_size\":" ++ rest)).take
        (8 - (decimal cert.version.toNat).length))) := by
  obtain ⟨rest, heq⟩ := canonicalText_eq_append cert
  have hle := length_decimal_le cert.version
  have hopen : (text "\x7b\"version\":").length = 11 := rfl
  have hmid : (text ",\"timestamp\":").length = 13 := rfl
  refine ⟨rest, ?_⟩
  rw [heq, List.take_append, List.take_append, List.take_append, List.take_of_length_le (by omega),
    List.take_of_length_le (by omega), hopen, hmid]
  congr 4
  omega

/-- What follows the version in the beginning of a canonical text. -/
lemma ends_timestamp (cert : ProofCertificate) (s : List UInt8) :
    Ends ((text ",\"timestamp\":").take (21 - (decimal cert.version.toNat).length) ++ s) := by
  have hle := length_decimal_le cert.version
  obtain ⟨k, hk⟩ : ∃ k, 21 - (decimal cert.version.toNat).length = k + 1 :=
    ⟨20 - (decimal cert.version.toNat).length, by omega⟩
  rw [hk]
  exact ends_of_head rfl rfl

lemma le_length_canonicalText (cert : ProofCertificate) : 32 ≤ (canonicalText cert).length := by
  rw [length_canonicalText, canonicalLength]
  omega

/-- What two certificates with one hash have in common. -/
lemma hash_eq_iff : hashOf (canonicalText cert) = hashOf (canonicalText cert')
    ↔ cert.version = cert'.version ∧ leading cert = leading cert' := by
  obtain ⟨rest, htake⟩ := take_canonicalText cert
  obtain ⟨rest', htake'⟩ := take_canonicalText cert'
  have hlit : 8 - (decimal cert'.version.toNat).length ≤ (text ",\"program_size\":").length + 1 :=
    (Nat.sub_le _ _).trans (by decide)
  have htimestamp := take_decimal_iff (m := cert.timestamp.toNat) (n := cert'.timestamp.toNat) hlit
    (ends_of_head rfl rfl) rest rest'
  rw [hashOf_eq_iff (le_length_canonicalText cert) (le_length_canonicalText cert'), htake, htake',
    List.append_cancel_left_eq]
  constructor
  · intro h
    obtain ⟨hversion, h⟩ := delimits_decimal (ends_timestamp cert _) (ends_timestamp cert' _) h
    rw [hversion] at h
    refine ⟨UInt32.toNat_inj.mp hversion, ?_⟩
    rw [leading, hversion]
    exact htimestamp.mp (List.append_cancel_left h)
  · rintro ⟨hversion, hleading⟩
    rw [leading, hversion] at hleading
    rw [hversion, htimestamp.mpr hleading]

/-- What is written of a certificate that fits. -/
lemma Fits.write (h : Fits cert) (buf : ℕ → UInt8) :
    ∃ c, writeCanonical cert cert.bufSize ⟨0, buf⟩ = .ok c ∧ c.pos ≤ cert.bufSize
      ∧ c.content = canonicalText cert := by
  have hwrites := writes_canonical cert cert.bufSize
  have hlt : (canonicalText cert).length < cert.bufSize := by rwa [length_canonicalText]
  obtain ⟨c, hwrite, hpos⟩ := hwrites.fits ⟨0, buf⟩ (by simpa using hlt.le)
  have hcontent := hwrites.content _ _ hwrite (by simpa using hlt)
  refine ⟨c, hwrite, ?_, by simpa [content] using hcontent⟩
  rw [hpos, Nat.zero_add]
  exact hlt.le

lemma Fits.serialize (h : Fits cert) (buf : ℕ → UInt8) :
    ∃ j, sovCertSerializeCbor buf cert
      = .ok (canonicalText cert, { cert with canonicalJson := some j }) := by
  obtain ⟨c, hwrite, hle, hcontent⟩ := h.write buf
  exact ⟨_, hcontent ▸ serialize_of_write hwrite hle⟩

lemma Fits.hash (h : Fits cert) (buf : ℕ → UInt8) (j : Canonical) :
    ∃ r, sovCertHash buf { cert with canonicalJson := some j } = .ok (0, r)
      ∧ r.certHash = hashOf (canonicalText cert) := by
  obtain ⟨c, hwrite, hle, hcontent⟩ := h.write buf
  refine ⟨_, hash_of_write hwrite hle j, funext fun i => ?_⟩
  simp [hashOf, hcontent, List.getD_eq_getElem?_getD, i.isLt]

/-- What a certificate gets that fits. -/
lemma digest_iff (h : Fits cert) {bytes : List UInt8} {hash : Fin 32 → UInt8} :
    Digest cert bytes hash
      ↔ bytes = canonicalText cert ∧ hash = hashOf (canonicalText cert) := by
  constructor
  · intro hdigest
    obtain ⟨r, r', hr, hr', rfl, -, rfl⟩ := hdigest (fun _ => 0) fun _ => 0
    obtain ⟨j, hserialize⟩ := h.serialize fun _ => 0
    obtain rfl := Except.ok.inj (hserialize.symm.trans hr)
    obtain ⟨cert', hhash, heq⟩ := h.hash (fun _ => 0) j
    obtain rfl := Except.ok.inj (hhash.symm.trans hr')
    exact ⟨rfl, heq⟩
  · rintro ⟨rfl, rfl⟩ buf buf'
    obtain ⟨j, hserialize⟩ := h.serialize buf
    obtain ⟨cert', hhash, heq⟩ := h.hash buf' j
    exact ⟨_, _, hserialize, hhash, rfl, rfl, heq⟩

/-- The bytes of two certificates that fit tell them apart up to the program hash. The hashes
tell exactly the versions and the first digits of the timestamps apart, so that both tell
different certificates apart exactly if these differ. -/
theorem binds_iff (h : Fits cert) (h' : Fits cert') (hn : Numbered cert) (hn' : Numbered cert') :
    (∀ bytes hash bytes' hash', Digest cert bytes hash → Digest cert' bytes' hash' →
        (bytes ≠ bytes' ↔ ¬ SamePrinted cert cert'))
      ∧ (Binds cert cert' ↔ SameContent cert cert'
        ∨ cert.version ≠ cert'.version ∨ leading cert ≠ leading cert') := by
  have hash_ne_iff : hashOf (canonicalText cert) ≠ hashOf (canonicalText cert')
      ↔ cert.version ≠ cert'.version ∨ leading cert ≠ leading cert' := by
    rw [Ne, hash_eq_iff, not_and_or]
  refine ⟨fun bytes hash bytes' hash' hdigest hdigest' => ?_, ?_⟩
  · rw [((digest_iff h).mp hdigest).1, ((digest_iff h').mp hdigest').1]
    exact not_congr (canonicalText_eq_iff hn hn')
  · rw [← hash_ne_iff]
    constructor
    · rintro ⟨bytes, hash, bytes', hash', hdigest, hdigest', hdiffer, -⟩
      obtain ⟨rfl, rfl⟩ := (digest_iff h).mp hdigest
      obtain ⟨rfl, rfl⟩ := (digest_iff h').mp hdigest'
      by_cases hsame : SameContent cert cert'
      · exact .inl hsame
      · exact .inr (hdiffer hsame).2
    · intro hcases
      refine ⟨_, _, _, _, (digest_iff h).mpr ⟨rfl, rfl⟩, (digest_iff h').mpr ⟨rfl, rfl⟩,
        fun hdiffer => ?_, fun hsame => ?_⟩
      · have hne := hcases.resolve_left hdiffer
        exact ⟨fun heq => hne (congrArg hashOf heq), hne⟩
      · have heq := (canonicalText_eq_iff hn hn').mpr hsame.toSamePrinted
        exact ⟨heq, congrArg hashOf heq⟩

/-- The certificate of a program with two obligations and its stacks. -/
def proved (now : UInt64) : ProofCertificate :=
  built now [.setProgram (some fun _ => 171) 1024, .addObligation 0 0 12, .addObligation 2 12 40,
    .setStacks [3, -4] [5]]

/-- Two certificates of different times, empty ones and ones of a program. -/
theorem binds_iff_times :
    Binds (built 1000000 []) (built 2000000 []) ∧ Binds (proved 1000000) (proved 2000000) :=
  ⟨(binds_iff (by decide) (by decide) (numbered_built _ _) (numbered_built _ _)).2.mpr
      (.inr (.inr (by decide))),
    (binds_iff (by decide) (by decide) (numbered_built _ _) (numbered_built _ _)).2.mpr
      (.inr (.inr (by decide)))⟩

/-- The certificate of a program with this hash. -/
def withHash (b : UInt8) : ProofCertificate := built 0 [.setProgram (some fun _ => b) 1024]

/-- Two programs get the same bytes and the same hash. -/
theorem program_hash_unbound : ¬ Binds (withHash 171) (withHash 17) := by
  rintro ⟨bytes, hash, bytes', hash', hdigest, hdigest', hdiffer, -⟩
  obtain ⟨rfl, rfl⟩ := (digest_iff (by decide)).mp hdigest
  obtain ⟨rfl, rfl⟩ := (digest_iff (by decide)).mp hdigest'
  refine (hdiffer fun hsame => ?_).1 rfl
  exact absurd (congrFun hsame.programHash 0) (by decide)

end Certificate

end SovereignBus
