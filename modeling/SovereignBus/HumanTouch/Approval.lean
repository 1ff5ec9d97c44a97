import SovereignBus.HumanTouch.Gateway
import SovereignBus.Library.Hex
import SovereignBus.Library.Utf8

/-!
What `seb/human_touch/src/commit_gateway.rs` takes for an approval, before a commit and apart
from one.

* `checkNoAutoCommit`: the pre-commit hook. `accepted_verifies_iff` says when the verifier of
  the commit agrees with it.
* `createApprovalCertificate`: a certificate, over a `blake3`. `signature_eq_iff` says what its
  signature binds.
-/

namespace SovereignBus

namespace HumanTouch

open Lines (Blank)

/-! ### The pre-commit hook -/

/-- The refusals of the hook. -/
inductive HookError where
  /-- "Auto-commits rejected. All changes require human approval." -/
  | autoCommit
  /-- "Commit message cannot be empty" -/
  | emptyMessage
  /-- "Commit missing Approved-By field. All commits require human approval." -/
  | missingApprovedBy
deriving DecidableEq

def AutoGenerated (message : Text) : Prop :=
  "[auto]".toList <:+: message ∨ "auto-commit".toList <:+: message

instance decidableAutoGenerated (message : Text) : Decidable (AutoGenerated message) :=
  inferInstanceAs (Decidable (_ ∨ _))

/-- `check_no_auto_commit`. -/
def checkNoAutoCommit (message : Text) : Except HookError Unit :=
  if AutoGenerated message then .error .autoCommit
  else if trim message = [] then .error .emptyMessage
  else if ¬ approvedByField <:+: message then .error .missingApprovedBy
  else .ok ()

lemma trim_eq_nil {s : Text} : trim s = [] ↔ Blank isWhitespace s := by
  rw [← ink_eq_zero, ← ink_trim]
  refine ⟨fun h => by rw [h]; rfl, fun h => ?_⟩
  have hblank := trim_append_blank [] (ink_eq_zero.mp h)
  rwa [List.nil_append, trim_trim] at hblank

lemma checkNoAutoCommit_eq_ok {message : Text} :
    checkNoAutoCommit message = .ok () ↔ ¬ (AutoGenerated message ∨ Blank isWhitespace message
      ∨ ¬ approvedByField <:+: message) := by
  rw [checkNoAutoCommit, ← trim_eq_nil]
  split_ifs with hauto hempty hfield <;> simp [*]

/-- A name of somebody: there is more to it than white space, and it is not `unknown`. -/
def IsName (name : Text) : Prop :=
  ¬ Blank isWhitespace name
    ∧ ∀ a b, Blank isWhitespace a → Blank isWhitespace b → name ≠ a ++ (unknown ++ b)

lemma isName_iff {name : Text} : IsName name ↔ trim name ≠ [] ∧ trim name ≠ unknown := by
  refine and_congr trim_eq_nil.not.symm ⟨fun h heq => ?_, fun h a b ha hb heq => h ?_⟩
  · obtain ⟨a, b, ha, hb, hname⟩ := exists_trim name
    rw [heq] at hname
    exact h a b ha hb hname
  · rw [heq, trim_blank_append ha, trim_append_blank _ hb]
    rfl

/-- `l` is the last line with the field. -/
def IsLast (field : Text) (ls : List Text) (l : Text) : Prop :=
  ∃ pre post, ls = pre ++ l :: post ∧ field <+: l ∧ ∀ l' ∈ post, ¬ field <+: l'

lemma IsLast.lastValue_eq {field l : Text} {ls : List Text} (h : IsLast field ls l) (v : Text) :
    lastValue field ls v = valueOf field l := by
  obtain ⟨pre, post, rfl, hpre, hpost⟩ := h
  rw [lastValue_append, ← List.singleton_append, lastValue_append, lastValue_of_not_mem hpost]
  exact if_pos hpre

lemma exists_isLast (field : Text) (ls : List Text) :
    (∀ l ∈ ls, ¬ field <+: l) ∨ ∃ l, IsLast field ls l := by
  induction ls with
  | nil => exact .inl (by simp)
  | cons l ls ih =>
      rcases ih with hnone | ⟨l', pre, post, rfl, hpre, hpost⟩
      · by_cases hl : field <+: l
        · exact .inr ⟨l, [], ls, rfl, hl, hnone⟩
        · exact .inl (List.forall_mem_cons.mpr ⟨hl, hnone⟩)
      · exact .inr ⟨l', l :: pre, post, rfl, hpre, hpost⟩

/-- The verifier on a commit with the message. -/
lemma verifyCommitApproval_eq {g : Git} {repo : g.Repo} {hash message : Text} {oid : g.Oid}
    {commit : g.Commit} (hoid : g.oidFromStr hash = .ok oid)
    (hfind : g.findCommit repo oid = .ok commit) (hmessage : g.message commit = some message)
    (c : HumanApprovedCommit) :
    verifyCommitApproval g repo hash = .ok c
      ↔ (metadataOf message).approvedBy ≠ unknown
        ∧ c = ⟨(metadataOf message).changeId, (metadataOf message).approvedBy,
          (metadataOf message).approvalDate, (metadataOf message).evidenceUrl, none⟩ := by
  rw [verifyCommitApproval, bind_fromGit_eq_ok]
  simp only [hoid, Except.ok.injEq, exists_eq_left', bind_fromGit_eq_ok, hfind, hmessage,
    Option.getD_some]
  by_cases hunknown : (metadataOf message).approvedBy = unknown
  · rw [if_pos hunknown]
    exact iff_of_false (fun h => by cases h) fun h => h.1 hunknown
  · rw [if_neg hunknown]
    exact ⟨fun h => ⟨hunknown, (Except.ok.inj h).symm⟩, fun h => congrArg Except.ok h.2.symm⟩

/-- The last line of the message with the field has a name behind it, or behind the last of its
copies where it is repeated. -/
def NamesApprover (message : Text) : Prop :=
  ∃ l name, IsLast approvedByField (lines message) l ∧ Behind approvedByField l name ∧ IsName name

lemma namesApprover_iff {message : Text} :
    NamesApprover message ↔ ∃ l, IsLast approvedByField (lines message) l
      ∧ valueOf approvedByField l ≠ [] ∧ valueOf approvedByField l ≠ unknown := by
  have hfield : approvedByField ≠ [] := by decide
  simp only [NamesApprover, behind_iff hfield, exists_and_left, exists_eq_left, isName_iff, valueOf]

/-- A message that the hook accepts is verified, with an approver, exactly if it has a text for
which the hook refuses it after all, or names an approver. -/
theorem accepted_verifies_iff {g : Git} {repo : g.Repo} {hash message : Text} {oid : g.Oid}
    {commit : g.Commit} (hoid : g.oidFromStr hash = .ok oid)
    (hfind : g.findCommit repo oid = .ok commit) (hmessage : g.message commit = some message) :
    (checkNoAutoCommit message = .ok () →
        ∃ c, verifyCommitApproval g repo hash = .ok c ∧ c.approvedBy ≠ [])
      ↔ (AutoGenerated message ∨ Blank isWhitespace message ∨ ¬ approvedByField <:+: message)
        ∨ NamesApprover message := by
  have hverify : (∃ c, verifyCommitApproval g repo hash = .ok c ∧ c.approvedBy ≠ [])
      ↔ (metadataOf message).approvedBy ≠ unknown ∧ (metadataOf message).approvedBy ≠ [] := by
    simp only [verifyCommitApproval_eq hoid hfind hmessage, and_assoc, exists_and_left,
      exists_eq_left]
  have happroved : (metadataOf message).approvedBy
      = lastValue approvedByField (lines message) unknown := by
    rw [metadataOf, foldl_read]
  rw [checkNoAutoCommit_eq_ok, hverify, happroved, namesApprover_iff, imp_iff_not_or, not_not]
  refine or_congr_right ⟨?_, ?_⟩
  · rintro ⟨hunknown, hne⟩
    rcases exists_isLast approvedByField (lines message) with hnone | ⟨l, hlast⟩
    · exact absurd (lastValue_of_not_mem hnone unknown) hunknown
    · rw [hlast.lastValue_eq] at hunknown hne
      exact ⟨l, hlast, hne, hunknown⟩
  · rintro ⟨l, hlast, hne, hunknown⟩
    rw [hlast.lastValue_eq]
    exact ⟨hunknown, hne⟩

theorem accepted_verifies_plain :
    ∃ c, verifyCommitApproval lastCommitGit
        "feat: add feature\n\nApproved-By: Human".toList [] = .ok c ∧ c.approvedBy ≠ [] := by
  have hnames : NamesApprover "feat: add feature\n\nApproved-By: Human".toList := by
    refine namesApprover_iff.mpr ⟨"Approved-By: Human".toList,
      ⟨["feat: add feature".toList, []], [], by decide, by decide, by simp⟩, ?_, ?_⟩ <;> decide
  exact (@accepted_verifies_iff lastCommitGit "feat: add feature\n\nApproved-By: Human".toList []
    _ () _ rfl rfl rfl).mpr (.inr hnames) (by decide)

/-- The hook finds the field inside a line, where the verifier does not look, and a repeated
field, behind which the verifier finds no approver. -/
theorem accepted_not_verified :
    (checkNoAutoCommit "feat: add feature (Approved-By: Human)".toList = .ok ()
      ∧ verifyCommitApproval lastCommitGit "feat: add feature (Approved-By: Human)".toList []
        = .error .missingApprovedBy)
      ∧ checkNoAutoCommit "feat: x\nApproved-By:Approved-By:".toList = .ok ()
      ∧ ∃ c, verifyCommitApproval lastCommitGit "feat: x\nApproved-By:Approved-By:".toList []
          = .ok c ∧ c.approvedBy = [] :=
  ⟨⟨by decide, rfl⟩, by decide, _, rfl, by decide⟩

/-! ### Certificates -/

/-- What `to_rfc3339_opts` renders, which has no `|`. -/
structure ApprovalTime extends Timestamp where
  noBar : '|' ∉ text

/-- `ApprovalCertificate`. -/
structure ApprovalCertificate where
  changeId : Text
  reviewer : Text
  approvalTime : Text
  evidenceHash : Text
  signature : Text
deriving DecidableEq

def signingMaterial (changeId reviewer time : Text) : Text :=
  changeId ++ "||".toList ++ reviewer ++ "||".toList ++ time

/-- `create_approval_certificate`. -/
def createApprovalCertificate (blake3 : List UInt8 → List UInt8) (now : ApprovalTime)
    (changeId reviewer evidenceUrl : Text) : ApprovalCertificate where
  changeId := changeId
  reviewer := reviewer
  approvalTime := now.text
  evidenceHash := Hex.encode (blake3 (Utf8.encode evidenceUrl))
  signature := Hex.encode (blake3 (Utf8.encode (signingMaterial changeId reviewer now.text)))

lemma signature_congr {blake3 : List UInt8 → List UInt8} {t t' : ApprovalTime} {i i' r r' : Text}
    (url url' : Text) (h : signingMaterial i r t.text = signingMaterial i' r' t'.text) :
    (createApprovalCertificate blake3 t i r url).signature
      = (createApprovalCertificate blake3 t' i' r' url').signature :=
  congrArg (fun m => Hex.encode (blake3 (Utf8.encode m))) h

/-- A certificate that was created. -/
def Issued (blake3 : List UInt8 → List UInt8) (c : ApprovalCertificate) : Prop :=
  ∃ now changeId reviewer evidenceUrl,
    c = createApprovalCertificate blake3 now changeId reviewer evidenceUrl

/-- The change id of `c'` is that of `c` and runs on, over the separator that stands there in
the material of `c`. -/
def RunsOn (c c' : ApprovalCertificate) : Prop :=
  ∃ x, x ≠ [] ∧ c'.changeId = c.changeId ++ x
    ∧ "||".toList ++ c.reviewer = x ++ ("||".toList ++ c'.reviewer)

lemma not_runsOn_of_not_mem {c c' : ApprovalCertificate} (h : '|' ∉ c'.changeId) :
    ¬ RunsOn c c' := by
  rintro ⟨x, hne, hid, hsep⟩
  obtain ⟨a, x, rfl⟩ := List.exists_cons_of_ne_nil hne
  have ha : '|' = a := (List.cons.inj hsep).1
  apply h
  rw [hid, ← ha]
  simp

/-- The time stands behind the last separator. -/
lemma signingMaterial_inj {i i' r r' : Text} (t t' : ApprovalTime) :
    signingMaterial i r t.text = signingMaterial i' r' t'.text
      ↔ i ++ ("||".toList ++ r) = i' ++ ("||".toList ++ r') ∧ t.text = t'.text := by
  have htime : ∀ (i r : Text) (t : ApprovalTime),
      Lines.unfinished (· == '|') (signingMaterial i r t.text) = t.text := by
    intro i r t
    have hbar : ∀ c ∈ t.text, (c == '|') = false := fun c hc => by
      simpa using fun h : c = '|' => t.noBar (h ▸ hc)
    have hsplit : signingMaterial i r t.text
        = (i ++ "||".toList ++ r ++ ['|']) ++ ['|'] ++ t.text := by
      simp [signingMaterial]
    rw [hsplit, Lines.unfinished_append_of_not _ hbar, Lines.unfinished_concat_sep _ (by simp),
      List.nil_append]
  constructor
  · intro h
    have ht : t.text = t'.text := by rw [← htime i r t, h, htime]
    rw [signingMaterial, signingMaterial, ht, List.append_cancel_right_eq,
      List.append_cancel_right_eq, List.append_assoc, List.append_assoc] at h
    exact ⟨h, ht⟩
  · rintro ⟨h, ht⟩
    rw [← List.append_assoc, ← List.append_assoc] at h
    rw [signingMaterial, signingMaterial, h, ht]

/-- A `blake3` without collisions binds the change, the reviewer and the time of certificates
whose change ids do not run on over the separator, and nothing else. -/
theorem signature_eq_iff {blake3 : List UInt8 → List UInt8} (hblake3 : Function.Injective blake3)
    {c c' : ApprovalCertificate} (hc : Issued blake3 c) (hc' : Issued blake3 c')
    (hsep : ¬ RunsOn c c') (hsep' : ¬ RunsOn c' c) :
    c.signature = c'.signature
      ↔ c.changeId = c'.changeId ∧ c.reviewer = c'.reviewer
        ∧ c.approvalTime = c'.approvalTime := by
  obtain ⟨t, i, r, url, rfl⟩ := hc
  obtain ⟨t', i', r', url', rfl⟩ := hc'
  calc (createApprovalCertificate blake3 t i r url).signature
          = (createApprovalCertificate blake3 t' i' r' url').signature
      ↔ signingMaterial i r t.text = signingMaterial i' r' t'.text :=
        (Hex.encode_injective.comp (hblake3.comp Utf8.encode_injective)).eq_iff
    _ ↔ i ++ ("||".toList ++ r) = i' ++ ("||".toList ++ r') ∧ t.text = t'.text :=
        signingMaterial_inj t t'
    _ ↔ (i = i' ∧ r = r') ∧ t.text = t'.text := and_congr_left' ⟨fun h => ?_, ?_⟩
    _ ↔ i = i' ∧ r = r' ∧ t.text = t'.text := and_assoc
  · rcases List.append_eq_append_iff.mp h with ⟨x, hid, hrest⟩ | ⟨x, hid, hrest⟩
    · rcases eq_or_ne x [] with rfl | hne
      · rw [List.append_nil] at hid
        exact ⟨hid.symm, List.append_cancel_left hrest⟩
      · exact absurd ⟨x, hne, hid, hrest⟩ hsep
    · rcases eq_or_ne x [] with rfl | hne
      · rw [List.append_nil] at hid
        exact ⟨hid, (List.append_cancel_left hrest).symm⟩
      · exact absurd ⟨x, hne, hid, hrest⟩ hsep'
  · rintro ⟨rfl, rfl⟩
    rfl

/-- Some values of BLAKE3. -/
def blake3Table : List (List UInt8 × List UInt8) :=
  [(Utf8.encode "c-7||ada||2026-01-01T12:00:00Z".toList,
      [190, 48, 31, 145, 127, 173, 9, 206, 2, 156, 237, 233, 131, 15, 155, 91,
        184, 65, 77, 254, 18, 35, 254, 227, 231, 215, 46, 147, 107, 63, 161, 28]),
    (Utf8.encode "c-8||ada||2026-01-01T12:00:00Z".toList,
      [225, 219, 123, 117, 117, 164, 80, 247, 133, 214, 94, 78, 121, 255, 194, 94,
        138, 172, 112, 163, 19, 12, 218, 154, 234, 139, 177, 225, 107, 211, 92, 193]),
    (Utf8.encode "c-7||x||ada||2026-01-01T12:00:00Z".toList,
      [231, 140, 114, 166, 209, 246, 214, 129, 80, 176, 53, 215, 32, 120, 68, 251,
        154, 231, 74, 12, 87, 180, 200, 241, 73, 189, 89, 116, 238, 201, 36, 98]),
    (Utf8.encode "https://example.com/7".toList,
      [193, 106, 226, 211, 154, 219, 66, 86, 121, 30, 188, 58, 56, 99, 207, 167,
        32, 113, 116, 131, 19, 123, 222, 80, 254, 36, 131, 44, 214, 228, 121, 120]),
    (Utf8.encode "https://example.com/8".toList,
      [210, 216, 119, 239, 28, 189, 235, 188, 179, 121, 169, 66, 100, 69, 191, 130,
        35, 195, 19, 68, 162, 223, 31, 82, 174, 221, 226, 9, 63, 104, 35, 215])]

/-- A hash that is BLAKE3 on the table. -/
def tabled (s : List UInt8) : List UInt8 :=
  match blake3Table.find? (·.1 = s) with
  | some p => p.2
  | none => List.replicate 33 0 ++ s

def untabled (h : List UInt8) : List UInt8 :=
  match blake3Table.find? (·.2 = h) with
  | some p => p.1
  | none => h.drop 33

lemma tabled_injective : Function.Injective tabled := by
  refine Function.LeftInverse.injective (show Function.LeftInverse untabled tabled from ?_)
  intro s
  rw [tabled]
  cases hfind : blake3Table.find? (·.1 = s) with
  | some p =>
      have hback : blake3Table.all (fun p => untabled p.2 = p.1) = true := by decide +kernel
      have hs : p.1 = s := by simpa using List.find?_some hfind
      have hp := List.all_eq_true.mp hback p (List.mem_of_find?_eq_some hfind)
      rw [← hs]
      exact of_decide_eq_true hp
  | none =>
      have hlength : blake3Table.all (fun p => p.2.length = 32) = true := by decide +kernel
      have hnone : blake3Table.find? (·.2 = List.replicate 33 0 ++ s) = none := by
        rw [List.find?_eq_none]
        intro p hp heq
        have hp32 := of_decide_eq_true (List.all_eq_true.mp hlength p hp)
        rw [of_decide_eq_true heq, List.length_append, List.length_replicate] at hp32
        omega
      rw [untabled]
      simp only [hnone]
      rw [List.drop_left' (by simp)]

def approvalNoon : ApprovalTime := ⟨noon, by decide⟩

theorem signature_eq_plain :
    (createApprovalCertificate tabled approvalNoon "c-7".toList "ada".toList
        "https://example.com/7".toList).signature
      ≠ (createApprovalCertificate tabled approvalNoon "c-8".toList "ada".toList
        "https://example.com/7".toList).signature := fun h =>
  absurd ((signature_eq_iff tabled_injective ⟨_, _, _, _, rfl⟩ ⟨_, _, _, _, rfl⟩
    (not_runsOn_of_not_mem (by decide)) (not_runsOn_of_not_mem (by decide))).mp h).1 (by decide)

/-- The signature leaves the evidence out, and its separator may stand in the change id. -/
theorem signature_moved :
    Function.Injective tabled
      ∧ (∃ c c', Issued tabled c ∧ Issued tabled c' ∧ c.evidenceHash ≠ c'.evidenceHash
        ∧ c.signature = c'.signature)
      ∧ ∃ c c', Issued tabled c ∧ Issued tabled c' ∧ c.changeId ≠ c'.changeId
        ∧ c.signature = c'.signature := by
  have hmaterial : signingMaterial "c-7".toList "x||ada".toList noon.text
      = signingMaterial "c-7||x".toList "ada".toList noon.text := by decide
  refine ⟨tabled_injective, ⟨_, _, ⟨approvalNoon, "c-7".toList, "ada".toList,
      "https://example.com/7".toList, rfl⟩, ⟨approvalNoon, "c-7".toList, "ada".toList,
      "https://example.com/8".toList, rfl⟩, fun h => ?_,
      signature_congr _ _ rfl⟩,
    ⟨_, _, ⟨approvalNoon, "c-7".toList, "x||ada".toList, "https://example.com/7".toList, rfl⟩,
      ⟨approvalNoon, "c-7||x".toList, "ada".toList, "https://example.com/7".toList, rfl⟩,
      by decide, signature_congr _ _ hmaterial⟩⟩
  have hurl := Utf8.encode_injective (tabled_injective (Hex.encode_injective h))
  exact absurd hurl (by decide)

end HumanTouch

end SovereignBus
