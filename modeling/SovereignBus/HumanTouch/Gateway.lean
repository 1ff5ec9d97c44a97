import SovereignBus.HumanTouch.Text

/-!
Commits of `seb/human_touch/src/commit_gateway.rs`.

* `commitWithApproval`, `verifyCommitApproval`: the metadata of an approval,
  written into the message of a commit and read back, over a `Git` that stands
  for git2.
* `lastValue`: what the reader makes of one field.
* `approval_survives_iff`: which texts come back as they were given.
-/

namespace SovereignBus

namespace HumanTouch

open Lines

/-- What the gateway uses of git2, on a repository that is open. -/
structure Git where
  Repo : Type
  Oid : Type
  Tree : Type
  Sig : Type
  Commit : Type
  Err : Type
  /-- `index`, `write_tree` and `find_tree`. -/
  stagedTree : Repo → Except Err Tree
  /-- `Signature::now`. -/
  signature : Text → Text → Except Err Sig
  /-- `head` and its `target`. -/
  headTarget : Repo → Except Err (Option Oid)
  findCommit : Repo → Oid → Except Err Commit
  commit : Repo → Sig → Text → Tree → Commit → Except Err (Oid × Repo)
  message : Commit → Option Text
  oidToString : Oid → Text
  oidFromStr : Text → Except Err Oid

/-- git2 finds a commit it has made, with its message verbatim. -/
structure Git.Verbatim (g : Git) : Prop where
  oid : ∀ oid, g.oidFromStr (g.oidToString oid) = .ok oid
  message : ∀ repo sig body tree parent oid repo',
    g.commit repo sig body tree parent = .ok (oid, repo') →
      ∃ c, g.findCommit repo' oid = .ok c ∧ g.message c = some body

/-- The errors of the gateway. -/
inductive GatewayError (E : Type) where
  | git (e : E)
  /-- "No HEAD commit found" -/
  | noHeadCommit
  /-- "Commit missing Approved-By field" -/
  | missingApprovedBy
deriving DecidableEq

/-- An error of git2, handed on. -/
def fromGit {E A : Type} (x : Except E A) : Except (GatewayError E) A := x.mapError .git

/-- What stands behind the last field. -/
def coAuthor : Text :=
  "\nCo-Authored-By: Human-Touch Gateway <human-review@snapkitty.ai>".toList

/-- The commit message of `commit_with_approval`. -/
def commitBody (changeId reviewer message evidenceUrl : Text) (now : Timestamp) : Text :=
  message ++ "\n\nApproved-By: ".toList ++ reviewer ++ "\nReview-Date: ".toList ++ now.text
    ++ "\nEvidence: ".toList ++ evidenceUrl ++ "\nChange-ID: ".toList ++ changeId
    ++ "\n".toList ++ coAuthor

/-- `commit_with_approval`: the hash of the commit, and the repository with it. -/
def commitWithApproval (g : Git) (repo : g.Repo) (now : Timestamp)
    (changeId reviewer message evidenceUrl : Text) :
    Except (GatewayError g.Err) (Text × g.Repo) := do
  let tree ← fromGit (g.stagedTree repo)
  let sig ← fromGit (g.signature reviewer (reviewer ++ "-review@snapkitty.ai".toList))
  let target ← fromGit (g.headTarget repo)
  match target with
  | none => throw .noHeadCommit
  | some head =>
      let parent ← fromGit (g.findCommit repo head)
      let body := commitBody changeId reviewer message evidenceUrl now
      let r ← fromGit (g.commit repo sig body tree parent)
      return (g.oidToString r.1, r.2)

/-- The fields that `verify_commit_approval` collects. -/
structure Metadata where
  approvedBy : Text
  approvalDate : Text
  evidenceUrl : Text
  changeId : Text
deriving DecidableEq

/-- The value of a field that is not there. -/
def unknown : Text := "unknown".toList

def approvedByField : Text := "Approved-By:".toList

def reviewDateField : Text := "Review-Date:".toList

def evidenceField : Text := "Evidence:".toList

def changeIdField : Text := "Change-ID:".toList

/-- What a line says behind the name of its field. -/
def valueOf (field line : Text) : Text := trim (trimStartMatches field line)

/-- One line of the message. -/
def Metadata.read (m : Metadata) (line : Text) : Metadata :=
  if approvedByField <+: line then { m with approvedBy := valueOf approvedByField line }
  else if reviewDateField <+: line then { m with approvalDate := valueOf reviewDateField line }
  else if evidenceField <+: line then { m with evidenceUrl := valueOf evidenceField line }
  else if changeIdField <+: line then { m with changeId := valueOf changeIdField line }
  else m

/-- The fields of a commit message. -/
def metadataOf (message : Text) : Metadata :=
  (lines message).foldl Metadata.read ⟨unknown, unknown, unknown, unknown⟩

/-- `HumanApprovedCommit`. -/
structure HumanApprovedCommit where
  changeId : Text
  approvedBy : Text
  approvalDate : Text
  evidenceUrl : Text
  reviewLink : Option Text
deriving DecidableEq

/-- `verify_commit_approval`. -/
def verifyCommitApproval (g : Git) (repo : g.Repo) (commitHash : Text) :
    Except (GatewayError g.Err) HumanApprovedCommit := do
  let oid ← fromGit (g.oidFromStr commitHash)
  let commit ← fromGit (g.findCommit repo oid)
  let message := (g.message commit).getD "(no message)".toList
  let m := metadataOf message
  if m.approvedBy = unknown then throw .missingApprovedBy
  return ⟨m.changeId, m.approvedBy, m.approvalDate, m.evidenceUrl, none⟩

/-! ### One field -/

/-- The value that the last line with the field gives it. -/
def lastValue (field : Text) (ls : List Text) (v : Text) : Text :=
  ls.foldl (fun v l => if field <+: l then valueOf field l else v) v

lemma lastValue_append (field : Text) (ls ls' : List Text) (v : Text) :
    lastValue field (ls ++ ls') v = lastValue field ls' (lastValue field ls v) := by
  rw [lastValue, List.foldl_append, lastValue, lastValue]

lemma lastValue_skip (field h : Text) (ls r : List Text) (v : Text) :
    lastValue field (h :: (ls ++ r)) v = lastValue field r (lastValue field (h :: ls) v) := by
  rw [← List.cons_append, lastValue_append]

lemma lastValue_of_not_mem {field : Text} {ls : List Text} (h : ∀ l ∈ ls, ¬ field <+: l)
    (v : Text) : lastValue field ls v = v := by
  induction ls with
  | nil => rfl
  | cons l ls ih =>
      rw [lastValue, List.foldl_cons, if_neg (h l List.mem_cons_self), ← lastValue]
      exact ih fun l' hl' => h l' (List.mem_cons_of_mem l hl')

/-- A field has the value it had or one that a line gives it. -/
lemma lastValue_cases (field : Text) (ls : List Text) (v : Text) :
    (∀ l ∈ ls, ¬ field <+: l) ∨ ∃ l ∈ ls, field <+: l ∧ lastValue field ls v = valueOf field l := by
  induction ls using List.reverseRecOn with
  | nil => exact .inl (by simp)
  | append_singleton ls l ih =>
      rw [lastValue_append]
      by_cases hl : field <+: l
      · exact .inr ⟨l, by simp, hl, by simp [lastValue, hl]⟩
      · rcases ih with hnot | ⟨l', hmem, hpre, hval⟩
        · refine .inl fun l' hl' => ?_
          rcases List.mem_append.mp hl' with hl' | hl'
          · exact hnot l' hl'
          · rw [List.mem_singleton.mp hl']
            exact hl
        · exact .inr ⟨l', by simp [hmem], hpre, by simp [lastValue, hl, ← hval]⟩

/-- A name that the lines of a text can be searched for: it is on one line, it is
not blank, and it does not begin like what stands behind it. -/
structure FieldName (field : Text) : Prop where
  inked : 0 < ink field
  oneLine : '\n' ∉ field
  head : field.head? ≠ some ' '

instance decidableFieldName (field : Text) : Decidable (FieldName field) :=
  decidable_of_iff (0 < ink field ∧ '\n' ∉ field ∧ field.head? ≠ some ' ')
    ⟨fun h => ⟨h.1, h.2.1, h.2.2⟩, fun h => ⟨h.inked, h.oneLine, h.head⟩⟩

lemma FieldName.ne_nil {field : Text} (h : FieldName field) : field ≠ [] := by
  rintro rfl
  simpa [ink] using h.inked

lemma fieldName_approvedBy : FieldName approvedByField := by decide

lemma fieldName_reviewDate : FieldName reviewDateField := by decide

lemma fieldName_evidence : FieldName evidenceField := by decide

lemma fieldName_changeId : FieldName changeIdField := by decide

/-- The names of the fields begin differently. -/
lemma fieldNames_heads :
    (approvedByField.head? ≠ reviewDateField.head? ∧ approvedByField.head? ≠ evidenceField.head?
        ∧ approvedByField.head? ≠ changeIdField.head?)
      ∧ (reviewDateField.head? ≠ evidenceField.head?
        ∧ reviewDateField.head? ≠ changeIdField.head?)
      ∧ evidenceField.head? ≠ changeIdField.head? := by
  decide

/-- So a line has one of them only. -/
lemma FieldName.not_prefix {f g l : Text} (hf : FieldName f) (hg : FieldName g)
    (hne : f.head? ≠ g.head?) (h : f <+: l) : ¬ g <+: l := by
  rintro ⟨t', rfl⟩
  obtain ⟨t, ht⟩ := h
  apply hne
  rw [← List.head?_append_of_ne_nil f hf.ne_nil, ht, List.head?_append_of_ne_nil g hg.ne_nil]

lemma Metadata.read_eq (m : Metadata) (l : Text) :
    m.read l = ⟨lastValue approvedByField [l] m.approvedBy,
      lastValue reviewDateField [l] m.approvalDate, lastValue evidenceField [l] m.evidenceUrl,
      lastValue changeIdField [l] m.changeId⟩ := by
  obtain ⟨⟨har, hae, hac⟩, ⟨hre, hrc⟩, hec⟩ := fieldNames_heads
  simp only [lastValue, List.foldl_cons, List.foldl_nil, Metadata.read]
  by_cases ha : approvedByField <+: l
  · have hr := fieldName_approvedBy.not_prefix fieldName_reviewDate har ha
    have he := fieldName_approvedBy.not_prefix fieldName_evidence hae ha
    have hc := fieldName_approvedBy.not_prefix fieldName_changeId hac ha
    rw [if_pos ha, if_pos ha, if_neg hr, if_neg he, if_neg hc]
  · rw [if_neg ha, if_neg ha]
    by_cases hr : reviewDateField <+: l
    · have he := fieldName_reviewDate.not_prefix fieldName_evidence hre hr
      have hc := fieldName_reviewDate.not_prefix fieldName_changeId hrc hr
      rw [if_pos hr, if_pos hr, if_neg he, if_neg hc]
    · rw [if_neg hr, if_neg hr]
      by_cases he : evidenceField <+: l
      · have hc := fieldName_evidence.not_prefix fieldName_changeId hec he
        rw [if_pos he, if_pos he, if_neg hc]
      · rw [if_neg he, if_neg he]
        by_cases hc : changeIdField <+: l
        · rw [if_pos hc, if_pos hc]
        · rw [if_neg hc, if_neg hc]

lemma foldl_read (ls : List Text) (m : Metadata) :
    ls.foldl Metadata.read m
      = ⟨lastValue approvedByField ls m.approvedBy, lastValue reviewDateField ls m.approvalDate,
        lastValue evidenceField ls m.evidenceUrl, lastValue changeIdField ls m.changeId⟩ := by
  induction ls generalizing m with
  | nil => rfl
  | cons l ls ih =>
      rw [List.foldl_cons, ih, Metadata.read_eq]
      rfl

lemma lastValue_trimmed (field : Text) (ls : List Text) {v : Text} (hv : trim v = v) :
    trim (lastValue field ls v) = lastValue field ls v := by
  rcases lastValue_cases field ls v with hnot | ⟨l, -, -, hval⟩
  · rw [lastValue_of_not_mem hnot, hv]
  · rw [hval, valueOf, trim_trim]

/-- The line that a field of the message begins with. -/
def heading (field x : Text) : Text := chomp (field ++ ' ' :: (firstLine x ++ ['\n']))

lemma heading_eq (field x : Text) :
    heading field x = field ++ ' ' :: chomp (firstLine x ++ ['\n']) := by
  rw [heading, chomp_append_cons _ (by decide) (by decide)]

lemma prefix_heading (field x : Text) : field <+: heading field x := by
  rw [heading_eq]
  exact List.prefix_append _ _

lemma valueOf_heading {field : Text} (hf : FieldName field) (x : Text) :
    valueOf field (heading field x) = trim (firstLine x) := by
  obtain ⟨f, field, rfl⟩ := List.exists_cons_of_ne_nil hf.ne_nil
  have hhead : ' ' ≠ f := fun h => hf.head (by rw [h]; rfl)
  have hblank : Blank isWhitespace [' '] := by simp [Blank, isWhitespace]
  have hend : Blank isWhitespace ['\n'] := by simp [Blank, isWhitespace]
  rw [heading_eq, valueOf, trimStartMatches_append hhead, ← List.singleton_append,
    trim_blank_append hblank, trim_chomp, trim_append_blank _ hend]

/-- A line with little ink has no field. -/
lemma not_prefix_of_blank {field x : Text} (hf : FieldName field)
    (hx : Blank isWhitespace (behindFirst x)) {ls : List Text}
    (hls : ∀ l ∈ ls, ink l ≤ ink (behindFirst x)) : ∀ l ∈ ls, ¬ field <+: l := by
  intro l hl hpre
  have hle := ink_le_of_isInfix hpre.isInfix
  have hzero := ink_eq_zero.mpr hx
  have hfield := hf.inked
  have := hls l hl
  omega

/-- The lines of another field do not have it. -/
lemma not_prefix_block {field other x : Text} (hf : FieldName field) (hother : FieldName other)
    (hhead : field.head? ≠ other.head?) (hx : Blank isWhitespace (behindFirst x))
    {ls r : List Text} (hls : ∀ l ∈ ls, ink l ≤ ink (behindFirst x)) (hr : ∀ l ∈ r, ¬ field <+: l) :
    ∀ l ∈ heading other x :: (ls ++ r), ¬ field <+: l := by
  intro l hl hpre
  rcases List.mem_cons.mp hl with rfl | hl
  · exact hother.not_prefix hf hhead.symm (prefix_heading other x) hpre
  · rcases List.mem_append.mp hl with hl | hl
    · exact not_prefix_of_blank hf hx hls l hl hpre
    · exact hr l hl hpre

/-- A field that no later line takes up comes back exactly when its text has
nothing behind its first line. -/
lemma lastValue_field_iff {field : Text} (hf : FieldName field) (x : Text) {ls r : List Text}
    (hls : ∀ l ∈ ls, ink l ≤ ink (behindFirst x)) (hr : ∀ l ∈ r, ¬ field <+: l) (v : Text) :
    trim (lastValue field (heading field x :: (ls ++ r)) v) = trim x
      ↔ Blank isWhitespace (behindFirst x) := by
  have hx := firstLine_append_behind x
  have hcons : lastValue field (heading field x :: (ls ++ r)) v
      = lastValue field ls (trim (firstLine x)) := by
    rw [← List.singleton_append, lastValue_append, lastValue_append, lastValue_of_not_mem hr]
    simp [lastValue, prefix_heading, valueOf_heading hf]
  rw [hcons]
  constructor
  · intro h
    rcases lastValue_cases field ls (trim (firstLine x)) with hnot | ⟨l, hl, hpre, hval⟩
    · rw [lastValue_of_not_mem hnot, trim_trim] at h
      exact blank_of_trim_append (by rw [hx, h])
    · -- the value of a later line has less ink than the text it comes from
      have hlne : l ≠ [] := by
        rintro rfl
        exact hf.ne_nil (List.prefix_nil.mp hpre)
      have hless := ink_trimStartMatches hpre hlne
      have hink := congrArg ink h
      rw [hval, valueOf, ink_trim, ink_trim, ink_trim] at hink
      have hsum := congrArg ink hx
      rw [ink_append] at hsum
      have hfield := hf.inked
      have := hls l hl
      omega
  · intro h
    rw [lastValue_of_not_mem (not_prefix_of_blank hf h hls), trim_trim]
    conv_rhs => rw [← hx, trim_append_blank _ h]

/-! ### The message -/

lemma commitBody_eq (changeId reviewer message evidenceUrl : Text) (now : Timestamp) :
    commitBody changeId reviewer message evidenceUrl now
      = message ++ '\n' :: ([] ++ '\n' :: ((approvedByField ++ [' ']) ++ (reviewer
        ++ '\n' :: ((reviewDateField ++ [' ']) ++ (now.text
        ++ '\n' :: ((evidenceField ++ [' ']) ++ (evidenceUrl
        ++ '\n' :: ((changeIdField ++ [' ']) ++ (changeId ++ '\n' :: coAuthor))))))))) := by
  have ha : "\n\nApproved-By: ".toList = '\n' :: '\n' :: (approvedByField ++ [' ']) := rfl
  have hd : "\nReview-Date: ".toList = '\n' :: (reviewDateField ++ [' ']) := rfl
  have he : "\nEvidence: ".toList = '\n' :: (evidenceField ++ [' ']) := rfl
  have hc : "\nChange-ID: ".toList = '\n' :: (changeIdField ++ [' ']) := rfl
  have hn : "\n".toList = ['\n'] := rfl
  rw [commitBody, ha, hd, he, hc, hn]
  simp only [List.append_assoc, List.cons_append, List.nil_append]

/-- The lines of the message: those of the given message, and for each field its
heading and the further lines of its text. -/
lemma lines_commitBody (changeId reviewer message evidenceUrl : Text) (now : Timestamp) :
    ∃ lsm lsa lsd lse lsc, lines (commitBody changeId reviewer message evidenceUrl now)
        = lsm ++ (heading approvedByField reviewer :: (lsa
          ++ (heading reviewDateField now.text :: (lsd
          ++ (heading evidenceField evidenceUrl :: (lse
          ++ (heading changeIdField changeId :: (lsc ++ lines coAuthor))))))))
      ∧ (∀ l ∈ lsa, ink l ≤ ink (behindFirst reviewer))
      ∧ (∀ l ∈ lsd, ink l ≤ ink (behindFirst now.text))
      ∧ (∀ l ∈ lse, ink l ≤ ink (behindFirst evidenceUrl))
      ∧ (∀ l ∈ lsc, ink l ≤ ink (behindFirst changeId)) := by
  have hfield : ∀ field : Text, FieldName field → ∀ x, ∃ ls,
      (∀ s, lines ((field ++ [' ']) ++ (x ++ '\n' :: s)) = heading field x :: (ls ++ lines s))
      ∧ ∀ l ∈ ls, ink l ≤ ink (behindFirst x) := by
    intro field hname x
    obtain ⟨ls, hls, hink⟩ := lines_field (q := field ++ [' ']) (by simp [hname.oneLine]) x
    refine ⟨ls, fun s => ?_, hink⟩
    rw [hls, heading, List.append_assoc, List.singleton_append]
  obtain ⟨lsa, hlsa, hinka⟩ := hfield approvedByField fieldName_approvedBy reviewer
  obtain ⟨lsd, hlsd, hinkd⟩ := hfield reviewDateField fieldName_reviewDate now.text
  obtain ⟨lse, hlse, hinke⟩ := hfield evidenceField fieldName_evidence evidenceUrl
  obtain ⟨lsc, hlsc, hinkc⟩ := hfield changeIdField fieldName_changeId changeId
  refine ⟨lines (message ++ ['\n']) ++ lines ([] ++ ['\n']), lsa, lsd, lse, lsc, ?_,
    hinka, hinkd, hinke, hinkc⟩
  rw [commitBody_eq, lines_append_newline message, lines_append_newline [], hlsa, hlsd, hlse,
    hlsc, List.append_assoc]

lemma coAuthor_no_field : ∀ field ∈ [approvedByField, evidenceField, changeIdField],
    ∀ l ∈ lines coAuthor, ¬ field <+: l := by
  decide

/-- The fields of the message come back exactly when no given text has anything
behind its first line. -/
lemma metadata_commitBody_iff (changeId reviewer message evidenceUrl : Text) (now : Timestamp) :
    (trim (metadataOf (commitBody changeId reviewer message evidenceUrl now)).approvedBy
          = trim reviewer
        ∧ trim (metadataOf (commitBody changeId reviewer message evidenceUrl now)).changeId
          = trim changeId
        ∧ trim (metadataOf (commitBody changeId reviewer message evidenceUrl now)).evidenceUrl
          = trim evidenceUrl)
      ↔ Blank isWhitespace (behindFirst reviewer) ∧ Blank isWhitespace (behindFirst evidenceUrl)
        ∧ Blank isWhitespace (behindFirst changeId) := by
  obtain ⟨lsm, lsa, lsd, lse, lsc, hlines, hinka, hinkd, hinke, hinkc⟩ :=
    lines_commitBody changeId reviewer message evidenceUrl now
  have hnow : Blank isWhitespace (behindFirst now.text) := by
    have hnil : behindFirst now.text = [] := by
      rw [behindFirst, List.dropWhile_eq_nil_iff]
      rintro c hc
      have hne : c ≠ '\n' := fun h => now.oneLine (h ▸ hc)
      simpa using hne
    rw [hnil]
    exact Blank.nil
  simp only [metadataOf, foldl_read, hlines]
  obtain ⟨⟨har, hae, hac⟩, -, hec⟩ := fieldNames_heads
  have hend := coAuthor_no_field
  simp only [List.mem_cons, List.not_mem_nil, or_false, forall_eq_or_imp, forall_eq] at hend
  obtain ⟨haend, heend, hcend⟩ := hend
  let lc := heading changeIdField changeId :: (lsc ++ lines coAuthor)
  let le := heading evidenceField evidenceUrl :: (lse ++ lc)
  let ld := heading reviewDateField now.text :: (lsd ++ le)
  let la := heading approvedByField reviewer :: (lsa ++ ld)
  -- the last field first: a field can only be taken up further down
  have hc : ∀ v, trim (lastValue changeIdField (lsm ++ la) v) = trim changeId
      ↔ Blank isWhitespace (behindFirst changeId) := by
    intro v
    rw [lastValue_append, lastValue_skip, lastValue_skip, lastValue_skip]
    exact lastValue_field_iff fieldName_changeId changeId hinkc hcend _
  have he : Blank isWhitespace (behindFirst changeId) → ∀ v,
      (trim (lastValue evidenceField (lsm ++ la) v) = trim evidenceUrl
        ↔ Blank isWhitespace (behindFirst evidenceUrl)) := by
    intro hcb v
    have hnot : ∀ l ∈ lc, ¬ evidenceField <+: l :=
      not_prefix_block fieldName_evidence fieldName_changeId hec hcb hinkc heend
    rw [lastValue_append, lastValue_skip, lastValue_skip]
    exact lastValue_field_iff fieldName_evidence evidenceUrl hinke hnot _
  have ha : Blank isWhitespace (behindFirst changeId) → Blank isWhitespace (behindFirst evidenceUrl)
      → ∀ v, (trim (lastValue approvedByField (lsm ++ la) v) = trim reviewer
        ↔ Blank isWhitespace (behindFirst reviewer)) := by
    intro hcb heb v
    have hnot : ∀ l ∈ ld, ¬ approvedByField <+: l :=
      not_prefix_block fieldName_approvedBy fieldName_reviewDate har hnow hinkd
        (not_prefix_block fieldName_approvedBy fieldName_evidence hae heb hinke
          (not_prefix_block fieldName_approvedBy fieldName_changeId hac hcb hinkc haend))
    rw [lastValue_append]
    exact lastValue_field_iff fieldName_approvedBy reviewer hinka hnot _
  constructor
  · rintro ⟨ha', hc', he'⟩
    have hcb := (hc _).mp hc'
    have heb := (he hcb _).mp he'
    exact ⟨(ha hcb heb _).mp ha', heb, hcb⟩
  · rintro ⟨hab, heb, hcb⟩
    exact ⟨(ha hcb heb _).mpr hab, (hc _).mpr hcb, (he hcb _).mpr heb⟩

/-! ### The commit -/

lemma bind_fromGit_eq_ok {E A B : Type} {x : Except E A} {f : A → Except (GatewayError E) B}
    {b : B} : (fromGit x >>= f) = .ok b ↔ ∃ a, x = .ok a ∧ f a = .ok b := by
  cases x with
  | error e =>
      refine iff_of_false ?_ (by simp)
      exact fun h => nomatch h
  | ok a => exact ⟨fun h => ⟨a, rfl, h⟩, fun ⟨a', ha, h⟩ => Except.ok.inj ha ▸ h⟩

/-- What the gateway reads of a commit it has made. -/
lemma verify_of_commit {g : Git} (hg : g.Verbatim) {repo : g.Repo} {now : Timestamp}
    {changeId reviewer message evidenceUrl hash : Text} {repo' : g.Repo}
    (hcommit : commitWithApproval g repo now changeId reviewer message evidenceUrl
      = .ok (hash, repo')) :
    verifyCommitApproval g repo' hash
      = (let m := metadataOf (commitBody changeId reviewer message evidenceUrl now)
        if m.approvedBy = unknown then .error .missingApprovedBy
        else .ok ⟨m.changeId, m.approvedBy, m.approvalDate, m.evidenceUrl, none⟩) := by
  rw [commitWithApproval] at hcommit
  obtain ⟨tree, -, hcommit⟩ := bind_fromGit_eq_ok.mp hcommit
  obtain ⟨sig, -, hcommit⟩ := bind_fromGit_eq_ok.mp hcommit
  obtain ⟨target, -, hcommit⟩ := bind_fromGit_eq_ok.mp hcommit
  cases target with
  | none => exact nomatch hcommit
  | some head =>
      obtain ⟨parent, -, hcommit⟩ := bind_fromGit_eq_ok.mp hcommit
      obtain ⟨⟨oid, repo''⟩, hmade, hcommit⟩ := bind_fromGit_eq_ok.mp hcommit
      obtain ⟨rfl, rfl⟩ := Prod.mk.inj (Except.ok.inj hcommit)
      obtain ⟨c, hfind, hmessage⟩ := hg.message _ _ _ _ _ _ _ hmade
      have hverify : verifyCommitApproval g repo'' (g.oidToString oid)
          = (let m := metadataOf ((g.message c).getD "(no message)".toList)
            if m.approvedBy = unknown then .error .missingApprovedBy
            else .ok ⟨m.changeId, m.approvedBy, m.approvalDate, m.evidenceUrl, none⟩) := by
        rw [verifyCommitApproval, hg.oid]
        change (fromGit (g.findCommit repo'' oid) >>= _) = _
        rw [hfind]
        dsimp only
        split_ifs with h
        · exact if_pos h
        · exact if_neg h
      rw [hverify, hmessage, Option.getD_some]

/-- The metadata of an approval survives the commit exactly when the reviewer is
not the text `unknown` and no text has anything behind its first line. -/
theorem approval_survives_iff {g : Git} (hg : g.Verbatim) (repo : g.Repo) {now : Timestamp}
    {changeId reviewer message evidenceUrl hash : Text} {repo' : g.Repo}
    (hcommit : commitWithApproval g repo now changeId reviewer message evidenceUrl
      = .ok (hash, repo')) :
    (∃ c, verifyCommitApproval g repo' hash = .ok c ∧ trim c.approvedBy = trim reviewer
        ∧ trim c.changeId = trim changeId ∧ trim c.evidenceUrl = trim evidenceUrl)
      ↔ trim reviewer ≠ unknown ∧ Blank isWhitespace (behindFirst reviewer)
        ∧ Blank isWhitespace (behindFirst evidenceUrl)
        ∧ Blank isWhitespace (behindFirst changeId) := by
  have htrimmed : ∀ body, trim (metadataOf body).approvedBy = (metadataOf body).approvedBy := by
    intro body
    rw [metadataOf, foldl_read]
    exact lastValue_trimmed _ _ (by decide)
  rw [← metadata_commitBody_iff changeId reviewer message evidenceUrl now,
    verify_of_commit hg hcommit]
  constructor
  · rintro ⟨c, hc, ha, hi, he⟩
    dsimp only at hc
    split_ifs at hc with hunknown
    obtain rfl := Except.ok.inj hc
    refine ⟨?_, ha, hi, he⟩
    rwa [← ha, htrimmed]
  · rintro ⟨hne, ha, hi, he⟩
    dsimp only
    rw [← ha, htrimmed] at hne
    rw [if_neg hne]
    exact ⟨_, rfl, ha, hi, he⟩

/-- A repository that only knows its last commit. -/
def lastCommitGit : Git where
  Repo := Text
  Oid := Unit
  Tree := Unit
  Sig := Text × Text
  Commit := Text
  Err := Unit
  stagedTree _ := .ok ()
  signature name email := .ok (name, email)
  headTarget _ := .ok (some ())
  findCommit repo _ := .ok repo
  commit _ _ body _ _ := .ok ((), body)
  message := some
  oidToString _ := "e69de29bb2d1d6434b8b29ae775ad8c2e48c5391".toList
  oidFromStr _ := .ok ()

lemma lastCommitGit_verbatim : lastCommitGit.Verbatim where
  oid _ := rfl
  message _ _ body _ _ _ _ h := by
    obtain ⟨-, rfl⟩ := Prod.mk.inj (Except.ok.inj h)
    exact ⟨body, rfl, rfl⟩

def noon : Timestamp := ⟨"2026-01-01T12:00:00Z".toList, by decide⟩

theorem approval_survives_plain :
    ∃ hash repo', commitWithApproval lastCommitGit [] noon "c-7".toList "ada".toList
        "fix\n\nApproved-By: bob".toList "https://example.com/7\n".toList = .ok (hash, repo')
      ∧ ∃ c, verifyCommitApproval lastCommitGit repo' hash = .ok c
        ∧ trim c.approvedBy = "ada".toList ∧ trim c.changeId = "c-7".toList
        ∧ trim c.evidenceUrl = "https://example.com/7".toList :=
  ⟨_, _, rfl, (approval_survives_iff lastCommitGit_verbatim [] rfl).mpr
    ⟨by decide, by decide, by decide, by decide⟩⟩

/-- The text of one field takes another one over. -/
theorem approval_forged :
    ∃ hash repo', commitWithApproval lastCommitGit [] noon "c-7\nApproved-By: mallory".toList
        "ada".toList "fix".toList "https://example.com/7".toList = .ok (hash, repo')
      ∧ ∃ c, verifyCommitApproval lastCommitGit repo' hash = .ok c
        ∧ trim c.approvedBy = "mallory".toList ∧ trim c.changeId = "c-7".toList :=
  ⟨_, _, rfl, _, rfl, by decide, by decide⟩

end HumanTouch

end SovereignBus
