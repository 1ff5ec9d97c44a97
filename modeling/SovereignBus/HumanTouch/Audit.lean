import SovereignBus.HumanTouch.Json

/-!
The audit log of `seb/human_touch/src/audit_log.rs`.

* `LogCall.entry`, `AuditEntry.toJson`, `AuditLog.new`, `appendEntry`: what the
  calls write.
* `readEntries`, `generateSummary`: what is read back, with `fromStr` for
  `serde_json::from_str`.
* `audit_round_trip_iff`: which logs are read back as they were written.
-/

namespace SovereignBus

namespace HumanTouch

open Lines

/-- A change pending human review. -/
structure PendingChange where
  id : Text
  description : Text
  evidence : Text
  agentName : Text
  createdAt : ℤ
  files : List Text
  diff : Text
deriving DecidableEq

/-- Audit log entry for a review decision. -/
structure AuditEntry where
  timestamp : Text
  eventType : Text
  changeId : Text
  agentName : Text
  reviewer : Option Text
  decision : Text
  reason : Option Text
  commitHash : Option Text
  evidenceUrl : Option Text
deriving DecidableEq

/-- The calls that write to the log. -/
inductive LogCall where
  | submitted (change : PendingChange)
  | approval (changeId reviewer description : Text)
  | rejection (changeId reason reviewer : Text)
  | commit (changeId commitHash reviewer : Text)
deriving DecidableEq

def changeSubmitted : Text := "CHANGE_SUBMITTED".toList

def changeApproved : Text := "CHANGE_APPROVED".toList

def changeRejected : Text := "CHANGE_REJECTED".toList

def changeCommitted : Text := "CHANGE_COMMITTED".toList

/-- The agent of entries about decisions. -/
def humanTouch : Text := "human-touch".toList

/-- The entry of `log_submitted`, `log_approval`, `log_rejection` and `log_commit`. -/
def LogCall.entry (now : Timestamp) : LogCall → AuditEntry
  | .submitted change =>
      { timestamp := now.text, eventType := changeSubmitted, changeId := change.id
        agentName := change.agentName, reviewer := none, decision := "AWAITING_REVIEW".toList
        reason := none, commitHash := none, evidenceUrl := some change.evidence }
  | .approval changeId reviewer description =>
      { timestamp := now.text, eventType := changeApproved, changeId := changeId
        agentName := humanTouch, reviewer := some reviewer, decision := "APPROVED".toList
        reason := some ("Human approval granted: ".toList ++ description)
        commitHash := none, evidenceUrl := none }
  | .rejection changeId reason reviewer =>
      { timestamp := now.text, eventType := changeRejected, changeId := changeId
        agentName := humanTouch, reviewer := some reviewer, decision := "REJECTED".toList
        reason := some reason, commitHash := none, evidenceUrl := none }
  | .commit changeId commitHash reviewer =>
      { timestamp := now.text, eventType := changeCommitted, changeId := changeId
        agentName := humanTouch, reviewer := some reviewer, decision := "COMMITTED".toList
        reason := none, commitHash := some commitHash, evidenceUrl := none }

/-- An optional string of an entry. -/
def Json.ofOption : Option Text → Json
  | none => .null
  | some s => .str s

/-- The fields of an entry, in the order of its declaration. -/
def AuditEntry.fields (e : AuditEntry) : List (Text × Json) :=
  [("timestamp".toList, .str e.timestamp), ("event_type".toList, .str e.eventType),
    ("change_id".toList, .str e.changeId), ("agent_name".toList, .str e.agentName),
    ("reviewer".toList, .ofOption e.reviewer), ("decision".toList, .str e.decision),
    ("reason".toList, .ofOption e.reason), ("commit_hash".toList, .ofOption e.commitHash),
    ("evidence_url".toList, .ofOption e.evidenceUrl)]

/-- `serde_json::to_string`. -/
def AuditEntry.toJson (e : AuditEntry) : Text := jsonObject e.fields

/-- The header of a new log; `serde_json` sorts the keys of `json!`. -/
def header (now : Timestamp) : Text :=
  jsonObject [("created_at".toList, .str now.text), ("entries".toList, .emptyArray),
    ("type".toList, .str "WORM_AUDIT_LOG".toList), ("version".toList, .str "1.0.0".toList)]

/-- `AuditLog::new`: the content of the file, if there is one. -/
def AuditLog.new (now : Timestamp) : Option Text → Text
  | none => header now ++ ['\n']
  | some content => content

/-- `append_entry`, as far as it succeeds. -/
def appendEntry (content : Text) (e : AuditEntry) : Text := content ++ (e.toJson ++ ['\n'])

/-- A run of calls on the log. -/
def logAll (content : Text) (calls : List (Timestamp × LogCall)) : Text :=
  (calls.map fun c => c.2.entry c.1).foldl appendEntry content

def versionWord : Text := "version".toList

def typeWord : Text := "type".toList

variable (fromStr : Text → Option AuditEntry)

/-- What `read_entries` makes of one line. -/
def readLine (line : Text) : Option AuditEntry :=
  if Quoted versionWord line ∨ Quoted typeWord line then none
  else if trim line = [] then none
  else fromStr line

/-- `read_entries`. -/
def readEntries (content : Text) : List AuditEntry := (lines content).filterMap (readLine fromStr)

/-- Summary statistics. -/
structure AuditSummary where
  totalEvents : ℕ
  changesSubmitted : ℕ
  changesApproved : ℕ
  changesRejected : ℕ
  changesCommitted : ℕ
  reviewers : AList fun _ : Text => ℕ

/-- The count of the type of an entry. -/
def AuditSummary.addType (s : AuditSummary) (eventType : Text) : AuditSummary :=
  if eventType = changeSubmitted then { s with changesSubmitted := s.changesSubmitted + 1 }
  else if eventType = changeApproved then { s with changesApproved := s.changesApproved + 1 }
  else if eventType = changeRejected then { s with changesRejected := s.changesRejected + 1 }
  else if eventType = changeCommitted then { s with changesCommitted := s.changesCommitted + 1 }
  else s

/-- The count of a reviewer. -/
def AuditSummary.addReviewer (s : AuditSummary) : Option Text → AuditSummary
  | none => s
  | some r => { s with reviewers := s.reviewers.insert r ((s.reviewers.lookup r).getD 0 + 1) }

/-- One entry of the summary. -/
def AuditSummary.add (s : AuditSummary) (e : AuditEntry) : AuditSummary :=
  ({ s with totalEvents := s.totalEvents + 1 }.addType e.eventType).addReviewer e.reviewer

/-- `generate_summary`. -/
def generateSummary (content : Text) : AuditSummary :=
  (readEntries fromStr content).foldl AuditSummary.add ⟨0, 0, 0, 0, 0, ∅⟩

/-! ### What is to be read back -/

variable {fromStr}

def LogCall.isSubmitted : LogCall → Bool
  | .submitted _ => true
  | _ => false

def LogCall.isApproval : LogCall → Bool
  | .approval .. => true
  | _ => false

def LogCall.isRejection : LogCall → Bool
  | .rejection .. => true
  | _ => false

def LogCall.isCommit : LogCall → Bool
  | .commit .. => true
  | _ => false

/-- The reviewer a call names. -/
def LogCall.reviewer : LogCall → Option Text
  | .submitted _ => none
  | .approval _ reviewer _ => some reviewer
  | .rejection _ _ reviewer => some reviewer
  | .commit _ _ reviewer => some reviewer

/-- The counts of a summary are those of the calls. -/
structure Tallies (calls : List (Timestamp × LogCall)) (s : AuditSummary) : Prop where
  total : s.totalEvents = calls.length
  submitted : s.changesSubmitted = calls.countP fun c => c.2.isSubmitted
  approved : s.changesApproved = calls.countP fun c => c.2.isApproval
  rejected : s.changesRejected = calls.countP fun c => c.2.isRejection
  committed : s.changesCommitted = calls.countP fun c => c.2.isCommit
  reviewers : ∀ r, s.reviewers.lookup r
    = if calls.countP (fun c => c.2.reviewer = some r) = 0 then none
      else some (calls.countP fun c => c.2.reviewer = some r)

/-- A string that makes the reader take an entry for the header. -/
def LooksLikeHeader (s : Text) : Prop := EndsIn versionWord s ∨ EndsIn typeWord s

instance decidableLooksLikeHeader (s : Text) : Decidable (LooksLikeHeader s) :=
  inferInstanceAs (Decidable (EndsIn versionWord s ∨ EndsIn typeWord s))

/-- The strings of an entry. -/
def AuditEntry.strings (e : AuditEntry) : List Text :=
  [e.timestamp, e.eventType, e.changeId, e.agentName] ++ e.reviewer.toList ++ [e.decision]
    ++ e.reason.toList ++ e.commitHash.toList ++ e.evidenceUrl.toList

/-! ### The summary -/

/-- The count of a reviewer touches no other count. -/
lemma addReviewer_eq (s : AuditSummary) (o : Option Text) :
    s.addReviewer o = { s with reviewers := (s.addReviewer o).reviewers } := by
  cases o <;> rfl

lemma lookup_addReviewer (s : AuditSummary) (o : Option Text) (r : Text) :
    (s.addReviewer o).reviewers.lookup r
      = if o = some r then some ((s.reviewers.lookup r).getD 0 + 1) else s.reviewers.lookup r := by
  cases o with
  | none => rfl
  | some r' =>
      rw [AuditSummary.addReviewer]
      by_cases h : r' = r
      · subst h
        simp
      · simp [h, AList.lookup_insert_ne (Ne.symm h)]

/-- A call is counted under its type. -/
lemma addType_entry (s : AuditSummary) (now : Timestamp) (c : LogCall) :
    s.addType (c.entry now).eventType
      = { s with
          changesSubmitted := s.changesSubmitted + if c.isSubmitted then 1 else 0
          changesApproved := s.changesApproved + if c.isApproval then 1 else 0
          changesRejected := s.changesRejected + if c.isRejection then 1 else 0
          changesCommitted := s.changesCommitted + if c.isCommit then 1 else 0 } := by
  have h₁ : changeApproved ≠ changeSubmitted := by decide
  have h₂ : changeRejected ≠ changeSubmitted ∧ changeRejected ≠ changeApproved := by decide
  have h₃ : changeCommitted ≠ changeSubmitted ∧ changeCommitted ≠ changeApproved
      ∧ changeCommitted ≠ changeRejected := by decide
  cases c with
  | submitted change => rfl
  | approval changeId reviewer description =>
      exact (if_neg h₁).trans (if_pos rfl)
  | rejection changeId reason reviewer =>
      exact (if_neg h₂.1).trans ((if_neg h₂.2).trans (if_pos rfl))
  | commit changeId commitHash reviewer =>
      exact (if_neg h₃.1).trans ((if_neg h₃.2.1).trans ((if_neg h₃.2.2).trans (if_pos rfl)))

lemma entry_reviewer (now : Timestamp) (c : LogCall) : (c.entry now).reviewer = c.reviewer := by
  cases c <;> rfl

/-- The summary of the entries of calls counts the calls. -/
lemma summary_tallies (calls : List (Timestamp × LogCall)) :
    Tallies calls
      ((calls.map fun c => c.2.entry c.1).foldl AuditSummary.add ⟨0, 0, 0, 0, 0, ∅⟩) := by
  induction calls using List.reverseRecOn with
  | nil => exact ⟨rfl, rfl, rfl, rfl, rfl, fun r => rfl⟩
  | append_singleton calls c ih =>
      rw [List.map_append, List.foldl_append]
      obtain ⟨htotal, hsubmitted, happroved, hrejected, hcommitted, hreviewers⟩ := ih
      simp only [List.map_cons, List.map_nil, List.foldl_cons, List.foldl_nil, AuditSummary.add,
        addType_entry, entry_reviewer]
      rw [addReviewer_eq]
      refine ⟨?_, ?_, ?_, ?_, ?_, fun r => ?_⟩
      · rw [htotal, List.length_append, List.length_singleton]
      · rw [hsubmitted, List.countP_append, List.countP_singleton]
      · rw [happroved, List.countP_append, List.countP_singleton]
      · rw [hrejected, List.countP_append, List.countP_singleton]
      · rw [hcommitted, List.countP_append, List.countP_singleton]
      · have hcount : (calls ++ [c]).countP (fun c => c.2.reviewer = some r)
            = calls.countP (fun c => c.2.reviewer = some r)
              + if c.2.reviewer = some r then 1 else 0 := by
          simp [List.countP_append, List.countP_singleton]
        rw [lookup_addReviewer, hcount]
        dsimp only
        rw [hreviewers]
        by_cases h : c.2.reviewer = some r
        · rw [if_pos h, if_pos h, if_neg (Nat.succ_ne_zero _)]
          split_ifs with hzero
          · rw [hzero, Option.getD_none]
          · rw [Option.getD_some]
        · rw [if_neg h, if_neg h, Nat.add_zero]

/-! ### The log -/

lemma word_version : Word versionWord where
  ne_nil := by decide
  plain := by decide
  first := by decide

lemma word_type : Word typeWord where
  ne_nil := by decide
  plain := by decide
  first := by decide

lemma strings_fields (e : AuditEntry) : (e.fields.flatMap fun f => f.2.strings) = e.strings := by
  obtain ⟨_, _, _, _, reviewer, _, reason, commitHash, evidenceUrl⟩ := e
  cases reviewer <;> cases reason <;> cases commitHash <;> cases evidenceUrl <;> rfl

/-- The names of the fields do not look like the header. -/
lemma keys_fields (e : AuditEntry) : ∀ s ∈ e.fields.map Prod.fst, ¬ LooksLikeHeader s := by
  have hkeys : e.fields.map Prod.fst = ["timestamp".toList, "event_type".toList,
    "change_id".toList, "agent_name".toList, "reviewer".toList, "decision".toList,
    "reason".toList, "commit_hash".toList, "evidence_url".toList] := rfl
  rw [hkeys]
  decide +kernel

/-- The reader skips an entry exactly when one of its strings looks like the
header. -/
lemma skips_iff (e : AuditEntry) :
    Quoted versionWord e.toJson ∨ Quoted typeWord e.toJson
      ↔ ∃ s ∈ e.strings, LooksLikeHeader s := by
  rw [AuditEntry.toJson, quoted_jsonObject_iff word_version, quoted_jsonObject_iff word_type,
    ← exists_or]
  constructor
  · rintro ⟨s, hs⟩
    have hlook : LooksLikeHeader s := hs.imp And.right And.right
    have hmem : s ∈ jsonStrings e.fields := hs.elim And.left And.left
    rcases mem_jsonStrings.mp hmem with hkey | hvalue
    · exact absurd hlook (keys_fields e s hkey)
    · exact ⟨s, strings_fields e ▸ hvalue, hlook⟩
  · rintro ⟨s, hs, hlook⟩
    have hmem : s ∈ jsonStrings e.fields :=
      mem_jsonStrings.mpr (.inr (by rw [strings_fields]; exact hs))
    exact ⟨s, hlook.imp (And.intro hmem) (And.intro hmem)⟩

/-- The reader skips the header. -/
lemma readLine_header (now : Timestamp) : readLine fromStr (header now) = none := by
  have hquoted : Quoted versionWord (header now) := by
    rw [header, quoted_jsonObject_iff word_version]
    refine ⟨versionWord, mem_jsonStrings.mpr (.inl ?_), List.suffix_refl _⟩
    exact .tail _ (.tail _ (.tail _ (.head _)))
  rw [readLine, if_pos (.inl hquoted)]

/-- The reader gets an entry back, or nothing. -/
lemma readLine_entry {e : AuditEntry} (he : fromStr e.toJson = some e) :
    readLine fromStr e.toJson = if ∃ s ∈ e.strings, LooksLikeHeader s then none else some e := by
  have hne : trim e.toJson ≠ [] := trim_jsonObject_ne_nil e.fields
  rw [readLine, if_neg hne, he]
  simp only [skips_iff]

/-- The lines that calls append. -/
lemma logAll_eq (content : Text) (calls : List (Timestamp × LogCall)) :
    ∃ s, logAll content calls = content ++ s
      ∧ lines s = calls.map fun c => (c.2.entry c.1).toJson := by
  induction calls generalizing content with
  | nil => exact ⟨[], by simp [logAll], rfl⟩
  | cons c calls ih =>
      obtain ⟨s, hs, hlines⟩ := ih (appendEntry content (c.2.entry c.1))
      refine ⟨(c.2.entry c.1).toJson ++ '\n' :: s, ?_, ?_⟩
      · rw [logAll, List.map_cons, List.foldl_cons, ← logAll, hs, appendEntry]
        simp
      · rw [AuditEntry.toJson, lines_jsonObject, hlines]
        rfl

/-- The entries that the reader gets of a log that was new or empty. -/
lemma readEntries_log (created : Timestamp) {file : Option Text} (hfile : file.getD [] = [])
    {calls : List (Timestamp × LogCall)}
    (hserde : ∀ c ∈ calls, fromStr (c.2.entry c.1).toJson = some (c.2.entry c.1)) :
    readEntries fromStr (logAll (AuditLog.new created file) calls)
      = (calls.map fun c => c.2.entry c.1).filter
        fun e => ¬ ∃ s ∈ e.strings, LooksLikeHeader s := by
  obtain ⟨s, hs, hlines⟩ := logAll_eq (AuditLog.new created file) calls
  have hhead : (lines (AuditLog.new created file ++ s)).filterMap (readLine fromStr)
      = (lines s).filterMap (readLine fromStr) := by
    cases file with
    | none =>
        have hassoc : AuditLog.new created none ++ s = header created ++ '\n' :: s := by
          rw [AuditLog.new, List.append_assoc, List.singleton_append]
        rw [hassoc, header, lines_jsonObject, List.filterMap_cons, ← header, readLine_header]
    | some content => rw [AuditLog.new, show content = [] from hfile, List.nil_append]
  rw [readEntries, hs, hhead, hlines, List.filterMap_map, ← List.filterMap_eq_filter,
    List.filterMap_map]
  refine List.filterMap_congr fun c hc => ?_
  simp only [Function.comp_apply, readLine_entry (hserde c hc), Option.guard]
  split_ifs <;> simp_all

/-- A log is read back as it was written exactly when no string of an entry looks
like the header. -/
theorem audit_round_trip_iff (created : Timestamp) {file : Option Text} (hfile : file.getD [] = [])
    {calls : List (Timestamp × LogCall)}
    (hserde : ∀ c ∈ calls, fromStr (c.2.entry c.1).toJson = some (c.2.entry c.1)) :
    (readEntries fromStr (logAll (AuditLog.new created file) calls)
          = calls.map (fun c => c.2.entry c.1)
        ∧ Tallies calls (generateSummary fromStr (logAll (AuditLog.new created file) calls)))
      ↔ ∀ c ∈ calls, ∀ s ∈ (c.2.entry c.1).strings, ¬ LooksLikeHeader s := by
  rw [generateSummary, readEntries_log created hfile hserde]
  have hiff : (calls.map fun c => c.2.entry c.1).filter
        (fun e => ¬ ∃ s ∈ e.strings, LooksLikeHeader s) = calls.map (fun c => c.2.entry c.1)
      ↔ ∀ c ∈ calls, ∀ s ∈ (c.2.entry c.1).strings, ¬ LooksLikeHeader s := by
    rw [List.filter_eq_self]
    simp only [List.forall_mem_map, decide_eq_true_eq, not_exists, not_and]
  constructor
  · intro h
    exact hiff.mp h.1
  · intro h
    have hread := hiff.mpr h
    rw [hread]
    exact ⟨rfl, summary_tallies calls⟩

/-- `serde_json::from_str`, on the texts of the given entries. -/
def parseAmong (es : List AuditEntry) (line : Text) : Option AuditEntry :=
  es.find? fun e => e.toJson = line

def noonMillis : Timestamp := ⟨"2026-01-01T12:00:00.000Z".toList, by decide⟩

/-- An approval of a change whose description has quotes and a line break. -/
def approvalCall : LogCall := .approval "7".toList "ada".toList "set \"type\"\nto 2".toList

theorem audit_round_trip_approval :
    readEntries (parseAmong [approvalCall.entry noonMillis])
        (logAll (AuditLog.new noonMillis none) [(noonMillis, approvalCall)])
        = [approvalCall.entry noonMillis]
      ∧ Tallies [(noonMillis, approvalCall)]
        (generateSummary (parseAmong [approvalCall.entry noonMillis])
          (logAll (AuditLog.new noonMillis none) [(noonMillis, approvalCall)])) :=
  (audit_round_trip_iff noonMillis rfl (by simp [parseAmong])).mpr
    (List.forall_mem_singleton.mpr (by decide))

/-- The submission of a change with the id `version`. -/
def versionCall : LogCall :=
  .submitted
    ⟨"version".toList, "bump".toList, "https://example.com".toList, "bot".toList, 0, [], []⟩

/-- The entry of a change with the id `version` is taken for the header. -/
theorem audit_entry_lost :
    readEntries (parseAmong [versionCall.entry noonMillis])
        (logAll (AuditLog.new noonMillis none) [(noonMillis, versionCall)]) = []
      ∧ (generateSummary (parseAmong [versionCall.entry noonMillis])
          (logAll (AuditLog.new noonMillis none) [(noonMillis, versionCall)])).totalEvents = 0 := by
  decide +kernel

end HumanTouch

end SovereignBus
