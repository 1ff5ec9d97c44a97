import SovereignBus.Rpg.Rows

/-!
The events that `seb/adapters/rpg_ingest.py` finds in the rows of a program.

* `rowToSebEvent`, `extractSebEvents`, `events`: the functions of the source.
* `lineEvent`: the event of a line. `lineEvent_write` and its siblings say what it is for each
  opcode, from the tokens of the line.
* `Silent`: a line adds no event to a program. `comment_silent_iff` says of which comments this
  holds.
* `Mapped`: a row has the event and the target of its opcode. `operation_mapped_iff` says of
  which rows this holds.
-/

namespace SovereignBus

namespace Rpg

/-! ### Events -/

/-- The event types, with their codes. -/
inductive SebEvent where
  | infraProvision
  | configDeploy
  | archDecision
  | fiscalSettle
  | sovereignRoot
  deriving DecidableEq

def SebEvent.code : SebEvent → ℕ
  | .infraProvision => 0x0001
  | .configDeploy => 0x0002
  | .archDecision => 0x0010
  | .fiscalSettle => 0x0100
  | .sovereignRoot => 0xFFFF

def SebEvent.name : SebEvent → String
  | .infraProvision => "INFRA_PROVISION"
  | .configDeploy => "CONFIG_DEPLOY"
  | .archDecision => "ARCH_DECISION"
  | .fiscalSettle => "FISCAL_SETTLE"
  | .sovereignRoot => "SOVEREIGN_ROOT"

inductive Capability where
  | execute
  | verify
  | write
  | vacuumCollapse
  deriving DecidableEq

structure Event where
  line : ℕ
  opcode : Opcode
  target : Text
  sebEventType : ℕ
  sebEventName : String
  requiredCapability : Capability
  weight : ℕ
  humanReviewRequired : Bool
  deriving DecidableEq

/-- An event of a type. -/
def Event.of (event : SebEvent) (line : ℕ) (opcode : Opcode) (target : Text)
    (requiredCapability : Capability) (weight : ℕ) (humanReviewRequired : Bool) : Event :=
  { line := line
    opcode := opcode
    target := target
    sebEventType := event.code
    sebEventName := event.name
    requiredCapability := requiredCapability
    weight := weight
    humanReviewRequired := humanReviewRequired }

/-- `FISCAL_PATTERNS`. -/
def fiscalPatterns : List String :=
  ["LEDGER", "AUDIT", "SETTLE", "FISCAL", "GL_", "PAY", "JOURNAL", "JRN", "LEDGE", "VAULT"]

section Tables

variable (u : Unicode)

/-- The text begins with the pattern, but for the case. -/
def matchesAt : Text → Text → Bool
  | [], _ => true
  | _ :: _, [] => false
  | p :: pattern, c :: s => u.ignoreCase p c && matchesAt pattern s

/-- `FISCAL_PATTERNS.search`. -/
def fiscalSearch (s : Text) : Bool :=
  s.tails.any fun t => fiscalPatterns.any fun pattern => matchesAt u pattern.toList t

/-- `row_to_seb_event`. -/
def rowToSebEvent (row : Row) : Option Event :=
  match row.fields with
  | .calculation _ (some op) factor2 _ _ =>
      match op with
      | .write =>
          match row.writes.find? (fiscalSearch u) with
          | some w => some (.of .fiscalSettle row.lineNumber op w .execute 0xFFFFFFFF true)
          | none => row.writes.head?.map fun w =>
              .of .infraProvision row.lineNumber op w .execute 1000 false
      | .chain =>
          some (.of .archDecision row.lineNumber op (row.reads.getLastD "unknown".toList)
            .verify 100 false)
      | .exsr =>
          some (.of .configDeploy row.lineNumber op
            (row.reads.headD (row.writes.headD "unknown".toList)) .write 500 false)
      | .seton =>
          if ['L', 'R'] <:+: u.upperText (strip factor2) ∨ row.writes.contains ['L', 'R'] then
            some (.of .sovereignRoot row.lineNumber op ['L', 'R'] .vacuumCollapse 0xFFFFFFFF true)
          else none
      | _ => none
  | _ => none

/-- `extract_seb_events`. -/
def extractSebEvents (rows : List Row) : List Event :=
  rows.filterMap fun row => if row.specCode = ['C'] then rowToSebEvent u row else none

/-- The rows of a program. -/
def rows (lines : List Text) : List Row :=
  (lines.map padLine).mapIdx fun i line => decodeRow u line (i + 1)

/-- The events of a program. -/
def events (lines : List Text) : List Event := extractSebEvents u (rows u lines)

end Tables

/-! ### The event of a line -/

section Line

variable {u : Unicode} {line : Text} {n : ℕ} {before after : List Text} {t : Text} {op : Opcode}

lemma strip_eq_nil_iff {s : Text} : strip s = [] ↔ ∀ c ∈ s, isSpace c := by
  rw [strip, rstrip, List.rdropWhile_eq_nil_iff]
  constructor
  · intro h
    have hnil : s.dropWhile isSpace = [] := by
      by_contra hne
      have hhead := List.head_dropWhile_not isSpace hne
      rw [h _ (List.head_mem hne)] at hhead
      cases hhead
    exact List.dropWhile_eq_nil_iff.mp hnil
  · exact fun h c hc => h c ((List.dropWhile_sublist isSpace).subset hc)

/-- What the decoders do not write they do not change. -/
lemma decodeRow_keeps {A : Type*} (f : Row → A)
    (hf : ∀ (row : Row) comment fields domain reads writes warnings,
      f { row with
          comment := comment
          fields := fields
          domain := domain
          reads := reads
          writes := writes
          warnings := warnings } = f row) :
    f (decodeRow u line n) = f (baseRow u line n) := by
  rw [decodeRow]
  split_ifs
  · rfl
  · split
    · rw [decodeFileRow]
      cases extractTokens line <;> exact hf (baseRow u line n) _ _ _ _ _ _
    · rw [decodeInputRow]
      rcases extractTokens line with _ | ⟨tok, rest⟩
      · exact hf (baseRow u line n) _ _ _ _ _ _
      · dsimp only
        split_ifs
        · cases rest.tail <;> exact hf (baseRow u line n) _ _ _ _ _ _
        · exact hf (baseRow u line n) _ _ _ _ _ _
    · rw [decodeCalculationRow]
      cases findOpcodeIdx u (extractTokens line) with
      | none => exact hf (baseRow u line n) _ _ _ _ _ _
      | some idx =>
          dsimp only
          cases opcodeOf u ((extractTokens line).getD idx []) with
          | none => rfl
          | some op => exact hf (baseRow u line n) _ _ _ _ _ _
    · rw [decodeOutputRow]
      cases extractTokens line <;> exact hf (baseRow u line n) _ _ _ _ _ _
    · rfl

/-- No decoder changes the code of the specification. -/
lemma specCode_decodeRow : (decodeRow u line n).specCode = specCode u line :=
  decodeRow_keeps Row.specCode fun _ _ _ _ _ _ _ => rfl

lemma lineNumber_decodeRow : (decodeRow u line n).lineNumber = n :=
  decodeRow_keeps Row.lineNumber fun _ _ _ _ _ _ _ => rfl

/-- The rows of calculations are decoded as such. -/
lemma decodeRow_of_calculation (h : specCode u line = ['C']) :
    decodeRow u line n = decodeCalculationRow u line (baseRow u line n) := by
  have hne : strip (slice1 line 6 6) ≠ [] := by
    intro hnil
    have hcode : specCode u line = if slice1 line 7 7 = ['*'] then ['*'] else [] := by
      simp [specCode, hnil, Unicode.upperText]
    rw [hcode] at h
    split_ifs at h
    · exact absurd h (by decide)
  have hblank : strip line ≠ [] := by
    intro hnil
    refine hne (strip_eq_nil_iff.mpr fun c hc => strip_eq_nil_iff.mp hnil c ?_)
    exact (List.take_sublist _ _).subset ((List.drop_sublist _ _).subset hc)
  have hrow : ¬((baseRow u line n).isBlank ∨ (baseRow u line n).isComment) := by
    simp [baseRow, hblank, h]
  have hspec : (baseRow u line n).specCode = ['C'] := h
  rw [decodeRow, if_neg hrow, hspec]
  rfl

/-- The event of a line of a program. -/
def lineEvent (u : Unicode) (line : Text) (n : ℕ) : Option Event :=
  if specCode u line = ['C'] then rowToSebEvent u (decodeRow u line n) else none

lemma extractSebEvents_singleton :
    extractSebEvents u [decodeRow u line n] = (lineEvent u line n).toList := by
  rw [extractSebEvents, List.filterMap_cons, specCode_decodeRow, ← lineEvent]
  cases lineEvent u line n <;> rfl

/-- A calculation without an opcode has no event. -/
lemma lineEvent_of_no_opcode (h : findOpcodeIdx u (extractTokens line) = none) :
    lineEvent u line n = none := by
  rw [lineEvent]
  split_ifs with hspec
  · rw [decodeRow_of_calculation hspec, decodeCalculationRow, h]
    rfl
  · rfl

/-! ### What the opcodes read and write -/

lemma writesOf_write (f1 f2 result : Option Text) : writesOf .write f1 f2 result = f2.toList := by
  cases f2 <;> simp [writesOf, fromkeys]

lemma writesOf_seton (f1 f2 result : Option Text) : writesOf .seton f1 f2 result = f2.toList := by
  cases f2 <;> simp [writesOf, fromkeys]

lemma readsOf_chain (f1 : Option Text) (f2 d : Text) :
    (readsOf .chain f1 (some f2)).getLastD d = f2 := by
  cases f1 with
  | none => simp [readsOf, fromkeys]
  | some f1 => by_cases h : f2 = f1 <;> simp [readsOf, fromkeys, h]

lemma readsOf_exsr (f1 f2 : Option Text) (d : Text) :
    (readsOf .exsr f1 f2).headD d = (f1.or f2).getD d := by
  rcases f1 with _ | f1 <;> rcases f2 with _ | f2
  · rfl
  · simp [readsOf, fromkeys]
  · simp [readsOf, fromkeys]
  · by_cases h : f2 = f1 <;> simp [readsOf, fromkeys, h]

section Calculation

variable (hspec : specCode u line = ['C'])
include hspec

lemma lineEvent_eq (h : Calculation u line before t op after) :
    lineEvent u line n = rowToSebEvent u
      { baseRow u line n with
        comment := rstrip (slice1 line 54 80)
        fields := .calculation (before.getLastD []) (some op) (after.headD [])
          (resultOf op after) (extractTokens line)
        domain := classifyOpcode op
        reads := readsOf op before.getLast? after.head?
        writes := writesOf op before.getLast? after.head? (normalize (resultOf op after)) } := by
  rw [lineEvent, if_pos hspec, decodeRow_of_calculation hspec, decodeCalculationRow_eq h]

/-- A `WRITE` is an event of its first operand. -/
lemma lineEvent_write (h : Calculation u line before t .write after) :
    lineEvent u line n = after.head?.map fun w =>
      if fiscalSearch u w then .of .fiscalSettle n .write w .execute 0xFFFFFFFF true
      else .of .infraProvision n .write w .execute 1000 false := by
  rw [lineEvent_eq hspec h, rowToSebEvent]
  simp only [writesOf_write]
  cases after.head? with
  | none => rfl
  | some w =>
      by_cases hw : fiscalSearch u w
      · simp [hw, baseRow]
      · simp [hw, baseRow]

/-- A `CHAIN` is an event of its first operand. -/
lemma lineEvent_chain (h : Calculation u line before t .chain after) :
    ∃ target, lineEvent u line n = some (.of .archDecision n .chain target .verify 100 false)
      ∧ ∀ f2 ∈ after.head?, target = f2 := by
  refine ⟨_, lineEvent_eq hspec h, fun f2 hf2 => ?_⟩
  rw [Option.mem_def.mp hf2]
  exact readsOf_chain _ _ _

/-- An `EXSR` is an event of the token before it, or else of its first operand. -/
lemma lineEvent_exsr (h : Calculation u line before t .exsr after) :
    ∃ target, lineEvent u line n = some (.of .configDeploy n .exsr target .write 500 false)
      ∧ ∀ sub ∈ before.getLast?.or after.head?, target = sub := by
  refine ⟨_, lineEvent_eq hspec h, fun sub hsub => ?_⟩
  exact (readsOf_exsr _ _ _).trans (by rw [Option.mem_def.mp hsub]; rfl)

omit hspec in
lemma upperText_lr : u.upperText ['L', 'R'] = ['L', 'R'] := by
  have hl : u.upper 'L' = ['L'] := u.upper_ascii 'L' (by decide)
  have hr : u.upper 'R' = ['R'] := u.upper_ascii 'R' (by decide)
  rw [Unicode.upperText, List.flatMap_cons, List.flatMap_cons, hl, hr]
  rfl

/-- A `SETON` is an event if its first operand contains `LR`. -/
lemma lineEvent_seton (h : Calculation u line before t .seton after) :
    lineEvent u line n = if ∃ f2 ∈ after.head?, ['L', 'R'] <:+: u.upperText f2 then
        some (.of .sovereignRoot n .seton ['L', 'R'] .vacuumCollapse 0xFFFFFFFF true)
      else none := by
  rw [lineEvent_eq hspec h, rowToSebEvent]
  refine if_congr ?_ rfl rfl
  rw [writesOf_seton]
  have htoken := h.token_after
  cases after with
  | nil => simp [strip, rstrip, Unicode.upperText]
  | cons f2 after =>
      have hstrip : strip f2 = f2 := (htoken f2 List.mem_cons_self).strip
      simp only [List.headD_cons, hstrip, List.head?_cons, Option.toList_some,
        List.contains_eq_mem, decide_eq_true_eq, List.mem_singleton, Option.mem_def,
        Option.some.injEq, exists_eq_left']
      refine or_iff_left_of_imp fun hlr => ?_
      rw [← hlr, upperText_lr]

/-- The other opcodes have no event. -/
lemma lineEvent_other (h : Calculation u line before t op after)
    (hop : op ∉ [.write, .chain, .exsr, .seton]) : lineEvent u line n = none := by
  rw [lineEvent_eq hspec h]
  cases op <;> first | rfl | exact absurd (by decide) hop

end Calculation

end Line

/-! ### Comments -/

section Comments

variable {u : Unicode}

/-- The event but for the number of its line. -/
def Event.unnumbered (event : Event) : Event := { event with line := 0 }

/-- A comment has an asterisk in column 7. -/
def Comment (line : Text) : Prop := slice1 (padLine line) 7 7 = ['*']

/-- The line has no event, and the events of a program stay the same when it is added to the
program, but for the numbers of the lines, or put in the place of another such line. -/
structure Silent (u : Unicode) (line : Text) : Prop where
  none : ∀ n, extractSebEvents u [decodeRow u (padLine line) n] = []
  added : ∀ pre post, (events u (pre ++ line :: post)).map Event.unnumbered
    = (events u (pre ++ post)).map Event.unnumbered
  edited : ∀ pre post line', (∀ n, extractSebEvents u [decodeRow u (padLine line') n] = []) →
    events u (pre ++ line :: post) = events u (pre ++ line' :: post)

/-- The opcode has no event: it is none of the four that have one, or its operand is missing or
not `LR`. -/
def Eventless (u : Unicode) (op : Opcode) (after : List Text) : Prop :=
  op ≠ .chain ∧ op ≠ .exsr ∧ (op = .write → after = [])
    ∧ (op = .seton → ∀ f2 ∈ after.head?, ¬['L', 'R'] <:+: u.upperText f2)

/-- The code of the specification is not `C`, or there is no opcode with an event. -/
def Harmless (u : Unicode) (line : Text) : Prop :=
  specCode u line = ['C'] → ∀ before t op after, Calculation u line before t op after →
    Eventless u op after

section Line

variable {line : Text} {n : ℕ} {before after : List Text} {t : Text} {op : Opcode}

lemma lineEvent_none_iff_eventless (hspec : specCode u line = ['C'])
    (h : Calculation u line before t op after) :
    lineEvent u line n = none ↔ Eventless u op after := by
  by_cases hop : op ∈ [.write, .chain, .exsr, .seton]
  · simp only [List.mem_cons, List.not_mem_nil, or_false] at hop
    rcases hop with rfl | rfl | rfl | rfl
    · rw [lineEvent_write hspec h, Option.map_eq_none_iff, List.head?_eq_none_iff]
      simp [Eventless]
    · obtain ⟨target, htarget, -⟩ := @lineEvent_chain u line n _ _ _ hspec h
      simp [htarget, Eventless]
    · obtain ⟨target, htarget, -⟩ := @lineEvent_exsr u line n _ _ _ hspec h
      simp [htarget, Eventless]
    · rw [lineEvent_seton hspec h]
      simp [Eventless]
  · refine iff_of_true (lineEvent_other hspec h hop) ⟨?_, ?_, ?_, ?_⟩
    · rintro rfl
      exact hop (by simp)
    · rintro rfl
      exact hop (by simp)
    · rintro rfl
      exact absurd (by simp) hop
    · rintro rfl
      exact absurd (by simp) hop

/-- A line has no event exactly if its opcode has none. -/
lemma lineEvent_eq_none_iff : lineEvent u line n = none ↔ Harmless u line := by
  by_cases hspec : specCode u line = ['C']
  · constructor
    · exact fun h _ before t op after hcalc =>
        (lineEvent_none_iff_eventless hspec hcalc).mp h
    · intro h
      rcases findOpcodeIdx_cases u line with hnone | ⟨before, t, op, after, hcalc⟩
      · exact lineEvent_of_no_opcode hnone
      · exact (lineEvent_none_iff_eventless hspec hcalc).mpr (h hspec before t op after hcalc)
  · exact iff_of_true (if_neg hspec) fun h => absurd h hspec

/-- The number of a line is only handed on. -/
lemma rowToSebEvent_unnumbered (row : Row) (n : ℕ) :
    (rowToSebEvent u { row with lineNumber := n }).map Event.unnumbered
      = (rowToSebEvent u row).map Event.unnumbered := by
  rw [rowToSebEvent, rowToSebEvent]
  dsimp only
  split
  · split
    · cases row.writes.find? (fiscalSearch u) with
      | none => cases row.writes.head? <;> rfl
      | some w => rfl
    · rfl
    · rfl
    · split_ifs <;> rfl
    · rfl
  · rfl

lemma lineEvent_unnumbered (n m : ℕ) :
    (lineEvent u line n).map Event.unnumbered = (lineEvent u line m).map Event.unnumbered := by
  by_cases hspec : specCode u line = ['C']
  · rcases findOpcodeIdx_cases u line with hnone | ⟨before, t, op, after, h⟩
    · rw [lineEvent_of_no_opcode hnone, lineEvent_of_no_opcode hnone]
    · rw [lineEvent_eq hspec h, lineEvent_eq hspec h]
      exact rowToSebEvent_unnumbered
        { baseRow u line m with
          comment := rstrip (slice1 line 54 80)
          fields := .calculation (before.getLastD []) (some op) (after.headD [])
            (resultOf op after) (extractTokens line)
          domain := classifyOpcode op
          reads := readsOf op before.getLast? after.head?
          writes := writesOf op before.getLast? after.head? (normalize (resultOf op after)) } n
  · rw [lineEvent, lineEvent, if_neg hspec, if_neg hspec]

end Line

/-! ### Programs -/

/-- The events of a program are those of its lines. -/
lemma events_eq (lines : List Text) :
    events u lines = lines.zipIdx.filterMap fun l => lineEvent u (padLine l.1) (l.2 + 1) := by
  rw [events, rows, List.mapIdx_eq_zipIdx_map, List.zipIdx_map, extractSebEvents,
    List.map_map, List.filterMap_map]
  refine List.filterMap_congr fun l _ => ?_
  simp only [Function.comp_apply, Prod.map_fst, Prod.map_snd, id_eq, specCode_decodeRow, lineEvent]

lemma events_unnumbered (lines : List Text) :
    (events u lines).map Event.unnumbered
      = lines.filterMap fun line => (lineEvent u (padLine line) 0).map Event.unnumbered := by
  have hlines : lines.filterMap (fun line => (lineEvent u (padLine line) 0).map Event.unnumbered)
      = (lines.zipIdx.map Prod.fst).filterMap fun line =>
        (lineEvent u (padLine line) 0).map Event.unnumbered := by rw [List.zipIdx_map_fst]
  rw [events_eq, List.map_filterMap, hlines, List.filterMap_map]
  refine List.filterMap_congr fun l _ => ?_
  rw [Function.comp_apply]
  exact @lineEvent_unnumbered u (padLine l.1) (l.2 + 1) 0

/-- A line, and so a comment, is silent exactly if the code of its specification is not `C`, or
there is no opcode in it that has an event. -/
theorem comment_silent_iff (u : Unicode) (line : Text) :
    Silent u line ↔ Harmless u (padLine line) := by
  constructor
  · intro h
    have hnone := h.none 0
    rw [extractSebEvents_singleton, Option.toList_eq_nil_iff] at hnone
    exact lineEvent_eq_none_iff.mp hnone
  · intro h
    have hnone (n : ℕ) : lineEvent u (padLine line) n = none := lineEvent_eq_none_iff.mpr h
    refine ⟨fun n => ?_, fun pre post => ?_, fun pre post line' hline' => ?_⟩
    · rw [extractSebEvents_singleton, hnone, Option.toList_none]
    · rw [events_unnumbered, events_unnumbered, List.filterMap_append, List.filterMap_append,
        List.filterMap_cons_none]
      rw [hnone, Option.map_none]
    · have hnone' (n : ℕ) : lineEvent u (padLine line') n = none := by
        have h' := hline' n
        rwa [extractSebEvents_singleton, Option.toList_eq_nil_iff] at h'
      rw [events_eq, events_eq, List.zipIdx_append, List.zipIdx_append, List.filterMap_append,
        List.filterMap_append, List.zipIdx_cons, List.zipIdx_cons]
      refine congrArg _ ?_
      rw [List.filterMap_cons_none, List.filterMap_cons_none]
      · exact hnone' _
      · exact hnone _

/-- The tables, on ASCII. -/
def ascii : Unicode where
  upper c := [c.toUpper]
  isDigit := Char.isDigit
  ignoreCase c d := c.toUpper = d.toUpper
  upper_ascii _ _ := rfl

/-- A `WRITE` that was commented out is an event. -/
theorem commented_write_not_silent :
    Comment "     C* WRITE LEDGER".toList
      ∧ extractSebEvents ascii [decodeRow ascii (padLine "     C* WRITE LEDGER".toList) 1]
        = [.of .fiscalSettle 1 .write "LEDGER".toList .execute 0xFFFFFFFF true]
      ∧ ¬Silent ascii "     C* WRITE LEDGER".toList := by
  have hcalc : Calculation ascii (padLine "     C* WRITE LEDGER".toList) ["*".toList]
      "WRITE".toList .write ["LEDGER".toList] := ⟨by decide, by decide, by decide⟩
  have hsearch : fiscalSearch ascii "LEDGER".toList = true := by decide
  have hevent : extractSebEvents ascii [decodeRow ascii (padLine "     C* WRITE LEDGER".toList) 1]
      = [.of .fiscalSettle 1 .write "LEDGER".toList .execute 0xFFFFFFFF true] := by
    rw [extractSebEvents_singleton, lineEvent_write (by decide) hcalc, List.head?_cons,
      Option.map_some, if_pos hsearch, Option.toList_some]
  refine ⟨by unfold Comment; decide, hevent, fun hsilent => ?_⟩
  have hnone := hsilent.none 1
  rw [hevent] at hnone
  exact List.cons_ne_nil _ _ hnone

end Comments

/-! ### Operations -/

section Operations

variable {u : Unicode} {line : Text} {before after : List Text} {t : Text} {op : Opcode}

/-- The event is of the type. -/
def Event.Is (event : Event) (type : SebEvent) : Prop :=
  event.sebEventType = type.code ∧ event.sebEventName = type.name

/-- The row of an opcode has the event of its opcode, about the operand. -/
structure Mapped (u : Unicode) (line : Text) (op : Opcode) (after : List Text) : Prop where
  seton : op = .seton → ∀ n,
    ((∃ event ∈ extractSebEvents u [decodeRow u line n],
        event.Is .sovereignRoot ∧ event.humanReviewRequired = true)
      ↔ ∃ operand ∈ after, u.upperText operand = ['L', 'R'])
  exsr : op = .exsr → ∀ n, ∃ event, extractSebEvents u [decodeRow u line n] = [event]
    ∧ event.Is .configDeploy ∧ ∀ sub ∈ after.head?, event.target = sub
  chain : op = .chain → ∀ n, ∃ event, extractSebEvents u [decodeRow u line n] = [event]
    ∧ event.Is .archDecision ∧ ∀ file ∈ after.head?, event.target = file

/-- The event of a `SETON` is the one with human review. -/
lemma seton_event_iff (hspec : specCode u line = ['C'])
    (h : Calculation u line before t .seton after) (n : ℕ) :
    (∃ event ∈ extractSebEvents u [decodeRow u line n],
        event.Is .sovereignRoot ∧ event.humanReviewRequired = true)
      ↔ ∃ f2 ∈ after.head?, ['L', 'R'] <:+: u.upperText f2 := by
  rw [extractSebEvents_singleton, lineEvent_seton hspec h]
  split_ifs with hlr
  · refine iff_of_true ⟨_, List.mem_singleton_self _, ⟨rfl, rfl⟩, rfl⟩ hlr
  · exact iff_of_false (fun ⟨_, hmem, _⟩ => List.not_mem_nil hmem) hlr

/-- The rows of operations are mapped rightly exactly if a `SETON` has `LR` within its first
operand just if it has it as an operand, and nothing else than the operand stands before an
`EXSR`. -/
theorem operation_mapped_iff (hspec : specCode u line = ['C'])
    (h : Calculation u line before t op after) :
    Mapped u line op after
      ↔ (op = .seton → ((∃ f2 ∈ after.head?, ['L', 'R'] <:+: u.upperText f2)
          ↔ ∃ operand ∈ after, u.upperText operand = ['L', 'R']))
        ∧ (op = .exsr → ∀ f2 ∈ after.head?, ∀ f1 ∈ before.getLast?, f1 = f2) := by
  constructor
  · refine fun hmapped => ⟨?_, ?_⟩
    · rintro rfl
      rw [← seton_event_iff hspec h 0]
      exact hmapped.seton rfl 0
    · rintro rfl f2 hf2 f1 hf1
      obtain ⟨event, hevent, -, htarget⟩ := hmapped.exsr rfl 0
      obtain ⟨target, hline, hsub⟩ := @lineEvent_exsr u line 0 _ _ _ hspec h
      rw [extractSebEvents_singleton, hline, Option.toList_some] at hevent
      obtain rfl := (List.cons.inj hevent).1
      have hf1' : f1 ∈ before.getLast?.or after.head? := by
        rw [Option.mem_def.mp hf1]
        rfl
      exact (hsub f1 hf1').symm.trans (htarget f2 hf2)
  · rintro ⟨hseton, hexsr⟩
    refine ⟨?_, ?_, ?_⟩
    · rintro rfl n
      rw [seton_event_iff hspec h n]
      exact hseton rfl
    · rintro rfl n
      obtain ⟨target, hline, hsub⟩ := @lineEvent_exsr u line n _ _ _ hspec h
      refine ⟨_, by rw [extractSebEvents_singleton, hline, Option.toList_some], ⟨rfl, rfl⟩,
        fun f2 hf2 => hsub f2 ?_⟩
      cases hlast : before.getLast? with
      | none => exact hf2
      | some f1 =>
          obtain rfl := hexsr rfl f2 hf2 f1 hlast
          rfl
    · rintro rfl n
      obtain ⟨target, hline, hfile⟩ := @lineEvent_chain u line n _ _ _ hspec h
      exact ⟨_, by rw [extractSebEvents_singleton, hline, Option.toList_some], ⟨rfl, rfl⟩,
        fun file => hfile file⟩

/-- A subroutine is called, and a file is read with a key before the `CHAIN`. -/
theorem exsr_chain_mapped :
    Mapped ascii "     C           EXSR POST".toList .exsr ["POST".toList]
      ∧ Mapped ascii "     C     KEY   CHAIN CUSTMAST".toList .chain ["CUSTMAST".toList] := by
  have hexsr : Calculation ascii "     C           EXSR POST".toList [] "EXSR".toList .exsr
      ["POST".toList] := ⟨by decide, by simp, by decide⟩
  have hchain : Calculation ascii "     C     KEY   CHAIN CUSTMAST".toList ["KEY".toList]
      "CHAIN".toList .chain ["CUSTMAST".toList] := ⟨by decide, by decide, by decide⟩
  refine ⟨(operation_mapped_iff (by decide) hexsr).mpr ⟨fun hop => ?_, fun _ f2 _ f1 hf1 => ?_⟩,
    (operation_mapped_iff (by decide) hchain).mpr ⟨fun hop => ?_, fun hop => ?_⟩⟩
  · cases hop
  · cases hf1
  · cases hop
  · cases hop

/-- Indicator 10 is set before `LR`, an indicator is called `ALRM`, and a token stands before an
`EXSR`: the first has no event, the second the event of `LR`, and the third another target. -/
theorem operations_not_mapped :
    ¬Mapped ascii "     C           SETON 10 LR".toList .seton ["10".toList, "LR".toList]
      ∧ ¬Mapped ascii "     C           SETON ALRM".toList .seton ["ALRM".toList]
      ∧ ¬Mapped ascii "     C     ITEM  EXSR POST".toList .exsr ["POST".toList] := by
  refine ⟨fun hmapped => ?_, fun hmapped => ?_, fun hmapped => ?_⟩
  · have hcalc : Calculation ascii "     C           SETON 10 LR".toList [] "SETON".toList .seton
        ["10".toList, "LR".toList] := ⟨by decide, by simp, by decide⟩
    have hiff := (seton_event_iff (by decide) hcalc 1).symm.trans (hmapped.seton rfl 1)
    exact absurd hiff (by decide)
  · have hcalc : Calculation ascii "     C           SETON ALRM".toList [] "SETON".toList .seton
        ["ALRM".toList] := ⟨by decide, by simp, by decide⟩
    have hiff := (seton_event_iff (by decide) hcalc 1).symm.trans (hmapped.seton rfl 1)
    exact absurd hiff (by decide)
  · have hcalc : Calculation ascii "     C     ITEM  EXSR POST".toList ["ITEM".toList]
        "EXSR".toList .exsr ["POST".toList] := ⟨by decide, by decide, by decide⟩
    obtain ⟨event, hevent, -, htarget⟩ := hmapped.exsr rfl 1
    obtain ⟨target, hline, hsub⟩ := @lineEvent_exsr ascii _ 1 _ _ _ (by decide) hcalc
    rw [extractSebEvents_singleton, hline, Option.toList_some] at hevent
    obtain rfl := (List.cons.inj hevent).1
    have hsame : "ITEM".toList = "POST".toList := (hsub _ rfl).symm.trans (htarget _ rfl)
    exact absurd hsame (by decide)

end Operations

end Rpg

end SovereignBus
