import SovereignBus.Library.Lines
import SovereignBus.Policy.Constitution
import SovereignBus.Rpg.Events

/-!
What `seb/adapters/rpg_ingest.py` makes of a whole program.

* `buildMatrix`, `buildFlow`, `buildSummary`: the parts of the intermediate form.
  `ingest_consistent` says how they fit the rows and the events.
* `emitAdapterStub`: the RPGLE stub. `adapter_stub_iff` says which procedures it declares, and
  when its text has the lines it was made from.
-/

namespace SovereignBus

namespace Rpg

/-! ### The intermediate form -/

/-- `build_matrix`. -/
def buildMatrix (lines : List Text) : List (List ℕ) := lines.map fun line => line.map Char.toNat

/-- The opcode among the fields of a row, if there is one. -/
def Fields.opcode : Fields → Option Opcode
  | .calculation _ opcode _ _ _ => opcode
  | _ => Option.none

structure Node where
  id : Text
  lineNumber : ℕ
  specKind : Domain
  opcode : Option Opcode
  domain : Domain
  warnings : List String

/-- The type of an edge; its node is the target of what is read and the source of what is
written. -/
inductive Access where
  | reads
  | writes
deriving DecidableEq

structure Edge where
  type : Access
  symbol : Text
  node : Text
deriving DecidableEq

structure Flow where
  nodes : List Node
  edges : List Edge

/-- The name of the node of a line. -/
def nodeId (lineNumber : ℕ) : Text := "line_".toList ++ Nat.toDigits 10 lineNumber

/-- The node of a row. -/
def Row.node (row : Row) : Node where
  id := nodeId row.lineNumber
  lineNumber := row.lineNumber
  specKind := row.specKind
  opcode := row.fields.opcode
  domain := row.domain
  warnings := row.warnings

/-- The edges of a row. -/
def Row.edges (row : Row) : List Edge :=
  row.reads.map (⟨.reads, ·, nodeId row.lineNumber⟩)
    ++ row.writes.map (⟨.writes, ·, nodeId row.lineNumber⟩)

/-- `build_flow`. -/
def buildFlow (rows : List Row) : Flow := ⟨rows.map Row.node, rows.flatMap Row.edges⟩

/-- `Counter`, with the keys in the order of their first occurrence. -/
def counter (keys : List Domain) : List (Domain × ℕ) :=
  keys.reverse.dedup.reverse.map fun key => (key, keys.count key)

structure Summary where
  specCounts : List (Domain × ℕ)
  domainCounts : List (Domain × ℕ)
  warnings : List (ℕ × List String)

/-- `build_summary`. -/
def buildSummary (rows : List Row) : Summary where
  specCounts := counter (rows.map Row.specKind)
  domainCounts := counter (rows.map Row.domain)
  warnings := rows.filterMap fun row =>
    if row.warnings = [] then none else some (row.lineNumber, row.warnings)

/-! ### What an event is about -/

/-- The capability, the weight and the need for human review of a type of event. -/
def SebEvent.terms : SebEvent → Capability × ℕ × Bool
  | .infraProvision => (.execute, 1000, false)
  | .configDeploy => (.write, 500, false)
  | .archDecision => (.verify, 100, false)
  | .fiscalSettle => (.execute, 0xFFFFFFFF, true)
  | .sovereignRoot => (.vacuumCollapse, 0xFFFFFFFF, true)

/-- What the row of an event says of its target: a `WRITE` writes it, a `CHAIN` or an `EXSR` reads
it, unless there is nothing in its row, and a `SETON` writes an indicator with `LR`. -/
structure Targets (u : Unicode) (row : Row) (e : Event) : Prop where
  opcode : e.opcode ∈ [.write, .chain, .exsr, .seton]
  write : e.opcode = .write → e.target ∈ row.writes
  read : e.opcode = .chain ∨ e.opcode = .exsr → e.target ∈ row.reads
    ∨ e.target = "unknown".toList ∧ row.reads = [] ∧ row.writes = []
  seton : e.opcode = .seton → e.target = ['L', 'R']
    ∧ ∃ symbol ∈ row.writes, ['L', 'R'] <:+: u.upperText symbol

/-- An event of a row: it has the terms of its type, and is about what the row reads or writes. -/
structure EventOf (u : Unicode) (row : Row) (e : Event) (type : SebEvent) : Prop where
  event : e = .of type row.lineNumber e.opcode e.target type.terms.1 type.terms.2.1 type.terms.2.2
  opcode : row.fields.opcode = some e.opcode
  target : Targets u row e

lemma getLastD_mem_or (l : List Text) (d : Text) :
    l.getLastD d ∈ l ∨ l.getLastD d = d ∧ l = [] := by
  rcases List.eq_nil_or_concat l with rfl | ⟨l, a, rfl⟩
  · exact .inr ⟨rfl, rfl⟩
  · exact .inl (by simp)

lemma mem_fromkeys {l : List Text} {s : Text} : s ∈ fromkeys l ↔ s ∈ l := by
  have hfold : ∀ keys : List Text, s ∈ l.foldl (fun keys s =>
      if keys.contains s then keys else keys ++ [s]) keys ↔ s ∈ keys ∨ s ∈ l := by
    induction l with
    | nil => simp
    | cons t l ih =>
        intro keys
        rw [List.foldl_cons, ih]
        split_ifs with ht
        · have hmem : t ∈ keys := by simpa using ht
          rw [List.mem_cons]
          refine ⟨Or.imp_right .inr, ?_⟩
          rintro (hkeys | rfl | hl)
          · exact .inl hkeys
          · exact .inl hmem
          · exact .inr hl
        · rw [List.mem_append, List.mem_singleton, List.mem_cons, or_assoc]
  rw [fromkeys, hfold]
  simp

/-- An `EXSR` that reads nothing writes nothing. -/
lemma writesOf_exsr {f1 f2 : Option Text} (result : Option Text) (h : readsOf .exsr f1 f2 = []) :
    writesOf .exsr f1 f2 result = [] := by
  cases f1 with
  | none => simp [writesOf, fromkeys]
  | some f1 =>
      have hmem : f1 ∈ readsOf .exsr (some f1) f2 := by
        rw [readsOf, mem_fromkeys]
        simp
      rw [h] at hmem
      exact absurd hmem List.not_mem_nil

/-- The event of a calculation is one of its row. -/
lemma eventOf_line {u : Unicode} {line : Text} {n : ℕ} {e : Event} (hspec : specCode u line = ['C'])
    (he : rowToSebEvent u (decodeRow u line n) = some e) :
    ∃ type, EventOf u (decodeRow u line n) e type := by
  have hline : lineEvent u line n = some e := by rw [lineEvent, if_pos hspec, he]
  rcases findOpcodeIdx_cases u line with hnone | ⟨before, t, op, after, h⟩
  · rw [lineEvent_of_no_opcode hnone] at hline
    cases hline
  rw [decodeRow_of_calculation hspec, decodeCalculationRow_eq h] at he ⊢
  by_cases hop : op ∈ [.write, .chain, .exsr, .seton]
  · simp only [List.mem_cons, List.not_mem_nil, or_false] at hop
    rcases hop with rfl | rfl | rfl | rfl
    · rw [lineEvent_write hspec h] at hline
      obtain ⟨w, hw, rfl⟩ := Option.map_eq_some_iff.mp hline
      have hmem : w ∈ writesOf .write before.getLast? after.head?
          (normalize (resultOf .write after)) := by simp [writesOf_write, hw]
      split_ifs
      · exact ⟨.fiscalSettle, rfl, rfl, by simp [Event.of], fun _ => hmem, by simp [Event.of],
          by simp [Event.of]⟩
      · exact ⟨.infraProvision, rfl, rfl, by simp [Event.of], fun _ => hmem, by simp [Event.of],
          by simp [Event.of]⟩
    · obtain rfl := Option.some.inj he
      refine ⟨.archDecision, rfl, rfl, by simp [Event.of], by simp [Event.of], fun _ => ?_,
        by simp [Event.of]⟩
      rcases getLastD_mem_or (readsOf .chain before.getLast? after.head?) "unknown".toList with
        hread | ⟨hunknown, hnil⟩
      · exact .inl hread
      · exact .inr ⟨hunknown, hnil, by simp [writesOf, fromkeys]⟩
    · obtain rfl := Option.some.inj he
      refine ⟨.configDeploy, rfl, rfl, by simp [Event.of], by simp [Event.of], fun _ => ?_,
        by simp [Event.of]⟩
      cases hreads : readsOf .exsr before.getLast? after.head? with
      | nil =>
          have hwrites := writesOf_exsr (normalize (resultOf .exsr after)) hreads
          refine .inr ⟨?_, rfl, hwrites⟩
          simp only [Event.of, hwrites, List.headD_nil]
      | cons s reads =>
          refine .inl ?_
          simp only [Event.of, List.headD_cons, List.mem_cons_self]
    · rw [lineEvent_seton hspec h] at hline
      split_ifs at hline with hlr
      obtain rfl := Option.some.inj hline
      obtain ⟨f2, hf2, hlr⟩ := hlr
      refine ⟨.sovereignRoot, rfl, rfl, by simp [Event.of], by simp [Event.of], by simp [Event.of],
        fun _ => ⟨rfl, f2, ?_, hlr⟩⟩
      rw [writesOf_seton]
      exact Option.mem_toList.mpr hf2
  · rw [lineEvent_other hspec h hop] at hline
    cases hline

/-- How an event hangs in the flow: with an edge between its node and its target, in the direction
of its opcode. -/
structure Linked (u : Unicode) (flow : Flow) (node : Node) (e : Event) : Prop where
  opcode : e.opcode ∈ [.write, .chain, .exsr, .seton]
  write : e.opcode = .write → ⟨.writes, e.target, node.id⟩ ∈ flow.edges
  read : e.opcode = .chain ∨ e.opcode = .exsr → ⟨.reads, e.target, node.id⟩ ∈ flow.edges
    ∨ e.target = "unknown".toList ∧ ∀ edge ∈ flow.edges, edge.node ≠ node.id
  seton : e.opcode = .seton → e.target = ['L', 'R']
    ∧ ∃ symbol, ['L', 'R'] <:+: u.upperText symbol ∧ ⟨.writes, symbol, node.id⟩ ∈ flow.edges

section Program

variable {u : Unicode} {program : List Text}

/-- An event of a program is one of a row, a calculation. -/
lemma exists_row_of_event {e : Event} (he : e ∈ events u program) :
    ∃ row ∈ rows u program, row.specCode = ['C'] ∧ ∃ type, EventOf u row e type := by
  rw [events, extractSebEvents, List.mem_filterMap] at he
  obtain ⟨row, hrow, he⟩ := he
  split_ifs at he with hspec
  refine ⟨row, hrow, hspec, ?_⟩
  rw [rows, List.mem_mapIdx] at hrow
  obtain ⟨k, hk, rfl⟩ := hrow
  rw [specCode_decodeRow] at hspec
  exact eventOf_line hspec he

lemma lineNumbers_rows (u : Unicode) (program : List Text) :
    (rows u program).map Row.lineNumber = List.range' 1 program.length := by
  rw [rows, List.mapIdx_eq_zipIdx_map, List.map_map]
  have hnumber : (Row.lineNumber ∘ fun l : Text × ℕ => decodeRow u l.1 (l.2 + 1))
      = (1 + ·) ∘ Prod.snd := by
    funext l
    exact lineNumber_decodeRow.trans (Nat.add_comm _ _)
  rw [hnumber, ← List.map_map, List.zipIdx_map_snd, List.map_add_range', List.length_map]

lemma nodeId_injective : Function.Injective nodeId := fun m n h => by
  have hdigits := List.append_cancel_left h
  calc m = Nat.ofDigitChars 10 (Nat.toDigits 10 m) 0 := Nat.ofDigitChars_ten_toDigits.symm
    _ = n := by rw [hdigits, Nat.ofDigitChars_ten_toDigits]

lemma length_padLine (line : Text) : (padLine line).length = 80 := by
  rw [padLine, List.length_rightpad, List.length_take]
  omega

lemma sum_counter (keys : List Domain) : ((counter keys).map Prod.snd).sum = keys.length := by
  rw [counter, List.map_map, List.map_reverse, List.sum_reverse, ← List.length_reverse]
  have hcount : Prod.snd ∘ (fun key : Domain => (key, keys.count key))
      = fun key => keys.reverse.count key := funext fun key => List.count_reverse.symm
  rw [hcount]
  exact List.sum_map_count_dedup_eq_length _

/-- Two rows with one node are one row. -/
lemma row_unique {row row' : Row} (hrow : row ∈ rows u program) (hrow' : row' ∈ rows u program)
    (h : nodeId row.lineNumber = nodeId row'.lineNumber) : row = row' := by
  have hnodup : ((rows u program).map Row.lineNumber).Nodup := by
    rw [lineNumbers_rows]
    exact List.nodup_range'
  exact List.inj_on_of_nodup_map hnodup hrow hrow' (nodeId_injective h)

/-- What the row of an event says of its target are edges of its node. -/
lemma linked_of_targets {row : Row} {e : Event} (hrow : row ∈ rows u program)
    (h : Targets u row e) : Linked u (buildFlow (rows u program)) row.node e := by
  have hread {s : Text} (hs : s ∈ row.reads) :
      (⟨.reads, s, row.node.id⟩ : Edge) ∈ (buildFlow (rows u program)).edges :=
    List.mem_flatMap.mpr ⟨row, hrow, List.mem_append_left _ (List.mem_map_of_mem hs)⟩
  have hwrite {s : Text} (hs : s ∈ row.writes) :
      (⟨.writes, s, row.node.id⟩ : Edge) ∈ (buildFlow (rows u program)).edges :=
    List.mem_flatMap.mpr ⟨row, hrow, List.mem_append_right _ (List.mem_map_of_mem hs)⟩
  refine ⟨h.opcode, fun hop => hwrite (h.write hop), fun hop => ?_, fun hop => ?_⟩
  · refine (h.read hop).imp hread fun ⟨hunknown, hreads, hwrites⟩ => ⟨hunknown, ?_⟩
    intro edge hedge hnode
    obtain ⟨row', hrow', hedge⟩ := List.mem_flatMap.mp hedge
    have hid : edge.node = nodeId row'.lineNumber := by
      rcases List.mem_append.mp hedge with hmem | hmem
      · obtain ⟨s, -, rfl⟩ := List.mem_map.mp hmem
        rfl
      · obtain ⟨s, -, rfl⟩ := List.mem_map.mp hmem
        rfl
    obtain rfl := row_unique hrow hrow' (hnode.symm.trans hid)
    rw [Row.edges, hreads, hwrites] at hedge
    exact absurd hedge List.not_mem_nil
  · obtain ⟨hlr, symbol, hmem, hsymbol⟩ := h.seton hop
    exact ⟨hlr, symbol, hsymbol, hwrite hmem⟩

/-- The intermediate form fits the program: the matrix has a row of 80 columns for every line,
the lines have different nodes, no edge hangs in the air, and every row is counted once. Every
event has the node of its line, with its opcode, and this is linked to the target: a `WRITE` writes
it, a `CHAIN` or an `EXSR` reads it unless its row has nothing to read, and a `SETON` writes an
indicator with `LR`. -/
theorem ingest_consistent (u : Unicode) (program : List Text) :
    ((buildMatrix (program.map padLine)).map List.length
        = List.replicate (rows u program).length 80)
      ∧ ((buildFlow (rows u program)).nodes.map Node.id).Nodup
      ∧ (∀ edge ∈ (buildFlow (rows u program)).edges,
        edge.node ∈ (buildFlow (rows u program)).nodes.map Node.id)
      ∧ ((buildSummary (rows u program)).specCounts.map Prod.snd).sum = program.length
      ∧ ((buildSummary (rows u program)).domainCounts.map Prod.snd).sum = program.length
      ∧ ∀ e ∈ events u program, ∃ node ∈ (buildFlow (rows u program)).nodes,
        node.lineNumber = e.line ∧ node.opcode = some e.opcode
          ∧ Linked u (buildFlow (rows u program)) node e := by
  have hlength : (rows u program).length = program.length := by simp [rows]
  refine ⟨?_, ?_, fun edge hedge => ?_, ?_, ?_, fun e he => ?_⟩
  · rw [hlength, buildMatrix, List.map_map, List.map_map]
    refine List.eq_replicate_iff.mpr ⟨List.length_map _, fun k hk => ?_⟩
    obtain ⟨line, -, rfl⟩ := List.mem_map.mp hk
    rw [Function.comp_apply, Function.comp_apply, List.length_map, length_padLine]
  · have hids : (buildFlow (rows u program)).nodes.map Node.id
        = ((rows u program).map Row.lineNumber).map nodeId := by
      rw [buildFlow, List.map_map, List.map_map]
      rfl
    rw [hids, lineNumbers_rows]
    exact List.Nodup.map nodeId_injective List.nodup_range'
  · obtain ⟨row, hrow, hedge⟩ := List.mem_flatMap.mp hedge
    refine List.mem_map.mpr ⟨row.node, List.mem_map_of_mem hrow, ?_⟩
    rcases List.mem_append.mp hedge with hread | hwrite
    · obtain ⟨s, -, rfl⟩ := List.mem_map.mp hread
      rfl
    · obtain ⟨s, -, rfl⟩ := List.mem_map.mp hwrite
      rfl
  · rw [buildSummary, sum_counter, List.length_map, hlength]
  · rw [buildSummary, sum_counter, List.length_map, hlength]
  · obtain ⟨row, hrow, -, type, hevent⟩ := exists_row_of_event he
    refine ⟨row.node, List.mem_map_of_mem hrow, ?_, hevent.opcode,
      linked_of_targets hrow hevent.target⟩
    rw [hevent.event]
    rfl

end Program

/-! ### The stub -/

/-- The line boundaries of `str.splitlines`. -/
def isBreak (c : Char) : Bool :=
  0x0a ≤ c.val && c.val ≤ 0x0d || 0x1c ≤ c.val && c.val ≤ 0x1e || c.val == 0x85
    || c.val == 0x2028 || c.val == 0x2029

/-- A text of one line. -/
def OneLine (s : Text) : Prop := ∀ c ∈ s, isBreak c = false

instance : DecidablePred OneLine := fun s =>
  decidable_of_iff (s.all (fun c => !isBreak c) = true) (by simp [OneLine])

def Capability.name : Capability → Text
  | .execute => "execute".toList
  | .verify => "verify".toList
  | .write => "write".toList
  | .vacuumCollapse => "vacuum_collapse".toList

/-- `str` of a truth value. -/
def boolText (b : Bool) : Text := if b then "True".toList else "False".toList

/-- The format `04X`. -/
def hex4 (n : ℕ) : Text := ((Nat.toDigits 16 n).map Char.toUpper).leftpad 4 '0'

/-- What the names of the procedures of one type begin with. -/
def emitName (sebEventName : String) : Text := "Emit_".toList ++ sebEventName.toList

/-- The name of the procedure of an event. -/
def procedure (e : Event) : Text := emitName e.sebEventName ++ '_' :: Nat.toDigits 10 e.line

def stubHead (sourceName : Text) : List Text :=
  ["** SEB adapter stub generated from ".toList ++ sourceName,
    "** Cherry-picked rpg_ingest.py from RBG-ibm-meta-corpus".toList,
    "** DO NOT EDIT — regenerate with: python rpg_ingest.py ".toList ++ sourceName
      ++ " --adapter-stub".toList,
    "**FREE".toList,
    "ctl-opt dftactgrp(*no) actgrp(*new) bnddir('SEB_BND');".toList,
    [],
    "// SEB kernel entry points".toList,
    "dcl-pr SEB_Append_Event extproc(*dclcase);".toList,
    "  Hdr pointer value options(*nopass);".toList,
    "  Pay pointer value options(*nopass);".toList,
    "  Ftr pointer value options(*nopass);".toList,
    "end-pr;".toList,
    [],
    "dcl-pr SEB_Worm_Flush extproc(*dclcase);".toList,
    "end-pr;".toList,
    []]

/-- The lines of an event. -/
def stubEvent (e : Event) : List Text :=
  ["// Line ".toList ++ Nat.toDigits 10 e.line ++ ": ".toList ++ e.opcode.name.toList
      ++ " ".toList ++ e.target,
    "// SEB event: ".toList ++ e.sebEventName.toList ++ " (0x".toList ++ hex4 e.sebEventType
      ++ ") cap=".toList ++ e.requiredCapability.name ++ " human_review=".toList
      ++ boolText e.humanReviewRequired,
    "dcl-proc ".toList ++ procedure e ++ " export;".toList,
    "  // TODO: build 68-byte Event_Header with Event_Type = 0x".toList ++ hex4 e.sebEventType,
    "  // TODO: build payload from ".toList ++ e.target ++ " record".toList,
    "  // TODO: call SEB_Append_Event(hdr_ptr : pay_ptr : ftr_ptr);".toList,
    "  // TODO: if human_review_required call SEB_Human_Review_Queue;".toList,
    "end-proc;".toList,
    []]

def stubTail : List Text :=
  ["// Flush WORM chain after all events emitted".toList,
    "SEB_Worm_Flush();".toList,
    "*inlr = *on;".toList]

/-- The lines that the stub is joined from. -/
def stubLines (sourceName : Text) (events : List Event) : List Text :=
  stubHead sourceName ++ events.flatMap stubEvent ++ stubTail

/-- `emit_adapter_stub`. -/
def emitAdapterStub (sourceName : Text) (events : List Event) : Text :=
  ['\n'].intercalate (stubLines sourceName events)

/-- The name that a line of RPGLE declares a procedure under. -/
def declared (line : Text) : Option Text :=
  if "dcl-proc ".toList <+: line then some ((line.drop 9).takeWhile (· ≠ ' ')) else none

lemma oneLine_append {s t : Text} : OneLine (s ++ t) ↔ OneLine s ∧ OneLine t :=
  List.forall_mem_append

lemma oneLine_cons {c : Char} {s : Text} (hc : isBreak c = false) (hs : OneLine s) :
    OneLine (c :: s) := List.forall_mem_cons.mpr ⟨hc, hs⟩

lemma oneLine_digits (n : ℕ) : OneLine (Nat.toDigits 10 n) := by
  intro c hc
  obtain ⟨hlow, hhigh⟩ := Char.isDigit_iff_toNat.mp
    (Nat.isDigit_of_mem_toDigits (by decide) (by decide) hc)
  have hval : ∀ n < 58, 48 ≤ n → isBreak (Char.ofNat n) = false := by decide
  have hbreak := hval c.toNat (Nat.lt_succ_of_le hhigh) hlow
  rwa [Char.ofNat_toNat] at hbreak

/-- A line boundary is white space. -/
lemma isSpace_of_isBreak {c : Char} (h : isBreak c = true) : isSpace c = true := by
  simp only [isBreak, isSpace, Bool.or_eq_true, Bool.and_eq_true, decide_eq_true_eq,
    beq_iff_eq] at h ⊢
  rcases h with (((⟨hlow, hhigh⟩ | ⟨hlow, hhigh⟩) | h) | h) | h
  · exact .inl (by grind)
  · exact .inl (by grind)
  · simp [h]
  · simp [h]
  · simp [h]

lemma Token.oneLine {t : Text} (h : Token t) : OneLine t := fun c hc => by
  cases hbreak : isBreak c with
  | false => rfl
  | true => exact absurd ((h.ink c hc).symm.trans (isSpace_of_isBreak hbreak)) (by decide)

lemma mem_of_mem_ite {P : Prop} [Decidable P] {l : List Text} {s : Text}
    (h : s ∈ if P then l else []) : s ∈ l := by
  split_ifs at h
  · exact h
  · exact absurd h List.not_mem_nil

section Targets

variable {u : Unicode} {line : Text} {before after : List Text} {t : Text} {op : Opcode}

lemma Calculation.token_last (h : Calculation u line before t op after) :
    ∀ s ∈ before.getLast?.toList, Token s :=
  fun s hs => h.token_before s (List.mem_of_getLast? (Option.mem_toList.mp hs))

lemma Calculation.token_first (h : Calculation u line before t op after) :
    ∀ s ∈ after.head?.toList, Token s :=
  fun s hs => h.token_after s (List.mem_of_mem_head? (Option.mem_toList.mp hs))

lemma Calculation.token_result (h : Calculation u line before t op after) :
    ∀ s ∈ (normalize (resultOf op after)).toList, Token s := by
  intro s hs
  rw [resultOf] at hs
  split_ifs at hs
  · exact absurd hs List.not_mem_nil
  · have htail : ∀ a ∈ after.tail, Token a := fun a ha => h.token_after a (List.mem_of_mem_tail ha)
    rw [normalize_headD htail] at hs
    exact htail s (List.mem_of_mem_head? (Option.mem_toList.mp hs))

/-- What a calculation reads are tokens of its line. -/
lemma token_of_mem_readsOf (h : Calculation u line before t op after) :
    ∀ s ∈ readsOf op before.getLast? after.head?, Token s := by
  intro s hs
  rw [readsOf, mem_fromkeys, List.mem_append, List.mem_append] at hs
  rcases hs with (hs | hs) | hs
  · exact h.token_last s hs
  · exact h.token_first s (mem_of_mem_ite hs)
  · exact h.token_first s (mem_of_mem_ite hs)

/-- What a calculation writes are tokens of its line. -/
lemma token_of_mem_writesOf (h : Calculation u line before t op after) :
    ∀ s ∈ writesOf op before.getLast? after.head? (normalize (resultOf op after)), Token s := by
  intro s hs
  rw [writesOf, mem_fromkeys, List.mem_append, List.mem_append, List.mem_append] at hs
  rcases hs with ((hs | hs) | hs) | hs
  · exact h.token_result s (mem_of_mem_ite hs)
  · exact h.token_first s (mem_of_mem_ite hs)
  · exact h.token_first s (mem_of_mem_ite hs)
  · exact h.token_last s (mem_of_mem_ite hs)

/-- The target of an event is a token, so it cannot leave its line. -/
lemma token_target {n : ℕ} {e : Event} {type : SebEvent} (hspec : specCode u line = ['C'])
    (he : EventOf u (decodeRow u line n) e type) : Token e.target := by
  have hunknown : Token "unknown".toList := ⟨by decide, by simp [isSpace]⟩
  have hlr : Token ['L', 'R'] := ⟨by decide, by simp [isSpace]⟩
  rw [decodeRow_of_calculation hspec] at he
  rcases findOpcodeIdx_cases u line with hnone | ⟨before, t, op, after, h⟩
  · have hop := he.opcode
    rw [decodeCalculationRow, hnone] at hop
    cases hop
  obtain ⟨hopcode, hwrite, hread, hseton⟩ := he.target
  rw [decodeCalculationRow_eq h] at hwrite hread
  simp only [List.mem_cons, List.not_mem_nil, or_false] at hopcode
  rcases hopcode with hop | hop | hop | hop
  · exact token_of_mem_writesOf h _ (hwrite hop)
  · rcases hread (.inl hop) with hmem | ⟨htarget, -⟩
    · exact token_of_mem_readsOf h _ hmem
    · exact htarget ▸ hunknown
  · rcases hread (.inr hop) with hmem | ⟨htarget, -⟩
    · exact token_of_mem_readsOf h _ hmem
    · exact htarget ▸ hunknown
  · exact (hseton hop).1 ▸ hlr

end Targets

/-- The type of an event of a program, with its terms, and its target, which is a token. -/
structure Tokened (e : Event) (type : SebEvent) : Prop where
  event : e = .of type e.line e.opcode e.target type.terms.1 type.terms.2.1 type.terms.2.2
  target : Token e.target

lemma tokened_of_mem_events {u : Unicode} {program : List Text} {e : Event}
    (he : e ∈ events u program) : ∃ type, Tokened e type := by
  obtain ⟨row, hrow, hspec, type, hevent⟩ := exists_row_of_event he
  rw [rows, List.mem_mapIdx] at hrow
  obtain ⟨k, hk, rfl⟩ := hrow
  rw [specCode_decodeRow] at hspec
  refine ⟨type, ?_, token_target hspec hevent⟩
  have hline : e.line = (decodeRow u (program.map padLine)[k] (k + 1)).lineNumber := by
    rw [hevent.event]
    rfl
  rw [hline]
  exact hevent.event

/-! ### The lines of the stub -/

lemma oneLine_stubHead {sourceName : Text} :
    (∀ line ∈ stubHead sourceName, OneLine line) ↔ OneLine sourceName := by
  constructor
  · exact fun h => (oneLine_append.mp (h _ List.mem_cons_self)).2
  · intro h
    rw [stubHead, List.forall_mem_cons, List.forall_mem_cons, List.forall_mem_cons]
    refine ⟨oneLine_append.mpr ⟨by decide, h⟩, by decide, ?_, by decide⟩
    exact oneLine_append.mpr ⟨oneLine_append.mpr ⟨by decide, h⟩, by decide⟩

lemma oneLine_name (type : SebEvent) : OneLine type.name.toList := by
  cases type <;> decide

lemma oneLine_hex4 (type : SebEvent) : OneLine (hex4 type.code) := by
  cases type <;> decide

lemma oneLine_opcode (op : Opcode) : OneLine op.name.toList := by
  cases op <;> decide

lemma oneLine_capability (c : Capability) : OneLine c.name := by
  cases c <;> decide

lemma oneLine_boolText (b : Bool) : OneLine (boolText b) := by
  cases b <;> decide

/-- The lines of an event are lines. -/
lemma oneLine_stubEvent {e : Event} {type : SebEvent} (h : Tokened e type) :
    ∀ line ∈ stubEvent e, OneLine line := by
  have hname : OneLine e.sebEventName.toList := by rw [h.event]; exact oneLine_name type
  have hcode : OneLine (hex4 e.sebEventType) := by rw [h.event]; exact oneLine_hex4 type
  have hline : OneLine (Nat.toDigits 10 e.line) := oneLine_digits e.line
  have htarget : OneLine e.target := h.target.oneLine
  have hprocedure : OneLine (procedure e) :=
    oneLine_append.mpr ⟨oneLine_append.mpr ⟨by decide, hname⟩, oneLine_cons (by decide) hline⟩
  have happend {s t : Text} (hs : OneLine s) (ht : OneLine t) : OneLine (s ++ t) :=
    oneLine_append.mpr ⟨hs, ht⟩
  simp only [stubEvent, List.forall_mem_cons]
  refine ⟨?_, ?_, ?_, ?_, ?_, by decide⟩
  · exact happend (happend (happend (happend (happend (by decide) hline)
      (by decide)) (oneLine_opcode _)) (by decide)) htarget
  · exact happend (happend (happend (happend (happend (happend (happend (by decide) hname)
      (by decide)) hcode) (by decide)) (oneLine_capability _))
      (by decide)) (oneLine_boolText _)
  · exact happend (happend (by decide) hprocedure) (by decide)
  · exact happend (by decide) hcode
  · exact happend (happend (by decide) htarget) (by decide)

/-! ### Procedures -/

/-- A name ends at the next blank. -/
lemma not_blank_procedure {e : Event} {type : SebEvent} (h : Tokened e type) :
    ∀ c ∈ procedure e, decide (c ≠ ' ') = true := by
  have hname : (emitName type.name).all (· ≠ ' ') = true := by cases type <;> decide
  have hsebEventName : e.sebEventName = type.name := by rw [h.event]; rfl
  intro c hc
  rw [procedure, hsebEventName, List.mem_append, List.mem_cons] at hc
  rcases hc with hc | rfl | hc
  · exact List.all_eq_true.mp hname c hc
  · decide
  · have hdigit := Nat.isDigit_of_mem_toDigits (by decide) (by decide) hc
    rw [decide_eq_true_eq]
    rintro rfl
    exact absurd hdigit (by decide)

/-- A line that does not begin with `d` declares nothing. -/
lemma declared_of_ne {s : Text} (hs : s.head? ≠ some 'd') : declared s = none := by
  rw [declared, if_neg]
  rintro ⟨t, rfl⟩
  exact hs rfl

lemma declared_procedure {e : Event} {type : SebEvent} (h : Tokened e type) :
    declared ("dcl-proc ".toList ++ (procedure e ++ " export;".toList)) = some (procedure e) := by
  rw [declared, if_pos (List.prefix_append _ _)]
  have hdrop : ("dcl-proc ".toList ++ (procedure e ++ " export;".toList)).drop 9
      = procedure e ++ " export;".toList := rfl
  rw [hdrop, List.takeWhile_append_of_pos (not_blank_procedure h)]
  exact congrArg some (List.append_nil _)

lemma declared_stubEvent {e : Event} {type : SebEvent} (h : Tokened e type) :
    (stubEvent e).filterMap declared = [procedure e] := by
  have hpost : [("  // TODO: call SEB_Append_Event(hdr_ptr : pay_ptr : ftr_ptr);".toList : Text),
      "  // TODO: if human_review_required call SEB_Human_Review_Queue;".toList,
      "end-proc;".toList, []].filterMap declared = [] := by decide
  have hslash (s : Text) : declared ("// Line ".toList ++ s) = none :=
    declared_of_ne (by simp)
  have hevent (s : Text) : declared ("// SEB event: ".toList ++ s) = none :=
    declared_of_ne (by simp)
  have hheader (s : Text) : declared
      ("  // TODO: build 68-byte Event_Header with Event_Type = 0x".toList ++ s) = none :=
    declared_of_ne (by simp)
  have hpayload (s : Text) : declared ("  // TODO: build payload from ".toList ++ s) = none :=
    declared_of_ne (by simp)
  simp only [stubEvent, List.append_assoc, List.filterMap_cons, hslash, hevent, hheader, hpayload]
  rw [declared_procedure h]
  exact congrArg _ hpost

lemma declared_stubHead (sourceName : Text) : (stubHead sourceName).filterMap declared = [] := by
  have hfirst (s : Text) : declared ("** SEB adapter stub generated from ".toList ++ s) = none :=
    declared_of_ne (by simp)
  have hthird (s t : Text) : declared
      ("** DO NOT EDIT — regenerate with: python rpg_ingest.py ".toList ++ s ++ t) = none :=
    declared_of_ne (by simp)
  have hsecond : declared "** Cherry-picked rpg_ingest.py from RBG-ibm-meta-corpus".toList = none :=
    declared_of_ne (by simp)
  rw [stubHead, List.filterMap_cons_none (hfirst _), List.filterMap_cons_none hsecond,
    List.filterMap_cons_none (hthird _ _)]
  decide

/-- The number of the line that a procedure was made for. -/
def lineOf (name : Text) : ℕ := Nat.ofDigitChars 10 (Lines.unfinished (· == '_') name) 0

lemma lineOf_procedure (e : Event) : lineOf (procedure e) = e.line := by
  have hdigits : ∀ c ∈ Nat.toDigits 10 e.line, (c == '_') = false := by
    intro c hc
    have hdigit := Nat.isDigit_of_mem_toDigits (by decide) (by decide) hc
    rw [beq_eq_false_iff_ne]
    rintro rfl
    exact absurd hdigit (by decide)
  rw [lineOf, procedure, ← List.singleton_append, ← List.append_assoc,
    Lines.unfinished_append_of_not _ hdigits, Lines.unfinished_concat_sep _ (by decide),
    List.nil_append, Nat.ofDigitChars_ten_toDigits]

/-! ### What a stub declares -/

/-- The type of the constitution that an event stands for. -/
def SebEvent.eventType : SebEvent → Policy.EventType
  | .infraProvision => .infraProvision
  | .configDeploy => .configDeploy
  | .archDecision => .archDecision
  | .fiscalSettle => .fiscalSettle
  | .sovereignRoot => .sovereignRoot

lemma terms_constitutional (type : SebEvent) :
    type.eventType.code.toNat = type.code
      ∧ (Policy.requiredCap type.eventType).symbol.toList = type.terms.1.name
      ∧ (type.terms.2.2 = true ↔ type.terms.2.1 = 0xFFFFFFFF) := by
  cases type <;> decide

section Program

variable (u : Unicode) (program : List Text)

/-- The line of an event is that of its row. -/
lemma line_rowToSebEvent {u : Unicode} {row : Row} {e : Event} (h : rowToSebEvent u row = some e) :
    e.line = row.lineNumber := by
  rw [rowToSebEvent] at h
  split at h
  · split at h
    · split at h
      · obtain rfl := Option.some.inj h
        rfl
      · obtain ⟨w, -, rfl⟩ := Option.map_eq_some_iff.mp h
        rfl
    · obtain rfl := Option.some.inj h
      rfl
    · obtain rfl := Option.some.inj h
      rfl
    · split_ifs at h
      obtain rfl := Option.some.inj h
      rfl
    · cases h
  · cases h

/-- No two events come from one line. -/
lemma lines_nodup : ((events u program).map Event.line).Nodup := by
  have hrows : ((rows u program).map Row.lineNumber).Nodup := by
    rw [lineNumbers_rows]
    exact List.nodup_range'
  rw [List.Nodup, List.pairwise_map] at hrows ⊢
  rw [events, extractSebEvents, List.pairwise_filterMap]
  refine hrows.imp fun hne e he e' he' => ?_
  have hline {row : Row} {e : Event}
      (he : (if row.specCode = ['C'] then rowToSebEvent u row else none) = some e) :
      e.line = row.lineNumber := by
    split_ifs at he
    exact line_rowToSebEvent he
  rwa [hline he, hline he']

lemma declared_stubLines (sourceName : Text) :
    (stubLines sourceName (events u program)).filterMap declared
      = (events u program).map procedure := by
  have hbody : ((events u program).flatMap stubEvent).filterMap declared
      = (events u program).map procedure := by
    rw [List.filterMap_flatMap, List.map_eq_flatMap]
    refine List.flatMap_congr fun e he => ?_
    obtain ⟨type, h⟩ := tokened_of_mem_events he
    exact declared_stubEvent h
  have htail : stubTail.filterMap declared = [] := by decide
  rw [stubLines, List.filterMap_append, List.filterMap_append, declared_stubHead, hbody, htail,
    List.nil_append, List.append_nil]

/-- What the stub of a program declares. Its text has the lines it was joined from, so that no
name out of the program can end a comment and be read as code, exactly if the name of the source
file is one line; these lines declare one procedure for each event, in order, and no two of one
name. The events have the types of the constitution and ask for the capabilities it requires,
and they go to human review just if their weight is the greatest. -/
theorem adapter_stub_iff (sourceName : Text) :
    ((emitAdapterStub sourceName (events u program)).splitOnP isBreak
          = stubLines sourceName (events u program)
        ↔ OneLine sourceName)
      ∧ (stubLines sourceName (events u program)).filterMap declared
        = (events u program).map procedure
      ∧ ((events u program).map procedure).Nodup
      ∧ ∀ e ∈ events u program, ∃ type : Policy.EventType, type.code.toNat = e.sebEventType
        ∧ (Policy.requiredCap type).symbol.toList = e.requiredCapability.name
        ∧ (e.humanReviewRequired = true ↔ e.weight = 0xFFFFFFFF) := by
  refine ⟨?_, declared_stubLines u program sourceName, ?_, fun e he => ?_⟩
  · have hne : stubLines sourceName (events u program) ≠ [] := List.cons_ne_nil _ _
    have hbody : ∀ line ∈ (events u program).flatMap stubEvent, OneLine line := by
      intro line hline
      obtain ⟨e, he, hline⟩ := List.mem_flatMap.mp hline
      obtain ⟨type, h⟩ := tokened_of_mem_events he
      exact oneLine_stubEvent h line hline
    have htail : ∀ line ∈ stubTail, OneLine line := by decide
    rw [emitAdapterStub, Separated.splitOnP_intercalate_iff (by decide) hne]
    change (∀ line ∈ stubLines sourceName (events u program), OneLine line) ↔ OneLine sourceName
    rw [stubLines, List.forall_mem_append, List.forall_mem_append, oneLine_stubHead,
      and_iff_left htail, and_iff_left hbody]
  · have hlines := lines_nodup u program
    have hmap : (events u program).map Event.line
        = ((events u program).map procedure).map lineOf := by
      rw [List.map_map]
      exact List.map_congr_left fun e _ => (lineOf_procedure e).symm
    exact List.Nodup.of_map lineOf (hmap ▸ hlines)
  · obtain ⟨type, h⟩ := tokened_of_mem_events he
    rw [h.event]
    exact ⟨type.eventType, terms_constitutional type⟩

end Program

end Rpg

end SovereignBus
