import SovereignBus.Library.Answers
import SovereignBus.Library.Separated

/-!
The rows of fixed-format RPG, as `seb/adapters/rpg_ingest.py` decodes them.

* `Unicode`: the tables of strings that are used, of which the ASCII part is fixed.
* `padLine`, `slice1`, `normalize`, `extractTokens`, `findOpcodeIdx`, `baseRow`, `decodeRow` and the
  decoders of its rows: the functions of the source.
* `Calculation`: the tokens of a line around its opcode. `decodeCalculationRow_eq` is the row of
  such a line, and `findOpcodeIdx_cases` says that the other lines have no opcode.
-/

namespace SovereignBus

namespace Rpg

abbrev Text := List Char

/-! ### Strings -/

/-- `str.isspace`, and `\s` of the regular expressions. -/
def isSpace (c : Char) : Bool :=
  0x09 ≤ c.val && c.val ≤ 0x0d || 0x1c ≤ c.val && c.val ≤ 0x20 || c.val == 0x85 || c.val == 0xa0
    || c.val == 0x1680 || 0x2000 ≤ c.val && c.val ≤ 0x200a || c.val == 0x2028 || c.val == 0x2029
    || c.val == 0x202f || c.val == 0x205f || c.val == 0x3000

/-- The tables behind `str.upper`, `str.isdigit` and `re.IGNORECASE`. -/
structure Unicode where
  upper : Char → Text
  isDigit : Char → Bool
  ignoreCase : Char → Char → Bool
  upper_ascii : ∀ c, c.toNat < 128 → upper c = [c.toUpper]

/-- `str.upper`. -/
def Unicode.upperText (u : Unicode) (s : Text) : Text := s.flatMap u.upper

/-- `str.rstrip`. -/
def rstrip (s : Text) : Text := s.rdropWhile isSpace

/-- `str.strip`. -/
def strip (s : Text) : Text := rstrip (s.dropWhile isSpace)

/-- `str.split`, and `TOKEN_RE.findall`. -/
def split (s : Text) : List Text := (s.splitOnP isSpace).filter (· ≠ [])

/-! ### Columns -/

/-- `pad_line` to the width of 80. -/
def padLine (line : Text) : Text :=
  (((line.rdropWhile (· == '\n')).rdropWhile (· == '\r')).take 80).rightpad 80 ' '

/-- `slice_1`. -/
def slice1 (text : Text) (start stop : ℕ) : Text := (text.take stop).drop (start - 1)

/-- `normalize`. -/
def normalize (s : Text) : Option Text :=
  let v := [' '].intercalate (split (strip s))
  if v = [] then none else some v

/-- `extract_tokens`. -/
def extractTokens (line : Text) : List Text := split (slice1 line 7 53)

/-! ### Opcodes -/

/-- The values of `spec_types`, of `opcode_classes` and of the decoders. -/
inductive Domain where
  | header | file | extension | lineCounter | input | calculation | output | comment
  | arithmetic | move | io | condition | subroutine | parameter | indicator | call
  | inputField | inputRecord | unknown
  deriving DecidableEq

/-- The keys of `opcode_classes`. -/
inductive Opcode where
  | add | sub | mult | div | zAdd | move | movel | chain | read | write | reade | readp
  | ifeq | ifne | iflt | ifgt | ifle | ifge | «else» | «end» | begsr | endsr | exsr
  | plist | parm | seton | setof | call | «return»
  deriving DecidableEq

/-- How an opcode is written. -/
def Opcode.name : Opcode → String
  | .add => "ADD"
  | .sub => "SUB"
  | .mult => "MULT"
  | .div => "DIV"
  | .zAdd => "Z-ADD"
  | .move => "MOVE"
  | .movel => "MOVEL"
  | .chain => "CHAIN"
  | .read => "READ"
  | .write => "WRITE"
  | .reade => "READE"
  | .readp => "READP"
  | .ifeq => "IFEQ"
  | .ifne => "IFNE"
  | .iflt => "IFLT"
  | .ifgt => "IFGT"
  | .ifle => "IFLE"
  | .ifge => "IFGE"
  | .else => "ELSE"
  | .end => "END"
  | .begsr => "BEGSR"
  | .endsr => "ENDSR"
  | .exsr => "EXSR"
  | .plist => "PLIST"
  | .parm => "PARM"
  | .seton => "SETON"
  | .setof => "SETOF"
  | .call => "CALL"
  | .return => "RETURN"

/-- `opcode_classes`, in its order. -/
def opcodeClasses : List (Opcode × Domain) :=
  [(.add, .arithmetic), (.sub, .arithmetic), (.mult, .arithmetic),
    (.div, .arithmetic), (.zAdd, .arithmetic), (.move, .move),
    (.movel, .move), (.chain, .io), (.read, .io),
    (.write, .io), (.reade, .io), (.readp, .io),
    (.ifeq, .condition), (.ifne, .condition), (.iflt, .condition),
    (.ifgt, .condition), (.ifle, .condition), (.ifge, .condition),
    (.else, .condition), (.end, .condition), (.begsr, .subroutine),
    (.endsr, .subroutine), (.exsr, .subroutine), (.plist, .parameter),
    (.parm, .parameter), (.seton, .indicator), (.setof, .indicator),
    (.call, .call), (.return, .call)]

/-- `spec_types.get(spec, "unknown")`. -/
def specTypes : Text → Domain
  | ['H'] => .header
  | ['F'] => .file
  | ['E'] => .extension
  | ['L'] => .lineCounter
  | ['I'] => .input
  | ['C'] => .calculation
  | ['O'] => .output
  | ['*'] => .comment
  | _ => .unknown

section Tables

variable (u : Unicode)

/-- The opcode that a token is, in whatever case. -/
def opcodeOf (t : Text) : Option Opcode :=
  (opcodeClasses.map Prod.fst).find? fun op => u.upperText (strip t) = op.name.toList

/-- `classify_opcode`. -/
def classifyOpcode (op : Opcode) : Domain := ((opcodeClasses.lookup op).getD .unknown)

/-- `find_opcode_idx`. -/
def findOpcodeIdx (tokens : List Text) : Option ℕ :=
  tokens.findIdx? fun t => (opcodeOf u t).isSome

/-! ### Rows -/

/-- What the decoders add to the fields of a row. -/
inductive Fields where
  | none
  | file (fileName access : Text) (keywords : List Text)
  | inputField (fieldFrom fieldTo fieldName : Text)
  | inputRecord (recordName : Text)
  | calculation (factor1 : Text) (opcode : Option Opcode) (factor2 result : Text)
      (tokens : List Text)
  | output (outputRecord operation : Text) (operands : List Text)

structure Row where
  lineNumber : ℕ
  raw : Text
  specCode : Text
  specKind : Domain
  sequence : Text
  comment : Text
  fields : Fields
  domain : Domain
  isComment : Bool
  isBlank : Bool
  reads : List Text
  writes : List Text
  warnings : List String

/-- The code of the specification, which is in column 6, or the asterisk of column 7. -/
def specCode (line : Text) : Text :=
  let spec := u.upperText (strip (slice1 line 6 6))
  if spec = [] ∧ slice1 line 7 7 = ['*'] then ['*'] else spec

/-- `base_row`. -/
def baseRow (line : Text) (lineno : ℕ) : Row :=
  let spec := specCode u line
  { lineNumber := lineno
    raw := line
    specCode := spec
    specKind := specTypes spec
    sequence := rstrip (slice1 line 1 5)
    comment := rstrip (slice1 line 54 80)
    fields := .none
    domain := specTypes spec
    isComment := spec = ['*']
    isBlank := strip line = []
    reads := []
    writes := []
    warnings := [] }

/-- `decode_file_row`. -/
def decodeFileRow (line : Text) (row : Row) : Row :=
  let toks := extractTokens line
  let row := { row with fields := .file (toks.headD []) (toks.tail.headD []) (toks.drop 2) }
  match toks with
  | name :: _ => { row with writes := row.writes ++ [name] }
  | [] => { row with warnings := row.warnings ++ ["file row missing file_name"] }

/-- `decode_input_row`. -/
def decodeInputRow (line : Text) (row : Row) : Row :=
  match extractTokens line with
  | [] => { row with warnings := row.warnings ++ ["input row has no tokens"] }
  | tok :: rest =>
      if tok.all u.isDigit then
        let row := { row with
          domain := .inputField
          fields := .inputField tok (rest.headD []) (rest.tail.headD []) }
        match rest.tail with
        | fn :: _ => { row with writes := row.writes ++ [fn] }
        | [] => row
      else
        { row with
          domain := .inputRecord
          fields := .inputRecord tok
          reads := row.reads ++ [tok] }

/-- `dict.fromkeys`, which keeps the first of equal keys. -/
def fromkeys (l : List Text) : List Text :=
  l.foldl (fun keys s => if keys.contains s then keys else keys ++ [s]) []

/-- The result of an opcode: some have none. -/
def resultOf (op : Opcode) (after : List Text) : Text :=
  if op ∈ [.write, .seton, .setof, .end, .else, .begsr, .endsr, .exsr] then []
  else after.tail.headD []

/-- What a row of an opcode reads. -/
def readsOf (op : Opcode) (f1 f2 : Option Text) : List Text :=
  fromkeys (f1.toList
    ++ (if op ∉ [.write, .seton] then f2.toList else [])
    ++ (if op = .chain then f2.toList else []))

/-- What it writes. -/
def writesOf (op : Opcode) (f1 f2 result : Option Text) : List Text :=
  fromkeys ((if op ∈ [.zAdd, .add, .sub, .mult, .div, .movel, .move, .parm] then result.toList
      else [])
    ++ (if op = .write then f2.toList else [])
    ++ (if op = .seton then f2.toList else [])
    ++ (if op ∈ [.begsr, .exsr, .endsr] then f1.toList else []))

/-- `decode_calculation_row`. -/
def decodeCalculationRow (line : Text) (row : Row) : Row :=
  let toks := extractTokens line
  match findOpcodeIdx u toks with
  | none =>
      { row with
        fields := .calculation [] none [] [] toks
        domain := .unknown
        warnings := row.warnings ++ ["calculation row missing recognized opcode"] }
  | some idx =>
      match opcodeOf u (toks.getD idx []) with
      | none => row
      | some op =>
          let before := toks.take idx
          let after := toks.drop (idx + 1)
          let f1 := before.getLastD []
          let f2 := after.headD []
          let result := resultOf op after
          { row with
            comment := rstrip (slice1 line 54 80)
            fields := .calculation f1 (some op) f2 result toks
            domain := classifyOpcode op
            reads := readsOf op (normalize f1) (normalize f2)
            writes := writesOf op (normalize f1) (normalize f2) (normalize result) }

/-- `decode_output_row`. -/
def decodeOutputRow (line : Text) (row : Row) : Row :=
  let toks := extractTokens line
  let row := { row with
    domain := .output
    fields := .output (toks.headD []) (toks.tail.headD []) (toks.drop 2) }
  match toks with
  | rec :: _ => { row with writes := row.writes ++ [rec] }
  | [] => { row with warnings := row.warnings ++ ["output row missing output_record"] }

/-- `decode_row`. -/
def decodeRow (line : Text) (lineno : ℕ) : Row :=
  let row := baseRow u line lineno
  if row.isBlank ∨ row.isComment then row
  else match row.specCode with
    | ['F'] => decodeFileRow line row
    | ['I'] => decodeInputRow u line row
    | ['C'] => decodeCalculationRow u line row
    | ['O'] => decodeOutputRow line row
    | _ => row

end Tables

/-! ### Tokens -/

/-- A text without white space, which is not empty. -/
structure Token (t : Text) : Prop where
  ne_nil : t ≠ []
  ink : ∀ c ∈ t, isSpace c = false

lemma token_of_mem_split {s t : Text} (h : t ∈ split s) : Token t := by
  obtain ⟨hmem, hne⟩ := List.mem_filter.mp h
  exact ⟨of_decide_eq_true hne, Separated.not_of_mem_splitOnP t hmem⟩

lemma Token.strip {t : Text} (h : Token t) : strip t = t := by
  obtain ⟨c, t, rfl⟩ := List.exists_cons_of_ne_nil h.ne_nil
  have hhead : isSpace c = false := h.ink c List.mem_cons_self
  have hlast : isSpace ((c :: t).getLast h.ne_nil) = false := h.ink _ (List.getLast_mem h.ne_nil)
  rw [Rpg.strip, rstrip, List.dropWhile_cons_of_neg (by simp [hhead]),
    List.rdropWhile_eq_self_iff]
  exact fun _ => by simp [hlast]

lemma Token.split {t : Text} (h : Token t) : split t = [t] := by
  rw [Rpg.split, List.splitOnP_eq_singleton h.ink]
  exact List.filter_cons_of_pos (decide_eq_true h.ne_nil)

/-- A token is its own normal form. -/
lemma Token.normalize {t : Text} (h : Token t) : normalize t = some t := by
  rw [Rpg.normalize, h.strip, h.split, List.intercalate_singleton]
  exact if_neg h.ne_nil

@[simp] lemma normalize_nil : normalize [] = none := rfl

/-- The first of some tokens, or nothing. -/
lemma normalize_headD {toks : List Text} (h : ∀ t ∈ toks, Token t) :
    normalize (toks.headD []) = toks.head? := by
  cases toks with
  | nil => rfl
  | cons t toks => exact (h t List.mem_cons_self).normalize

lemma normalize_getLastD {toks : List Text} (h : ∀ t ∈ toks, Token t) :
    normalize (toks.getLastD []) = toks.getLast? := by
  rcases List.eq_nil_or_concat toks with rfl | ⟨init, t, rfl⟩
  · rfl
  · have ht : Token t := h t (by simp)
    simp [ht.normalize]

/-! ### Rows of an opcode -/

section Calculation

variable {u : Unicode} {line : Text} {before after : List Text} {t : Text} {op : Opcode}

/-- The tokens of the line: those before the first opcode, the opcode, and those after it. -/
structure Calculation (u : Unicode) (line : Text) (before : List Text) (t : Text) (op : Opcode)
    (after : List Text) : Prop where
  tokens : extractTokens line = before ++ t :: after
  before : ∀ b ∈ before, opcodeOf u b = none
  opcode : opcodeOf u t = some op

lemma token_of_mem (h : t ∈ extractTokens line) : Token t := token_of_mem_split h

lemma Calculation.token_before (h : Calculation u line before t op after) :
    ∀ b ∈ before, Token b :=
  fun _ hb => @token_of_mem line _ (h.tokens ▸ List.mem_append_left _ hb)

lemma Calculation.token_after (h : Calculation u line before t op after) :
    ∀ a ∈ after, Token a := fun _ ha => @token_of_mem line _
  (h.tokens ▸ List.mem_append_right _ (List.mem_cons_of_mem t ha))

/-- A line has no opcode, or its tokens stand around the first one. -/
lemma findOpcodeIdx_cases (u : Unicode) (line : Text) :
    findOpcodeIdx u (extractTokens line) = none
      ∨ ∃ before t op after, Calculation u line before t op after := by
  by_cases h : ∀ t ∈ extractTokens line, opcodeOf u t = none
  · left
    rw [Rpg.findOpcodeIdx, List.findIdx?_eq_none_iff]
    intro t ht
    rw [h t ht]
    rfl
  · right
    push Not at h
    obtain ⟨before, t, after, htokens, hbefore, ht⟩ := Answers.exists_first h
    obtain ⟨op, hop⟩ := Option.ne_none_iff_exists'.mp ht
    exact ⟨before, t, op, after, htokens, fun b hb => not_not.mp (hbefore b hb), hop⟩

lemma Calculation.findOpcodeIdx (h : Calculation u line before t op after) :
    findOpcodeIdx u (extractTokens line) = some before.length := by
  have hnone : before.findIdx? (fun t => (opcodeOf u t).isSome) = none := by
    rw [List.findIdx?_eq_none_iff]
    intro b hb
    rw [h.before b hb]
    rfl
  rw [Rpg.findOpcodeIdx, h.tokens, List.findIdx?_append, hnone, List.findIdx?_cons, h.opcode]
  simp

/-- The row of an opcode: what it reads and writes is made up from the tokens next to it. -/
theorem decodeCalculationRow_eq (h : Calculation u line before t op after) (row : Row) :
    decodeCalculationRow u line row
      = { row with
          comment := rstrip (slice1 line 54 80)
          fields := .calculation (before.getLastD []) (some op) (after.headD [])
            (resultOf op after) (extractTokens line)
          domain := classifyOpcode op
          reads := readsOf op before.getLast? after.head?
          writes := writesOf op before.getLast? after.head? (normalize (resultOf op after)) } := by
  have hget : (extractTokens line).getD before.length [] = t := by
    rw [h.tokens, List.getD_append_right _ _ _ _ le_rfl, Nat.sub_self]
    rfl
  have htake : (extractTokens line).take before.length = before := by
    rw [h.tokens, List.take_left]
  have hdrop : (extractTokens line).drop (before.length + 1) = after := by
    rw [h.tokens, List.drop_append]
    simp
  rw [decodeCalculationRow, h.findOpcodeIdx]
  simp only [hget, h.opcode, htake, hdrop, normalize_headD h.token_after,
    normalize_getLastD h.token_before]

end Calculation

end Rpg

end SovereignBus
