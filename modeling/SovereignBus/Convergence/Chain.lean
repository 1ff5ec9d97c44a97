import SovereignBus.Convergence.Values

/-!
The sealing of convergence events, `seb/runtime/seb_convergence.mjs`.

* `Runtime`, `Json`: what the module gets from outside. A text of `JSON.stringify` is
  read back by `JSON.parse`, with white space before it and with nothing else.
* `buildPayload`, `appendToChain`, `verifyChain`, `run`: the functions of the source.
  An exception is `none`.
* `load`: the tip that a new process starts with.
* `fileOf`: the chain file of a list of records.
* `sampleRuntime`, `Table.codec`, `sampleTable`: a runtime for examples, and the codec of a table
  of records with their texts.
-/

namespace SovereignBus

namespace Convergence

/-! ### Data -/

/-- An entry of the convergence log. -/
structure Entry where
  event : Value
  problemId : Value
  solver : Value
  universeSumDelta : Value
  timestamp : Value

/-- A record of the chain. -/
structure Record where
  n : ℕ
  event : Value
  problemId : Value
  solver : Value
  delta : Value
  timestamp : Value
  payload : Text
  commitment : Text
  prevTip : Text
  deriving Countable, DecidableEq

/-- What the module reads of a line of the chain. -/
structure Stored where
  problemId : Value
  timestamp : Value
  payload : Value
  commitment : Value

/-- What is read back of a record. -/
def Record.stored (r : Record) : Stored :=
  ⟨r.problemId.stored, r.timestamp.stored, .string r.payload, .string r.commitment⟩

/-- A reading of the clock, whose nanoseconds fit into a payload. -/
structure Clock where
  ms : ℕ
  iso : Text
  fits : ms * 1000000 < 2 ^ 64

/-- The start of the clock. -/
def epoch : Clock := ⟨0, "1970-01-01T00:00:00.000Z".toList, by norm_num⟩

/-- Conversions of values. An object's raise where they are `none`, and a date is `none`
where it is invalid. -/
structure Runtime where
  numberText : UInt64 → Text
  stringNumber : Text → UInt64
  objectText : ℕ → Option Text
  objectNumber : ℕ → Option UInt64
  objectBytes : ℕ → Option (List UInt8)
  timeClip : UInt64 → Option ℤ
  parseDate : Text → Option ℤ
  objectDate : ℕ → Option ℤ
  sha256 : Text → Fin 32 → UInt8

/-- `JSON.stringify` of records, and `JSON.parse`. A line that is no JSON or only `null`
is `none`: the module raises on both. -/
structure Json where
  stringify : Record → Text
  parse : Text → Option Stored
  oneLine : ∀ r, '\n' ∉ stringify r
  braced : ∀ r, (stringify r).head? = some '\x7b'
  parse_stringify : ∀ u r,
    parse (u ++ stringify r) = if u.all jsonSpace then some r.stored else none

variable (rt : Runtime) (json : Json)

/-! ### Conversions -/

/-- The text in a template. -/
def Runtime.text : Value → Option Text
  | .undefined => some "undefined".toList
  | .null => some "null".toList
  | .bool b => some (if b then "true".toList else "false".toList)
  | .number x => some (if isZero x.1 then ['0'] else rt.numberText x.1)
  | .string s => some s
  | .object name => rt.objectText name

/-- The unary plus, of `<` and of `writeDoubleLE`. -/
def Runtime.toNumber : Value → Option UInt64
  | .undefined => some 0x7FF8000000000000
  | .null => some 0
  | .bool b => some (if b then 0x3FF0000000000000 else 0)
  | .number x => some x.1
  | .string s => some (rt.stringNumber s)
  | .object name => rt.objectNumber name

/-- `new Date(v).getTime()`. -/
def Runtime.getTime : Value → Option ℤ
  | .undefined => none
  | .null => some 0
  | .bool b => some (if b then 1 else 0)
  | .number x => if isFinite x.1 then rt.timeClip x.1 else none
  | .string s => rt.parseDate s
  | .object name => rt.objectDate name

/-- `Buffer.from(v, 'hex')`. -/
def Runtime.buffer : Value → Option (List UInt8)
  | .string s => some (fromHex s)
  | .object name => rt.objectBytes name
  | _ => none

/-! ### The chain -/

/-- `EVENT_PROBLEM_SOLVED`. -/
def eventProblemSolved : ℕ := 0x0400

/-- `EVENT_ATTACK_DETECTED`. -/
def eventAttackDetected : ℕ := 0x0401

/-- `entry.universeSumDelta || 0`. -/
def Entry.delta (entry : Entry) : Value := entry.universeSumDelta.or (.number zero)

/-- The type of an event of a delta. -/
def eventType (delta : UInt64) : ℕ :=
  if isNegative delta then eventAttackDetected else eventProblemSolved

/-- The argument of `update`, which takes no other value than a string. -/
def Entry.hashed (entry : Entry) : Option Text :=
  match entry.problemId.or (.string []) with
  | .string s => some s
  | _ => none

/-- The milliseconds of `new Date(entry.timestamp || new Date())`. -/
def Entry.time (clock : Clock) (entry : Entry) : Option ℤ :=
  if entry.timestamp.truthy then rt.getTime entry.timestamp else some clock.ms

/-- The bytes of a payload. -/
def payloadBytes (delta : UInt64) (ts : ℕ) (problemId : Text) : List UInt8 :=
  writeUInt64LE (eventType delta) ++ writeUInt64LE ts ++ List.ofFn (rt.sha256 problemId)
    ++ writeUInt64LE delta.toNat ++ List.replicate 8 0

/-- `buildPayload`. -/
def buildPayload (clock : Clock) (entry : Entry) : Option (List UInt8) := do
  let delta ← rt.toNumber entry.delta
  let ms ← entry.time rt clock
  let ts := ms * 1000000
  if 0 ≤ ts ∧ ts < 2 ^ 64 then
    let problemId ← entry.hashed
    some (payloadBytes rt delta ts.toNat problemId)
  else none

/-- `circuit`, on buffers. -/
def circuit (prev32 payload64 : List UInt8) : List UInt8 :=
  List.ofFn (Js.circuit (cells 32 prev32) (cells 64 payload64))

/-- The tip before any record. -/
def genesis : List UInt8 := List.replicate 32 0

/-- The chain file, if there is one, and the tip in memory. -/
structure State where
  chain : Option Text
  tip : List UInt8

/-- The lines of the chain file, none if there is no file. -/
def chainLines : Option Text → List Text
  | none => []
  | some file => lines file

/-- The record that is made of an entry. -/
def makeRecord (clock : Clock) (entry : Entry) (payload : List UInt8) (s : State) : Record where
  n := (chainLines s.chain).length
  event := entry.event
  problemId := entry.problemId
  solver := entry.solver.or .null
  delta := entry.delta
  timestamp := entry.timestamp.or (.string clock.iso)
  payload := toHex payload
  commitment := toHex (circuit s.tip payload)
  prevTip := toHex s.tip

/-- `appendFileSync`, which makes the file if there is none. -/
def appendFile (file : Option Text) (text : Text) : Option Text := some (file.getD [] ++ text)

/-- `appendToChain`. -/
def appendToChain (clock : Clock) (entry : Entry) (s : State) : Option (Record × State) := do
  let payload ← buildPayload rt clock entry
  let record := makeRecord clock entry payload s
  some (record,
    ⟨appendFile s.chain (json.stringify record ++ ['\n']), circuit s.tip payload⟩)

/-- What `verifyChain` returns. -/
inductive Verdict where
  | ok (count : ℕ) (tip : Option Text)
  | broken (brokenAt : ℕ) (expected got : Text)
  deriving DecidableEq

/-- The loop of `verifyChain`. -/
def verifyLines : ℕ → List UInt8 → List Text → Option Verdict
  | i, expectedTip, [] => some (.ok i (some (toHex expectedTip)))
  | i, expectedTip, l :: ls => do
      let r ← json.parse l
      let payload ← rt.buffer r.payload
      let computed := circuit expectedTip payload
      let stored ← rt.buffer r.commitment
      if computed = stored then verifyLines (i + 1) computed ls
      else some (.broken i (toHex computed) (toHex stored))

/-- `verifyChain`. -/
def verifyChain : Option Text → Option Verdict
  | none => some (.ok 0 none)
  | some file => verifyLines rt json 0 genesis (lines file)

/-- The tip that a process finds. -/
def load (chain : Option Text) : Option (List UInt8) :=
  match (chainLines chain).getLast? with
  | none => some genesis
  | some last => do
      let r ← json.parse last
      rt.buffer r.commitment

/-! ### A process -/

/-- The key of an entry, `problemId:timestamp`. -/
def key (problemId timestamp : Value) : Option Text := do
  let p ← rt.text problemId
  let t ← rt.text timestamp
  some (p ++ ':' :: t)

/-- The keys in the chain. -/
def sealedKeys (chain : Option Text) : Option (List Text) :=
  (chainLines chain).mapM fun l => do
    let r ← json.parse l
    key rt r.problemId r.timestamp

/-- The loop of `run`, with the records that it appends. Every entry has its own reading
of the clock, and an exception ends the loop. -/
def sealEntries (keys : List Text) :
    (ℕ → Clock) → List Entry → State → State × List Record
  | _, [], s => (s, [])
  | clock, entry :: entries, s =>
      match key rt entry.problemId entry.timestamp with
      | none => (s, [])
      | some k =>
          if k ∈ keys then sealEntries keys (fun i => clock (i + 1)) entries s
          else
            match appendToChain rt json (clock 0) entry s with
            | none => (s, [])
            | some (r, s) =>
                let (s, rs) := sealEntries keys (fun i => clock (i + 1)) entries s
                (s, r :: rs)

/-- A process: the chain file that it leaves, and the records that it appends. The
verification in the end and the exit codes change neither. -/
def run (clock : ℕ → Clock) (log : List Entry) (chain : Option Text) :
    Option Text × List Record :=
  match load rt json chain, sealedKeys rt json chain with
  | some tip, some keys =>
      let (s, rs) := sealEntries rt json keys clock log ⟨chain, tip⟩
      (s.chain, rs)
  | _, _ => (chain, [])

/-! ### What they do -/

variable {rt json} {clock : Clock} {entry : Entry} {s s' : State} {r : Record}

lemma buildPayload_eq_some {payload : List UInt8} (h : buildPayload rt clock entry = some payload) :
    ∃ delta ms problemId, rt.toNumber entry.delta = some delta ∧ entry.time rt clock = some ms
      ∧ entry.hashed = some problemId
      ∧ payload = payloadBytes rt delta (ms * 1000000).toNat problemId
      ∧ 0 ≤ ms * 1000000 ∧ ms * 1000000 < 2 ^ 64 := by
  simp only [buildPayload, Option.bind_eq_bind, Option.bind_eq_some_iff] at h
  obtain ⟨delta, hdelta, ms, hms, h⟩ := h
  split_ifs at h with hts
  obtain ⟨problemId, hproblemId, h⟩ := Option.bind_eq_some_iff.mp h
  exact ⟨delta, ms, problemId, hdelta, hms, hproblemId, (Option.some.inj h).symm, hts⟩

lemma appendToChain_eq_some (h : appendToChain rt json clock entry s = some (r, s')) :
    ∃ payload, buildPayload rt clock entry = some payload ∧ r = makeRecord clock entry payload s
      ∧ s' = ⟨appendFile s.chain (json.stringify r ++ ['\n']), circuit s.tip payload⟩ := by
  simp only [appendToChain, Option.bind_eq_bind, Option.bind_eq_some_iff, Option.some.injEq,
    Prod.mk.injEq] at h
  obtain ⟨payload, hpayload, rfl, rfl⟩ := h
  exact ⟨payload, hpayload, rfl, rfl⟩

lemma appendToChain_of {payload : List UInt8} (h : buildPayload rt clock entry = some payload) :
    appendToChain rt json clock entry s
      = some (makeRecord clock entry payload s,
          ⟨appendFile s.chain (json.stringify (makeRecord clock entry payload s) ++ ['\n']),
            circuit s.tip payload⟩) := by
  rw [appendToChain, h]
  rfl

lemma buildPayload_of {delta : UInt64} {ms : ℤ} {problemId : Text}
    (hdelta : rt.toNumber entry.delta = some delta) (hms : entry.time rt clock = some ms)
    (hproblemId : entry.hashed = some problemId)
    (hts : 0 ≤ ms * 1000000 ∧ ms * 1000000 < 2 ^ 64) :
    buildPayload rt clock entry
      = some (payloadBytes rt delta (ms * 1000000).toNat problemId) := by
  simp only [buildPayload, Option.bind_eq_bind, hdelta, hms, hproblemId, Option.bind_some,
    if_pos hts]

lemma Clock.ts_fits (clock : Clock) :
    0 ≤ (clock.ms : ℤ) * 1000000 ∧ (clock.ms : ℤ) * 1000000 < 2 ^ 64 :=
  ⟨by positivity, by exact_mod_cast clock.fits⟩

variable (json) in
lemma stringify_not_blank (u : Text) (r : Record) :
    (u ++ json.stringify r).all isSpace = false := by
  obtain ⟨t, ht⟩ := List.head?_eq_some_iff.mp (json.braced r)
  rw [ht]
  simp [show isSpace '\x7b' = false by decide]

/-- A record is a line. -/
lemma lines_stringify (r : Record) : lines (json.stringify r) = [json.stringify r] :=
  lines_of_not_blank (stringify_not_blank json [] r) (json.oneLine r)

lemma parse_record (r : Record) : json.parse (json.stringify r) = some r.stored := by
  have h := json.parse_stringify [] r
  rwa [List.nil_append, if_pos List.all_nil] at h

variable (json) in
/-- The lines that are over stay, and the new line is the rest with the record. -/
lemma lines_append_record (file : Text) (r : Record) :
    ∃ ls, lines file = ls ++ lines (rest file)
      ∧ lines (file ++ (json.stringify r ++ ['\n'])) = ls ++ [rest file ++ json.stringify r] := by
  obtain ⟨ls, hls⟩ := exists_lines file
  refine ⟨ls, by simpa using hls [], ?_⟩
  have hline : '\n' ∉ rest file ++ json.stringify r := by
    simp [rest_line, json.oneLine]
  rw [hls, ← List.append_assoc, lines_feed, lines_nil, List.append_nil,
    lines_of_not_blank (stringify_not_blank json _ r) hline]

/-! ### Files of records -/

variable (json) in
/-- The chain file of a list of records. -/
def fileOf : List Record → Option Text
  | [] => none
  | rs => some (rs.flatMap fun r => json.stringify r ++ ['\n'])

lemma lines_records (rs : List Record) :
    lines (rs.flatMap fun r => json.stringify r ++ ['\n']) = rs.map json.stringify := by
  induction rs with
  | nil => exact lines_nil
  | cons r rs ih =>
      rw [List.flatMap_cons, List.append_assoc, List.singleton_append, lines_feed,
        lines_stringify, ih]
      rfl

lemma chainLines_fileOf (chain : List Record) :
    chainLines (fileOf json chain) = chain.map json.stringify := by
  cases chain with
  | nil => rfl
  | cons r rs => exact lines_records (r :: rs)

lemma appendFile_fileOf (chain : List Record) (r : Record) :
    appendFile (fileOf json chain) (json.stringify r ++ ['\n']) = fileOf json (chain ++ [r]) := by
  cases chain with
  | nil => simp [fileOf, appendFile]
  | cons r' rs => simp [fileOf, appendFile]

/-- The tip that is found behind the last record. -/
lemma load_fileOf (rs : List Record) (r : Record) :
    load rt json (fileOf json (rs.concat r)) = some (fromHex r.commitment) := by
  rw [load, chainLines_fileOf]
  simp [parse_record, Record.stored, Runtime.buffer]

/-! ### A runtime and a codec -/

/-- The first day of 2026. -/
def newYear : Value := .string "2026-01-01T00:00:00.000Z".toList

def dayAfter : Value := .string "2026-01-02T00:00:00.000Z".toList

/-- The problem `p` is solved, for a delta of 1. -/
def solvedEntry : Entry :=
  ⟨.string "PROBLEM_SOLVED".toList, .string ['p'], .undefined, .number ⟨0x3FF0000000000000, rfl⟩,
    newYear⟩

/-- An attack on the problem `p` at the same time, for a delta of -1. -/
def attackEntry : Entry :=
  ⟨.string "ATTACK_DETECTED".toList, .string ['p'], .undefined,
    .number ⟨0xBFF0000000000000, rfl⟩, newYear⟩

/-- The attack comes a day later. -/
def lateAttack : Entry := { attackEntry with timestamp := dayAfter }

/-- The digest of `p`. -/
def digest : List UInt8 :=
  [0x14, 0x8d, 0xe9, 0xc5, 0xa7, 0xa4, 0x4d, 0x19, 0xe5, 0x6c, 0xd9, 0xae, 0x1a, 0x55, 0x4b, 0xf6,
    0x78, 0x47, 0xaf, 0xb0, 0xc5, 0x8f, 0x6e, 0x12, 0xfa, 0x29, 0xac, 0x7d, 0xdf, 0xca, 0x99, 0x40]

/-- Conversions that are right about the problem `p` and the first two days of 2026. -/
def sampleRuntime : Runtime where
  numberText x := (toString x.toNat).toList
  stringNumber _ := 0x7FF8000000000000
  objectText _ := some "[object Object]".toList
  objectNumber _ := some 0x7FF8000000000000
  objectBytes _ := none
  timeClip _ := none
  parseDate s :=
    match s.drop 8 with
    | '0' :: '2' :: _ => some 1767312000000
    | _ => some 1767225600000
  objectDate _ := none
  sha256 _ := cells 32 digest

/-- Records with their texts. A text is an object on one line, and no two are the same. -/
structure Table where
  rows : List (Record × Text)
  opened : ∀ row ∈ rows, row.2.take 2 = ['\x7b', '"']
  flat : ∀ row ∈ rows, row.2.tail.all (fun c => c != '\x7b' && c != '\n') = true
  nodup : (rows.map Prod.snd).Nodup

/-- A brace and the number of the record, for those that are not in the table. -/
noncomputable def unaryText (r : Record) : Text :=
  '\x7b' :: List.replicate ((exists_injective_nat Record).choose r) '1'

lemma unaryText_injective : Function.Injective unaryText := fun r r' h => by
  have hlength := congrArg List.length h
  simp only [unaryText, List.length_cons, List.length_replicate] at hlength
  exact (exists_injective_nat Record).choose_spec (by omega)

lemma unaryText_take (r : Record) : (unaryText r).take 2 ≠ ['\x7b', '"'] := by
  intro h
  have hmem : '"' ∈ unaryText r := List.mem_of_mem_take (h ▸ List.mem_pair.mpr (.inr rfl))
  simp [unaryText, List.mem_replicate] at hmem

namespace Table

variable (T : Table)

noncomputable def stringify (r : Record) : Text := (T.rows.lookup r).getD (unaryText r)

lemma stringify_cases (r : Record) :
    (r, T.stringify r) ∈ T.rows ∨ T.stringify r = unaryText r := by
  rw [stringify]
  cases hrow : T.rows.lookup r with
  | none => exact .inr rfl
  | some text =>
      obtain ⟨l₁, l₂, hl, -⟩ := List.lookup_eq_some_iff.mp hrow
      rw [hl]
      exact .inl (List.mem_append_right _ List.mem_cons_self)

lemma stringify_shape (r : Record) :
    ∃ s, T.stringify r = '\x7b' :: s ∧ '\x7b' ∉ s ∧ '\n' ∉ s := by
  rcases T.stringify_cases r with hrow | hunary
  · have hopened := T.opened _ hrow
    have hflat := T.flat _ hrow
    cases hs : T.stringify r with
    | nil => simp [hs] at hopened
    | cons c s =>
        simp only [hs] at hopened hflat
        refine ⟨s, congrArg (· :: s) (List.cons.inj hopened).1, fun hc => ?_, fun hc => ?_⟩
        · exact absurd (List.all_eq_true.mp hflat _ hc) (by decide)
        · exact absurd (List.all_eq_true.mp hflat _ hc) (by decide)
  · exact ⟨_, hunary, by simp [List.mem_replicate], by simp [List.mem_replicate]⟩

lemma stringify_injective : Function.Injective T.stringify := by
  have hmixed : ∀ {r r'}, (r, T.stringify r) ∈ T.rows → T.stringify r' = unaryText r' →
      T.stringify r ≠ T.stringify r' := by
    intro r r' hrow hunary heq
    have hopened := T.opened _ hrow
    rw [heq, hunary] at hopened
    exact unaryText_take r' hopened
  intro r r' h
  rcases T.stringify_cases r with hrow | hunary <;> rcases T.stringify_cases r' with hrow' | hunary'
  · exact congrArg Prod.fst (List.inj_on_of_nodup_map T.nodup hrow hrow' h)
  · exact absurd h (hmixed hrow hunary')
  · exact absurd h.symm (hmixed hrow' hunary)
  · exact unaryText_injective (hunary ▸ hunary' ▸ h)

/-- The one brace of a text tells where the record begins. -/
lemma stringify_unique {u u' : Text} {r r' : Record} (hu : '\x7b' ∉ u)
    (h : u ++ T.stringify r = u' ++ T.stringify r') : u = u' ∧ r = r' := by
  obtain ⟨s, hs, hbrace, -⟩ := T.stringify_shape r
  obtain ⟨s', hs', -, -⟩ := T.stringify_shape r'
  rcases List.append_eq_append_iff.mp h with ⟨c, rfl, hc⟩ | ⟨c, rfl, hc⟩
  · cases c with
    | nil => exact ⟨(List.append_nil u).symm, T.stringify_injective hc⟩
    | cons x c =>
        -- the brace of the second record is behind that of the first one
        rw [hs, List.cons_append, List.cons_eq_cons] at hc
        simp [hc.2, hs'] at hbrace
  · cases c with
    | nil => exact ⟨List.append_nil u', T.stringify_injective hc.symm⟩
    | cons x c =>
        rw [hs', List.cons_append, List.cons_eq_cons] at hc
        simp [← hc.1] at hu

open Classical in
/-- The codec of the table. -/
noncomputable def codec : Json where
  stringify := T.stringify
  parse text :=
    if h : ∃ r u, u.all jsonSpace = true ∧ text = u ++ T.stringify r then some h.choose.stored
    else none
  oneLine r := by
    obtain ⟨s, hs, -, hline⟩ := T.stringify_shape r
    rw [hs]
    simpa using hline
  braced r := by
    obtain ⟨s, hs, -, -⟩ := T.stringify_shape r
    rw [hs]
    rfl
  parse_stringify u r := by
    have hspace : ∀ {u : Text}, u.all jsonSpace = true → '\x7b' ∉ u := fun hu hmem =>
      absurd (List.all_eq_true.mp hu _ hmem) (by decide)
    split_ifs with h hu hu
    · obtain ⟨u', hu', heq⟩ := h.choose_spec
      rw [← (T.stringify_unique (hspace hu) heq).2]
    · obtain ⟨r', u', hu', heq⟩ := h
      rw [(T.stringify_unique (hspace hu') heq.symm).1] at hu'
      exact absurd hu' hu
    · exact absurd ⟨r, u, hu, rfl⟩ h
    · rfl

end Table

/-- The record of the solved problem, the first one of a chain. -/
def solvedRecord : Record where
  n := 0
  event := solvedEntry.event
  problemId := solvedEntry.problemId
  solver := .null
  delta := solvedEntry.universeSumDelta
  timestamp := newYear
  payload :=
    "00040000000000000000faed51728618148de9c5a7a44d19e56cd9ae1a554bf6".toList
      ++ "7847afb0c58f6e12fa29ac7ddfca9940000000000000f03f0000000000000000".toList
  commitment := "f6007c47afb0c58f6e12fad3412cad4c81548de9c5a7a44de9da6cd9ae1a554b".toList
  prevTip := List.replicate 64 '0'

/-- The record of the late attack, behind it. -/
def attackRecord : Record where
  n := 1
  event := lateAttack.event
  problemId := lateAttack.problemId
  solver := .null
  delta := lateAttack.universeSumDelta
  timestamp := dayAfter
  payload :=
    "01040000000000000000497fe6c08618148de9c5a7a44d19e56cd9ae1a554bf6".toList
      ++ "7847afb0c58f6e12fa29ac7ddfca9940000000000000f0bf0000000000000000".toList
  commitment := "0001000000000000000000b392b7b20000000000000000000080000000000000".toList
  prevTip := solvedRecord.commitment

/-- The two records, and what `JSON.stringify` makes of them. -/
def sampleTable : Table where
  rows :=
    [(solvedRecord,
        "\x7b\"n\":0,\"event\":\"PROBLEM_SOLVED\",\"problemId\":\"p\",\"solver\":null,".toList
          ++ "\"delta\":1,\"timestamp\":\"2026-01-01T00:00:00.000Z\",\"payload\":\"".toList
          ++ solvedRecord.payload ++ "\",\"commitment\":\"".toList ++ solvedRecord.commitment
          ++ "\",\"prev_tip\":\"".toList ++ solvedRecord.prevTip ++ "\"\x7d".toList),
      (attackRecord,
        "\x7b\"n\":1,\"event\":\"ATTACK_DETECTED\",\"problemId\":\"p\",\"solver\":null,".toList
          ++ "\"delta\":-1,\"timestamp\":\"2026-01-02T00:00:00.000Z\",\"payload\":\"".toList
          ++ attackRecord.payload ++ "\",\"commitment\":\"".toList ++ attackRecord.commitment
          ++ "\",\"prev_tip\":\"".toList ++ attackRecord.prevTip ++ "\"\x7d".toList)]
  opened := by decide +kernel
  flat := by decide +kernel
  nodup := by decide +kernel

/-- The codec of the two records. -/
noncomputable def sampleJson : Json := sampleTable.codec

/-- The circuit in closed form. -/
lemma circuit_eq (tip payload : List UInt8) :
    circuit tip payload = List.ofFn fun k : Fin 32 =>
      cells 32 tip k ^^^ cells 64 payload (Fin.castAdd 32 (k - 1))
        ^^^ cells 64 payload (Fin.natAdd 32 (k - 2)) := by
  rw [circuit, Js.circuit_eq]
  exact congrArg List.ofFn (funext (sebLatticeCommit_apply _ _))

lemma buildPayload_solvedEntry :
    buildPayload sampleRuntime epoch solvedEntry = some (fromHex solvedRecord.payload) := by
  decide +kernel

lemma buildPayload_lateAttack :
    buildPayload sampleRuntime epoch lateAttack = some (fromHex attackRecord.payload) := by
  decide +kernel

lemma circuit_solvedRecord :
    circuit genesis (fromHex solvedRecord.payload) = fromHex solvedRecord.commitment := by
  rw [circuit_eq]
  decide +kernel

lemma circuit_attackRecord :
    circuit (fromHex solvedRecord.commitment) (fromHex attackRecord.payload)
      = fromHex attackRecord.commitment := by
  rw [circuit_eq]
  decide +kernel

lemma append_solvedEntry (json : Json) :
    appendToChain sampleRuntime json epoch solvedEntry ⟨fileOf json [], genesis⟩
      = some (solvedRecord,
          ⟨fileOf json [solvedRecord], fromHex solvedRecord.commitment⟩) := by
  have hrecord : makeRecord epoch solvedEntry (fromHex solvedRecord.payload)
      ⟨fileOf json [], genesis⟩ = solvedRecord := by
    rw [makeRecord, chainLines_fileOf, List.length_map, circuit_solvedRecord]
    dsimp only
    decide +kernel
  rw [appendToChain_of buildPayload_solvedEntry, hrecord, circuit_solvedRecord, appendFile_fileOf]
  rfl

lemma append_lateAttack (json : Json) :
    appendToChain sampleRuntime json epoch lateAttack
        ⟨fileOf json [solvedRecord], fromHex solvedRecord.commitment⟩
      = some (attackRecord,
          ⟨fileOf json [solvedRecord, attackRecord], fromHex attackRecord.commitment⟩) := by
  have hrecord : makeRecord epoch lateAttack (fromHex attackRecord.payload)
      ⟨fileOf json [solvedRecord], fromHex solvedRecord.commitment⟩ = attackRecord := by
    rw [makeRecord, chainLines_fileOf, List.length_map, circuit_attackRecord]
    dsimp only
    decide +kernel
  rw [appendToChain_of buildPayload_lateAttack, hrecord, circuit_attackRecord, appendFile_fileOf]
  rfl

end Convergence

end SovereignBus
