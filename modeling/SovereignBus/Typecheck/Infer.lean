import SovereignBus.Library.Loop
import SovereignBus.Typecheck.Decode

/-!
Type inference over a program, as in `sov_infer_program` of
`src/typecheck/sov_types.c`.

* `inferInstruction`, `inferStep`, `inferLoop`: one instruction, the body of the
  loop around it, and the loop. `inferStep_eq_ok` says once what a pass does.
* `setup`, `sovInferProgram`: what comes before the loop, and the function.
  `Started` says when the loop is run, and `accepts_iff` when a
  program is accepted.
* `executed`: the states in which an instruction is inferred.
-/

namespace SovereignBus

namespace Typecheck

open Obligations

structure InferState where
  stack : Stack
  pc : ℕ
  obls : ObligationSet

/-- `infer_instruction`. Its errors come in the order of the source, where every
case reads its operands before it looks at the stack. -/
def inferInstruction (mem : Memory) (program : List UInt8) (s : InferState) :
    Except Stop InferState :=
  match decode program s.pc with
  | .error e => .error e
  | .ok (i, outPc) =>
      match i.infer s.stack with
      | .error msg => .error (.error msg)
      | .ok stack =>
          match i.oblige mem s.pc outPc s.obls with
          | .error msg => .error (.error msg)
          | .ok obls => .ok ⟨stack, outPc, obls⟩

/-- The body of the loop of `sov_infer_program`. -/
def inferStep (mem : Memory) (program : List UInt8) (s : InferState) : Except Stop InferState :=
  match inferInstruction mem program s with
  | .error (.error msg) =>
      .error (.error ("Type inference failed at PC " ++ toString s.pc ++ ": " ++ msg))
  | .error (.fault i) => .error (.fault i)
  | .ok t =>
      if t.pc > program.length then .error (.error "Instruction stream overflow") else .ok t

/-- What an instruction that is not refused does. -/
lemma inferInstruction_eq_ok {mem : Memory} {program : List UInt8} {s t : InferState} :
    inferInstruction mem program s = .ok t
      ↔ ∃ i, decode program s.pc = .ok (i, t.pc) ∧ i.infer s.stack = .ok t.stack
        ∧ i.oblige mem s.pc t.pc s.obls = .ok t.obls := by
  rw [inferInstruction]
  constructor
  · intro h
    split at h
    · simp at h
    next i outPc hdec =>
      split at h
      · simp at h
      next stack hstack =>
        split at h
        · simp at h
        next obls hobls =>
          obtain rfl := Except.ok.inj h
          exact ⟨i, hdec, hstack, hobls⟩
  · rintro ⟨i, hdec, hstack, hobls⟩
    simp only [hdec, hstack, hobls]

/-- What a pass does: an instruction is read that ends inside the program, and
the stack and the obligations follow it. -/
lemma inferStep_eq_ok {mem : Memory} {program : List UInt8} {s t : InferState} :
    inferStep mem program s = .ok t
      ↔ ∃ i, decode program s.pc = .ok (i, t.pc) ∧ i.infer s.stack = .ok t.stack
        ∧ i.oblige mem s.pc t.pc s.obls = .ok t.obls ∧ t.pc ≤ program.length := by
  have hstep : inferStep mem program s = .ok t
      ↔ inferInstruction mem program s = .ok t ∧ t.pc ≤ program.length := by
    rw [inferStep]
    split
    · simp_all
    · simp_all
    next u hu =>
      split_ifs with hpc
      · simp [hu]
        rintro rfl
        exact hpc
      · simp [hu]
        rintro rfl
        omega
  rw [hstep, inferInstruction_eq_ok]
  constructor
  · rintro ⟨⟨i, hdec, hstack, hobls⟩, hpc⟩
    exact ⟨i, hdec, hstack, hobls, hpc⟩
  · rintro ⟨i, hdec, hstack, hobls, hpc⟩
    exact ⟨⟨i, hdec, hstack, hobls⟩, hpc⟩

lemma inferInstruction_eq_fault {mem : Memory} {program : List UInt8} {s : InferState} {j : ℕ} :
    inferInstruction mem program s = .error (.fault j)
      ↔ decode program s.pc = .error (.fault j) := by
  rw [inferInstruction]
  cases hdec : decode program s.pc with
  | error e => simp
  | ok r =>
      cases hstack : r.1.infer s.stack with
      | error msg => simp [hstack]
      | ok stack =>
          cases hobls : r.1.oblige mem s.pc r.2 s.obls with
          | error msg => simp [hstack, hobls]
          | ok obls => simp [hstack, hobls]

/-- A pass faults where its instruction is read. -/
lemma inferStep_eq_fault {mem : Memory} {program : List UInt8} {s : InferState} {j : ℕ} :
    inferStep mem program s = .error (.fault j) ↔ decode program s.pc = .error (.fault j) := by
  rw [← @inferInstruction_eq_fault mem, inferStep]
  cases inferInstruction mem program s with
  | error e => cases e <;> simp
  | ok t =>
      simp only [reduceCtorEq, iff_false]
      split_ifs <;> simp

/-- The loop of `sov_infer_program`. -/
def inferLoop (mem : Memory) (program : List UInt8) : Loop InferState Stop where
  cond s := decide (s.pc < program.length ∧ program[s.pc]? ≠ some opHalt)
  body := inferStep mem program
  measure s := program.length - s.pc
  decreases := by
    intro s t _ h
    obtain ⟨i, hdec, -, -, hpc⟩ := inferStep_eq_ok.mp h
    have hlt := decode_lt hdec
    omega

lemma cond_iff {mem : Memory} {program : List UInt8} {s : InferState} :
    (inferLoop mem program).cond s = true
      ↔ s.pc < program.length ∧ program[s.pc]? ≠ some opHalt :=
  decide_eq_true_iff

/-! ### The function -/

/-- Which allocations succeed: those of the obligations, the result, the working
stack, and the identifiers of a number of obligations. -/
structure InferMemory extends Memory where
  result : Bool
  stack : Bool
  ids : ℕ → Bool

/-- The memory in which every allocation succeeds. -/
def InferMemory.unlimited : InferMemory :=
  ⟨⟨true, fun _ => true, fun _ => true⟩, true, true, fun _ => true⟩

/-- `InferResult`; a pointer is `NULL` or what it points to. -/
structure InferResult where
  finalStack : Option Stack
  numObligations : ℕ
  obligationIds : Option (List UInt32)
  errorMsg : Option String

/-- The result that only reports an error. -/
def InferResult.failed (msg : String) : InferResult := ⟨none, 0, none, some msg⟩

/-- The copy of the initial stack, made from its bottom. -/
def copyStack (initial : Stack) : Option Stack :=
  initial.foldrM (fun v work => sovStackPush work v.type v.shape.rows v.shape.cols) []

/-- What `sov_infer_program` does before its loop. -/
def setup (mem : InferMemory) :
    Option (List UInt8) → Option Stack → Except String (List UInt8 × InferState)
  | some program, some initial =>
      if program.length = 0 then .error "Invalid program or stack"
      else if mem.stack = false then .error "Stack allocation failed"
      else
        match copyStack initial with
        | none => .error "Stack copy failed"
        | some work =>
            match sovObsetNew mem.toMemory with
            | none => .error "Obligation set allocation failed"
            | some obls => .ok (program, ⟨work, 0, obls⟩)
  | _, _ => .error "Invalid program or stack"

/-- The result of a run of the loop that ends. -/
def capture (mem : InferMemory) (s : InferState) : InferResult :=
  let ids := if s.obls.count > 0 ∧ mem.ids s.obls.count then some s.obls.ids else none
  ⟨some s.stack, s.obls.count, ids, none⟩

/-- `sov_infer_program`: `NULL` or the result. The error is the index of a byte
that is read outside of the program. -/
def sovInferProgram (mem : InferMemory) (programBytes : Option (List UInt8))
    (initialStack : Option Stack) : Except ℕ (Option InferResult) :=
  if mem.result = false then .ok none
  else
    match setup mem programBytes initialStack with
    | .error msg => .ok (some (.failed msg))
    | .ok (program, s) =>
        match (inferLoop mem.toMemory program).run s with
        | .error (.error msg) => .ok (some (.failed msg))
        | .error (.fault i) => .error i
        | .ok t => .ok (some (capture mem t))

/-- The states in which an instruction is inferred. -/
def executed (mem : InferMemory) (programBytes : Option (List UInt8))
    (initialStack : Option Stack) : List InferState :=
  if mem.result = false then []
  else
    match setup mem programBytes initialStack with
    | .error _ => []
    | .ok (program, s) => (inferLoop mem.toMemory program).trace s

/-! ### Runs -/

/-- The state in which the loop starts. -/
def start (initial : Stack) : InferState := ⟨initial, 0, ⟨[], 10, 0⟩⟩

/-- The loop is run. -/
structure Started (mem : InferMemory) (program : List UInt8) (initial : Stack) : Prop where
  result : mem.result = true
  program : program ≠ []
  stack : mem.stack = true
  depth : initial.length ≤ 256
  obligationSet : mem.obligationSet = true

lemma copyStack_eq (initial : Stack) :
    copyStack initial = if initial.length ≤ 256 then some initial else none := by
  induction initial with
  | nil => rfl
  | cons v initial ih =>
      rw [copyStack, List.foldrM_cons, ← copyStack, ih, List.length_cons]
      split_ifs with h h'
      · simp only [Option.bind_eq_bind, Option.bind_some, sovStackPush]
        rw [if_neg (by omega)]
      · simp only [Option.bind_eq_bind, Option.bind_some, sovStackPush]
        rw [if_pos (by omega)]
      · omega
      · rfl

lemma started_unlimited {program : List UInt8} {initial : Stack} (hprogram : program ≠ [])
    (hdepth : initial.length ≤ 256) : Started .unlimited program initial :=
  ⟨rfl, hprogram, rfl, hdepth, rfl⟩

lemma setup_eq_ok {mem : InferMemory} {program : List UInt8} {initial : Stack}
    (h : Started mem program initial) :
    setup mem (some program) (some initial) = .ok (program, start initial) := by
  simp [setup, h.program, h.stack, copyStack_eq, h.depth, sovObsetNew, h.obligationSet, start]

/-- Before the loop nothing is done but what starts it. -/
lemma setup_cases (mem : InferMemory) (program : List UInt8) (initial : Stack)
    (hresult : mem.result = true) :
    Started mem program initial ∨ ∃ msg, setup mem (some program) (some initial) = .error msg := by
  by_cases hprogram : program = []
  · exact .inr ⟨"Invalid program or stack", by simp [setup, hprogram]⟩
  by_cases hstack : mem.stack = false
  · exact .inr ⟨"Stack allocation failed", by simp [setup, hprogram, hstack]⟩
  by_cases hdepth : initial.length ≤ 256
  · by_cases hobset : mem.obligationSet = true
    · exact .inl ⟨hresult, hprogram, by simpa using hstack, hdepth, hobset⟩
    · exact .inr ⟨"Obligation set allocation failed",
        by simp [setup, hprogram, hstack, copyStack_eq, hdepth, sovObsetNew, hobset]⟩
  · exact .inr ⟨"Stack copy failed",
      by simp [setup, hprogram, hstack, copyStack_eq, hdepth]⟩

lemma sovInferProgram_of_started {mem : InferMemory} {program : List UInt8} {initial : Stack}
    (h : Started mem program initial) :
    sovInferProgram mem (some program) (some initial)
      = match (inferLoop mem.toMemory program).run (start initial) with
        | .error (.error msg) => .ok (some (.failed msg))
        | .error (.fault i) => .error i
        | .ok t => .ok (some (capture mem t)) := by
  rw [sovInferProgram, if_neg (by simp [h.result]), setup_eq_ok h]

/-- A loop that is not run leaves an error or nothing. -/
lemma sovInferProgram_of_not_started {mem : InferMemory} {program : List UInt8} {initial : Stack}
    (h : ¬ Started mem program initial) :
    sovInferProgram mem (some program) (some initial) = .ok none
      ∨ ∃ msg, sovInferProgram mem (some program) (some initial) = .ok (some (.failed msg)) := by
  by_cases hresult : mem.result = true
  · obtain ⟨msg, hmsg⟩ := (setup_cases mem program initial hresult).resolve_left h
    exact .inr ⟨msg, by rw [sovInferProgram, if_neg (by simp [hresult]), hmsg]⟩
  · exact .inl (by simp [sovInferProgram, hresult])

/-- The program is accepted with a result. -/
def Accepts (mem : InferMemory) (program : List UInt8) (initial : Stack) (r : InferResult) : Prop :=
  sovInferProgram mem (some program) (some initial) = .ok (some r) ∧ r.finalStack ≠ none

/-- A program is accepted when the loop is run and ends. -/
theorem accepts_iff {mem : InferMemory} {program : List UInt8} {initial : Stack}
    {r : InferResult} :
    Accepts mem program initial r
      ↔ Started mem program initial
        ∧ ∃ t, (inferLoop mem.toMemory program).run (start initial) = .ok t
          ∧ capture mem t = r := by
  have hfailed : ∀ msg, ¬ (InferResult.failed msg = r ∧ r.finalStack ≠ none) := by
    rintro msg ⟨rfl, hne⟩
    exact hne rfl
  by_cases h : Started mem program initial
  · rw [Accepts, sovInferProgram_of_started h]
    cases hrun : (inferLoop mem.toMemory program).run (start initial) with
    | error e =>
        cases e with
        | error msg => simpa [h] using hfailed msg
        | fault i => simp
    | ok t =>
        simp only [Except.ok.injEq, Option.some.injEq, h, true_and, exists_eq_left']
        exact and_iff_left_of_imp fun hr => by simp [← hr, capture]
  · refine iff_of_false ?_ fun ⟨hs, _⟩ => h hs
    rintro ⟨heq, hne⟩
    rcases sovInferProgram_of_not_started h with h' | ⟨msg, h'⟩
    · simp [h'] at heq
    · exact hfailed msg ⟨Option.some.inj (Except.ok.inj (h'.symm.trans heq)), hne⟩

/-- A loop that reaches its end accepts. -/
lemma accepts_of_reaches {mem : InferMemory} {program : List UInt8} {initial : Stack}
    {t : InferState} (h : Started mem program initial)
    (hreach : (inferLoop mem.toMemory program).Reaches (start initial) t)
    (hcond : (inferLoop mem.toMemory program).cond t = false) :
    Accepts mem program initial (capture mem t) :=
  accepts_iff.mpr ⟨h, t, Loop.run_eq_ok_iff.mpr ⟨hreach, hcond⟩, rfl⟩

lemma executed_of_started {mem : InferMemory} {program : List UInt8} {initial : Stack}
    (h : Started mem program initial) :
    executed mem (some program) (some initial)
      = (inferLoop mem.toMemory program).trace (start initial) := by
  rw [executed, if_neg (by simp [h.result]), setup_eq_ok h]

lemma executed_of_not_started {mem : InferMemory} {program : List UInt8} {initial : Stack}
    (h : ¬ Started mem program initial) : executed mem (some program) (some initial) = [] := by
  by_cases hresult : mem.result = true
  · obtain ⟨msg, hmsg⟩ := (setup_cases mem program initial hresult).resolve_left h
    rw [executed, if_neg (by simp [hresult]), hmsg]
  · rw [executed, if_pos (by simpa using hresult)]

end Typecheck

end SovereignBus
