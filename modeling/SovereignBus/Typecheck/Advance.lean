import SovereignBus.Typecheck.Infer

/-!
How long the loop of `sov_infer_program` runs.

* `inferLoopBehind`: the loop when more bytes stand behind the program in memory, where
  `infer_instruction` may read them.
* `infer_advances`: an instruction leads forward, so the loop ends within as many
  instructions as the program has bytes.
-/

namespace SovereignBus

namespace Typecheck

open Obligations

variable {mem : Memory} {program behind : List UInt8}

/-- Every instruction leads forward, whatever its operands are. -/
lemma inferInstruction_lt {s t : InferState} (h : inferInstruction mem program s = .ok t) :
    s.pc < t.pc := by
  obtain ⟨i, hdec, -, -⟩ := inferInstruction_eq_ok.mp h
  exact decode_lt hdec

/-- The body of the loop, with `behind` in memory behind the program. -/
def inferStepBehind (mem : Memory) (program behind : List UInt8) (s : InferState) :
    Except Stop InferState :=
  match inferInstruction mem (program ++ behind) s with
  | .error (.error msg) =>
      .error (.error ("Type inference failed at PC " ++ toString s.pc ++ ": " ++ msg))
  | .error (.fault i) => .error (.fault i)
  | .ok t =>
      if t.pc > program.length then .error (.error "Instruction stream overflow") else .ok t

lemma inferStepBehind_nil : inferStepBehind mem program [] = inferStep mem program := by
  funext s
  simp only [inferStepBehind, List.append_nil]
  rfl

lemma inferStepBehind_ok {s t : InferState} (h : inferStepBehind mem program behind s = .ok t) :
    s.pc < t.pc ∧ t.pc ≤ program.length := by
  cases hstep : inferInstruction mem (program ++ behind) s with
  | error e => cases e <;> simp [inferStepBehind, hstep] at h
  | ok u =>
      simp only [inferStepBehind, hstep] at h
      split_ifs at h with hpc
      obtain rfl := Except.ok.inj h
      exact ⟨inferInstruction_lt hstep, not_lt.mp hpc⟩

/-- The loop, with `behind` in memory behind the program. -/
def inferLoopBehind (mem : Memory) (program behind : List UInt8) : Loop InferState Stop where
  cond s := decide (s.pc < program.length ∧ program[s.pc]? ≠ some opHalt)
  body := inferStepBehind mem program behind
  measure s := program.length - s.pc
  decreases := by
    intro s t _ h
    obtain ⟨hlt, hle⟩ := inferStepBehind_ok h
    omega

/-- With nothing behind the program it is the loop of the inference. -/
lemma inferLoopBehind_nil : inferLoopBehind mem program [] = inferLoop mem program := by
  simp only [inferLoopBehind, inferLoop, inferStepBehind_nil]

lemma length_trace_behind_le (s : InferState) :
    ((inferLoopBehind mem program behind).trace s).length ≤ program.length - s.pc := by
  refine Loop.length_trace_le (fun s hc => ?_) s
  have hlt : s.pc < program.length := (of_decide_eq_true hc).1
  exact Nat.sub_pos_of_lt hlt

/-- The instructions of a run are no more than the bytes of the program. -/
lemma length_executed_le (mem : InferMemory) (program : List UInt8) (initial : Option Stack) :
    (executed mem (some program) initial).length ≤ program.length := by
  rw [executed]
  split_ifs with hresult
  · exact Nat.zero_le _
  cases initial with
  | none => exact Nat.zero_le _
  | some initial =>
      rcases setup_cases mem program initial (by simpa using hresult) with h | ⟨msg, hmsg⟩
      · have hle := @length_trace_behind_le mem.toMemory program [] (start initial)
        rw [inferLoopBehind_nil] at hle
        rw [setup_eq_ok h]
        exact hle
      · rw [hmsg]
        exact Nat.zero_le _

/-- The inference of a program always advances: an instruction without an error leads to a
greater program counter, the loop ends from any state within as many instructions as bytes are
left, and a run of `sov_infer_program` infers at most as many instructions as the program has
bytes. Bytes behind the program may be read. -/
theorem infer_advances (mem : InferMemory) (program behind : List UInt8)
    (initial : Option Stack) :
    (∀ s t, inferInstruction mem.toMemory (program ++ behind) s = .ok t → s.pc < t.pc)
      ∧ (∀ s, (inferLoopBehind mem.toMemory program behind).runFor (program.length - s.pc) s
        = some ((inferLoopBehind mem.toMemory program behind).run s))
      ∧ (executed mem (some program) initial).length ≤ program.length :=
  ⟨fun _ _ => inferInstruction_lt, fun s => Loop.runFor_eq (length_trace_behind_le s),
    length_executed_le mem program initial⟩

end Typecheck

end SovereignBus
