import SovereignBus.Typecheck.Infer

/-!
Type inference above a stack.

* `Types`: the typing rules. `infer_eq_ok_iff` says that the inference follows them.
* `Replaces`, `infer_replaces`: an instruction replaces values on the top of the
  stack and does not look below them.
* `reaches_frame`: a run can be followed above more values.
* `sov_infer_program_frame`: values below the initial stack come out below the
  final stack.
-/

namespace SovereignBus

namespace Typecheck

open Obligations

/-! ### Typing rules -/

lemma push_eq_ok_iff {name : String} {v : StackValue} {stack stack' : Stack} :
    push name v stack = .ok stack' ↔ stack.length < 256 ∧ stack' = v :: stack := by
  rw [push, sovStackPush]
  split_ifs with h
  · refine iff_of_false (by simp) ?_
    rintro ⟨hlt, -⟩
    omega
  · simp [not_le.mp h, eq_comm]

/-- Two scalars, or two vectors of one shape. -/
def Compatible (a b : StackValue) : Prop :=
  a.type = .scalar ∧ b.type = .scalar
    ∨ a.type = .vector ∧ b.type = .vector ∧ sovShapeUnify a.shape b.shape = true

lemma elementwise_eq_ok_iff {depth types : String} {shapes : Shape → Shape → String}
    {stack stack' : Stack} :
    elementwise depth shapes types stack = .ok stack'
      ↔ ∃ b a rest, stack = b :: a :: rest ∧ stack' = a :: rest ∧ Compatible a b := by
  rcases stack with _ | ⟨b, _ | ⟨a, rest⟩⟩
  · simp [elementwise]
  · simp [elementwise]
  rw [elementwise]
  constructor
  · intro h
    split_ifs at h with hscalar hvector hshape
    · exact ⟨b, a, rest, rfl, (Except.ok.inj h).symm, .inl hscalar⟩
    · exact ⟨b, a, rest, rfl, (Except.ok.inj h).symm, .inr ⟨hvector.1, hvector.2, hshape⟩⟩
  · rintro ⟨b', a', rest', hstack, rfl, hcompatible⟩
    obtain ⟨rfl, rfl, rfl⟩ : b = b' ∧ a = a' ∧ rest = rest' := by simpa using hstack
    rcases hcompatible with hscalar | ⟨ha, hb, hshape⟩
    · rw [if_pos hscalar]
    · rw [if_neg (by simp [ha]), if_pos ⟨ha, hb⟩, if_pos hshape]

/-- The typing rules of the instructions. -/
inductive Types : Instruction → Stack → Stack → Prop
  | pushScalar {stack : Stack} (hroom : stack.length < 256) :
      Types .pushScalar stack (⟨.scalar, ⟨1, 1⟩⟩ :: stack)
  | pushVector {n : UInt32} {stack : Stack} (hroom : stack.length < 256) :
      Types (.pushVector n) stack (⟨.vector, ⟨1, n.toNat⟩⟩ :: stack)
  | pushMatrix {m n : UInt32} {stack : Stack} (hroom : stack.length < 256) :
      Types (.pushMatrix m n) stack (⟨.matrix, ⟨m.toNat, n.toNat⟩⟩ :: stack)
  | dup {v : StackValue} {rest : Stack} (hroom : (v :: rest).length < 256) :
      Types .dup (v :: rest) (v :: v :: rest)
  | swap {a b : StackValue} {rest : Stack} : Types .swap (b :: a :: rest) (a :: b :: rest)
  | pop {a : StackValue} {rest : Stack} : Types .pop (a :: rest) rest
  | add {a b : StackValue} {rest : Stack} (h : Compatible a b) :
      Types .add (b :: a :: rest) (a :: rest)
  | sub {a b : StackValue} {rest : Stack} (h : Compatible a b) :
      Types .sub (b :: a :: rest) (a :: rest)
  | matmul {a b : Shape} {rest : Stack} (hinner : a.cols = b.rows) :
      Types .matmul (⟨.matrix, b⟩ :: ⟨.matrix, a⟩ :: rest) (⟨.matrix, ⟨a.rows, b.cols⟩⟩ :: rest)
  | verifyInv {a : Shape} {rest : Stack} (hsquare : a.rows = a.cols) :
      Types .verifyInv (⟨.matrix, a⟩ :: rest) rest
  | halt {stack : Stack} : Types .halt stack stack

lemma types_of_infer {i : Instruction} {stack stack' : Stack} (h : i.infer stack = .ok stack') :
    Types i stack stack' := by
  cases i with
  | pushScalar =>
      obtain ⟨hroom, rfl⟩ := push_eq_ok_iff.mp h
      exact .pushScalar hroom
  | pushVector n =>
      obtain ⟨hroom, rfl⟩ := push_eq_ok_iff.mp h
      exact .pushVector hroom
  | pushMatrix m n =>
      obtain ⟨hroom, rfl⟩ := push_eq_ok_iff.mp h
      exact .pushMatrix hroom
  | dup =>
      rcases stack with _ | ⟨top, rest⟩
      · simp [Instruction.infer, sovStackPeek] at h
      · obtain ⟨hroom, rfl⟩ := push_eq_ok_iff.mp h
        exact .dup hroom
  | swap =>
      rcases stack with _ | ⟨b, _ | ⟨a, rest⟩⟩
      · simp [Instruction.infer] at h
      · simp [Instruction.infer] at h
      · obtain rfl := Except.ok.inj h
        exact .swap
  | pop =>
      rcases stack with _ | ⟨a, rest⟩
      · simp [Instruction.infer] at h
      · obtain rfl := Except.ok.inj h
        exact .pop
  | add =>
      rw [Instruction.infer] at h
      obtain ⟨b, a, rest, rfl, rfl, hcompatible⟩ := elementwise_eq_ok_iff.mp h
      exact .add hcompatible
  | sub =>
      rw [Instruction.infer] at h
      obtain ⟨b, a, rest, rfl, rfl, hcompatible⟩ := elementwise_eq_ok_iff.mp h
      exact .sub hcompatible
  | matmul =>
      rcases stack with _ | ⟨⟨tb, b⟩, _ | ⟨⟨ta, a⟩, rest⟩⟩
      · simp [Instruction.infer] at h
      · simp [Instruction.infer] at h
      · rw [Instruction.infer] at h
        split_ifs at h with htypes hinner
        obtain rfl := Except.ok.inj h
        rw [not_or, not_not, not_not] at htypes
        obtain ⟨rfl, rfl⟩ := htypes
        exact .matmul (not_not.mp hinner)
  | verifyInv =>
      rcases stack with _ | ⟨⟨t, a⟩, rest⟩
      · simp [Instruction.infer] at h
      · rw [Instruction.infer] at h
        split_ifs at h with hsquare
        obtain rfl := Except.ok.inj h
        rw [not_or, not_not, not_not] at hsquare
        obtain ⟨rfl, hsquare⟩ := hsquare
        exact .verifyInv hsquare
  | halt =>
      obtain rfl := Except.ok.inj h
      exact .halt

lemma Types.infer_eq {i : Instruction} {stack stack' : Stack} (h : Types i stack stack') :
    i.infer stack = .ok stack' := by
  cases h with
  | pushScalar hroom => exact push_eq_ok_iff.mpr ⟨hroom, rfl⟩
  | pushVector hroom => exact push_eq_ok_iff.mpr ⟨hroom, rfl⟩
  | pushMatrix hroom => exact push_eq_ok_iff.mpr ⟨hroom, rfl⟩
  | dup hroom => exact push_eq_ok_iff.mpr ⟨hroom, rfl⟩
  | swap => rfl
  | pop => rfl
  | add hcompatible =>
      rw [Instruction.infer]
      exact elementwise_eq_ok_iff.mpr ⟨_, _, _, rfl, rfl, hcompatible⟩
  | sub hcompatible =>
      rw [Instruction.infer]
      exact elementwise_eq_ok_iff.mpr ⟨_, _, _, rfl, rfl, hcompatible⟩
  | matmul hinner => simp [Instruction.infer, hinner]
  | verifyInv hsquare => simp [Instruction.infer, hsquare]
  | halt => rfl

/-- The inference follows the typing rules. -/
theorem infer_eq_ok_iff {i : Instruction} {stack stack' : Stack} :
    i.infer stack = .ok stack' ↔ Types i stack stack' :=
  ⟨types_of_infer, Types.infer_eq⟩

/-! ### The top of a stack -/

/-- The function replaces `taken` on the top of a stack by `given`, whatever the
`rest` is, as long as there is room. -/
def Replaces (f : Stack → Except String Stack) (taken given : Stack) : Prop :=
  ∀ rest : Stack, given.length + rest.length ≤ 256 → f (taken ++ rest) = .ok (given ++ rest)

lemma push_replaces (name : String) (v : StackValue) : Replaces (push name v) [] [v] := by
  intro rest hroom
  rw [List.length_singleton] at hroom
  exact push_eq_ok_iff.mpr ⟨by rw [List.nil_append]; omega, rfl⟩

/-- What an instruction does to a stack: it replaces values on the top, and it
leaves more of them only where there is room. -/
lemma infer_replaces {i : Instruction} {stack stack' : Stack} (h : i.infer stack = .ok stack') :
    ∃ taken given rest, stack = taken ++ rest ∧ stack' = given ++ rest
      ∧ Replaces i.infer taken given ∧ (given.length ≤ taken.length ∨ stack'.length ≤ 256) := by
  cases infer_eq_ok_iff.mp h with
  | pushScalar hroom => exact ⟨[], [_], stack, rfl, rfl, push_replaces _ _, .inr hroom⟩
  | pushVector hroom => exact ⟨[], [_], stack, rfl, rfl, push_replaces _ _, .inr hroom⟩
  | pushMatrix hroom => exact ⟨[], [_], stack, rfl, rfl, push_replaces _ _, .inr hroom⟩
  | @dup v rest hroom =>
      refine ⟨[v], [v, v], rest, rfl, rfl, fun rest' hroom' => ?_, .inr hroom⟩
      simp only [List.length_cons, List.length_nil] at hroom'
      exact (Types.dup (show rest'.length + 1 < 256 by omega)).infer_eq
  | @swap a b rest =>
      exact ⟨[b, a], [a, b], _, rfl, rfl, fun _ _ => Types.swap.infer_eq, .inl le_rfl⟩
  | @pop a rest =>
      exact ⟨[a], [], _, rfl, rfl, fun _ _ => Types.pop.infer_eq, .inl (Nat.zero_le _)⟩
  | @add a b rest hcompatible =>
      exact ⟨[b, a], [a], rest, rfl, rfl, fun _ _ => (Types.add hcompatible).infer_eq,
        .inl (by simp)⟩
  | @sub a b rest hcompatible =>
      exact ⟨[b, a], [a], rest, rfl, rfl, fun _ _ => (Types.sub hcompatible).infer_eq,
        .inl (by simp)⟩
  | @matmul a b rest hinner =>
      exact ⟨[⟨.matrix, b⟩, ⟨.matrix, a⟩], [⟨.matrix, ⟨a.rows, b.cols⟩⟩], rest, rfl, rfl,
        fun _ _ => (Types.matmul hinner).infer_eq, .inl (by simp)⟩
  | @verifyInv a rest hsquare =>
      exact ⟨[⟨.matrix, a⟩], [], _, rfl, rfl, fun _ _ => (Types.verifyInv hsquare).infer_eq,
        .inl (Nat.zero_le _)⟩
  | halt => exact ⟨[], [], stack, rfl, rfl, fun _ _ => rfl, .inl le_rfl⟩

/-- An instruction does to a stack what it does to the top of it. -/
lemma infer_append {i : Instruction} {stack stack' : Stack} (h : i.infer stack = .ok stack')
    {below : Stack} (hdepth : stack'.length + below.length ≤ 256) :
    i.infer (stack ++ below) = .ok (stack' ++ below) := by
  obtain ⟨taken, given, rest, rfl, rfl, hreplaces, -⟩ := infer_replaces h
  rw [List.append_assoc, List.append_assoc]
  refine hreplaces _ ?_
  rw [List.length_append] at hdepth ⊢
  omega

/-- No stack grows beyond 256 values. -/
lemma infer_length {i : Instruction} {stack stack' : Stack} (h : i.infer stack = .ok stack')
    (hlen : stack.length ≤ 256) : stack'.length ≤ 256 := by
  obtain ⟨taken, given, rest, rfl, rfl, -, hless | hroom⟩ := infer_replaces h
  · rw [List.length_append] at hlen ⊢
    omega
  · exact hroom

/-- The state with more values below its stack. -/
def frame (below : Stack) (s : InferState) : InferState := { s with stack := s.stack ++ below }

variable {mem : Memory} {program : List UInt8}

lemma pass_frame {s t : InferState} (h : (inferLoop mem program).Pass s t) {below : Stack}
    (hdepth : t.stack.length + below.length ≤ 256) :
    (inferLoop mem program).Pass (frame below s) (frame below t) := by
  obtain ⟨i, hdec, hstack, hobls, hpc⟩ := inferStep_eq_ok.mp h.2
  exact ⟨h.1, inferStep_eq_ok.mpr ⟨i, hdec, infer_append hstack hdepth, hobls, hpc⟩⟩

/-- A run can be followed above more values as long as they fit. -/
lemma reaches_frame {s t : InferState} (h : (inferLoop mem program).Reaches s t) {below : Stack}
    (hdepth : ∀ u, (inferLoop mem program).Reaches s u → u.stack.length + below.length ≤ 256) :
    (inferLoop mem program).Reaches (frame below s) (frame below t) := by
  obtain ⟨t', hreach, -, rfl⟩ := h.simulation (M := inferLoop mem program)
    (R := fun u u' => (inferLoop mem program).Reaches s u ∧ u' = frame below u)
    (fun u v u' hR hp => by
      obtain ⟨hu, rfl⟩ := hR
      have hv := hu.tail hp
      exact ⟨_, pass_frame hp (hdepth v hv), hv, rfl⟩)
    ⟨Loop.Reaches.refl s, rfl⟩
  exact hreach

/-- The stack frame of type inference: the values `below` the initial stack come
out below the final stack, and nothing else changes, as long as no state of the
run has more than 256 values with them. -/
theorem sov_infer_program_frame {mem : InferMemory} {program : List UInt8}
    {initial final below : Stack} {r : InferResult} (h : Accepts mem program initial r)
    (hfinal : r.finalStack = some final)
    (hdepth : ∀ s, (inferLoop mem.toMemory program).Reaches (start initial) s →
      s.stack.length + below.length ≤ 256) :
    Accepts mem program (initial ++ below) { r with finalStack := some (final ++ below) } := by
  obtain ⟨hstarted, t, hrun, rfl⟩ := accepts_iff.mp h
  obtain ⟨hreach, hcond⟩ := Loop.run_eq_ok_iff.mp hrun
  obtain rfl := Option.some.inj hfinal
  have hlen : (initial ++ below).length ≤ 256 := by
    rw [List.length_append]
    exact hdepth _ (Loop.Reaches.refl _)
  exact accepts_of_reaches ⟨hstarted.result, hstarted.program, hstarted.stack, hlen,
    hstarted.obligationSet⟩ (reaches_frame hreach hdepth) hcond

/-- Two scalars are added above a vector. -/
theorem sov_infer_program_frame_add :
    Accepts .unlimited [0x07] [⟨.scalar, ⟨1, 1⟩⟩, ⟨.scalar, ⟨1, 1⟩⟩, ⟨.vector, ⟨1, 3⟩⟩]
      ⟨some [⟨.scalar, ⟨1, 1⟩⟩, ⟨.vector, ⟨1, 3⟩⟩], 0, none, none⟩ := by
  have hpass : (inferLoop InferMemory.unlimited.toMemory [0x07]).Pass
      (start [⟨.scalar, ⟨1, 1⟩⟩, ⟨.scalar, ⟨1, 1⟩⟩])
      ⟨[⟨.scalar, ⟨1, 1⟩⟩], 1, ⟨[], 10, 0⟩⟩ := ⟨by decide, by rfl⟩
  have hreach := Loop.Reaches.head hpass (Loop.Reaches.refl _)
  refine sov_infer_program_frame
    (accepts_of_reaches (started_unlimited (by simp) (by simp)) hreach (by decide)) rfl
    fun s hs => ?_
  have htrace := hs.mem_trace_or_eq (Loop.run_eq_ok_iff.mpr ⟨hreach, by decide⟩)
  rw [hpass.trace_eq, Loop.trace_of_not_cond (by decide), List.mem_singleton] at htrace
  rcases htrace with rfl | rfl
  · decide
  · decide

end Typecheck

end SovereignBus
