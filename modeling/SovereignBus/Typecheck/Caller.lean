import SovereignBus.Typecheck.Invariant

/-!
Type inference in the memory of its caller.

* `Storage`: the stacks and the data of their values, by address. `edit` is what an
  instruction writes into the cells of a stack.
* `sovInferProgramAt`: `sov_infer_program` on a pointer to the initial stack, with the
  working stack at an address `malloc` returns. `sovInferProgramAt_eq` connects it with
  `sovInferProgram`.
* `sov_infer_program_wellFormed`: what the result is, and that the stack of the caller
  stays as it was.
-/

namespace SovereignBus

namespace Typecheck

open Obligations

/-! ### Stacks in memory -/

/-- `StackValue` with its data. -/
structure Cell where
  value : StackValue
  data : Option ℕ
  isOwned : Bool
  deriving DecidableEq

/-- The cell of `sov_stack_push(stack, type, rows, cols, NULL, false)`. -/
def Cell.bare (v : StackValue) : Cell := ⟨v, none, false⟩

/-- The cells of a stack, the top first, and the data that are allocated. -/
structure Storage where
  stackAt : ℕ → Option (List Cell)
  allocated : ℕ → Bool

namespace Storage

def cells (storage : Storage) (stack : ℕ) : List Cell := (storage.stackAt stack).getD []

def write (storage : Storage) (stack : ℕ) (cells : List Cell) : Storage :=
  { storage with stackAt := Function.update storage.stackAt stack (some cells) }

/-- `sov_stack_push` without data; on an overflow nothing is written. -/
def push (storage : Storage) (stack : ℕ) (v : StackValue) : Except Storage Storage :=
  if (storage.cells stack).length ≥ 256 then .error storage
  else .ok (storage.write stack (.bare v :: storage.cells stack))

/-- `sov_stack_free`: the data that the values own are freed with the stack. -/
def free (storage : Storage) (stack : ℕ) : Storage where
  stackAt := Function.update storage.stackAt stack none
  allocated a :=
    storage.allocated a && !(storage.cells stack).any fun c => c.isOwned && c.data == some a

end Storage

/-- What an instruction that is not refused writes into a stack. -/
def Instruction.edit : Instruction → List Cell → List Cell
  | .pushScalar, cells => .bare ⟨.scalar, ⟨1, 1⟩⟩ :: cells
  | .pushVector n, cells => .bare ⟨.vector, ⟨1, n.toNat⟩⟩ :: cells
  | .pushMatrix m n, cells => .bare ⟨.matrix, ⟨m.toNat, n.toNat⟩⟩ :: cells
  | .dup, top :: cells => .bare top.value :: top :: cells
  | .swap, b :: a :: cells => a :: b :: cells
  | .pop, _ :: cells => cells
  | .add, _ :: cells => cells
  | .sub, _ :: cells => cells
  | .matmul, b :: a :: cells =>
      -- only `shape.cols` of the second value is written
      { a with value.shape.cols := b.value.shape.cols } :: cells
  | .verifyInv, _ :: cells => cells
  | _, cells => cells

structure StorageState where
  storage : Storage
  pc : ℕ
  obls : ObligationSet

/-- The body of the loop on the stack at `work`. It is refused, and leads on, as on the
values of the stack; an error comes with the memory it is met in. -/
def inferStepAt (mem : Memory) (program : List UInt8) (work : ℕ) (s : StorageState) :
    Except (Stop × Storage) StorageState :=
  let cells := s.storage.cells work
  match inferStep mem program ⟨cells.map Cell.value, s.pc, s.obls⟩, decode program s.pc with
  | .ok t, .ok (i, _) => .ok ⟨s.storage.write work (i.edit cells), t.pc, t.obls⟩
  | .error e, _ => .error (e, s.storage)
  | _, .error e => .error (e, s.storage)

lemma inferStepAt_pc {mem : Memory} {program : List UInt8} {work : ℕ} {s t : StorageState}
    (h : inferStepAt mem program work s = .ok t) :
    s.pc < t.pc ∧ t.pc ≤ program.length := by
  rw [inferStepAt] at h
  split at h
  · next u i out hstep hdec =>
      obtain rfl := Except.ok.inj h
      obtain ⟨j, hdec', -, -, hpc⟩ := inferStep_eq_ok.mp hstep
      exact ⟨decode_lt hdec', hpc⟩
  · simp at h
  · simp at h

/-- The loop of `sov_infer_program` on the stack at `work`. -/
def inferLoopAt (mem : Memory) (program : List UInt8) (work : ℕ) :
    Loop StorageState (Stop × Storage) where
  cond s := decide (s.pc < program.length ∧ program[s.pc]? ≠ some opHalt)
  body := inferStepAt mem program work
  measure s := program.length - s.pc
  decreases := by
    intro s t _ h
    obtain ⟨hlt, hle⟩ := inferStepAt_pc h
    omega

/-- The copy of the initial stack, made from its bottom. -/
def copyStackAt (initial work : ℕ) (storage : Storage) : Except Storage Storage :=
  (storage.cells initial).foldrM (fun c storage => storage.push work c.value) storage

/-- What `sov_infer_program` does before its loop, with the memory an error leaves. -/
def setupAt (mem : InferMemory) (work : ℕ) (storage : Storage) :
    Option (List UInt8) → Option ℕ → Except (String × Storage) (List UInt8 × StorageState)
  | some program, some initial =>
      if program.length = 0 then .error ("Invalid program or stack", storage)
      else if mem.stack = false then .error ("Stack allocation failed", storage)
      else
        match copyStackAt initial work (storage.write work []) with
        | .error storage => .error ("Stack copy failed", storage.free work)
        | .ok storage =>
            match sovObsetNew mem.toMemory with
            | none => .error ("Obligation set allocation failed", storage.free work)
            | some obls => .ok (program, ⟨storage, 0, obls⟩)
  | _, _ => .error ("Invalid program or stack", storage)

/-- `InferResult` with its pointer to the final stack. -/
structure ResultAt where
  finalStack : Option ℕ
  numObligations : ℕ
  obligationIds : Option (List UInt32)
  errorMsg : Option String

def ResultAt.failed (msg : String) : ResultAt := ⟨none, 0, none, some msg⟩

def captureAt (mem : InferMemory) (work : ℕ) (s : StorageState) : ResultAt :=
  let ids := if s.obls.count > 0 ∧ mem.ids s.obls.count then some s.obls.ids else none
  ⟨some work, s.obls.count, ids, none⟩

/-- `sov_infer_program`, where `work` is the address of a new stack: what it returns, and
the memory it leaves. -/
def sovInferProgramAt (mem : InferMemory) (work : ℕ) (programBytes : Option (List UInt8))
    (initialStack : Option ℕ) (storage : Storage) : Except ℕ (Option ResultAt) × Storage :=
  if mem.result = false then (.ok none, storage)
  else
    match setupAt mem work storage programBytes initialStack with
    | .error (msg, storage) => (.ok (some (.failed msg)), storage)
    | .ok (program, s) =>
        match (inferLoopAt mem.toMemory program work).run s with
        | .error (.error msg, storage) => (.ok (some (.failed msg)), storage.free work)
        | .error (.fault i, storage) => (.error i, storage)
        | .ok t => (.ok (some (captureAt mem work t)), t.storage)

/-- The states in which an instruction is inferred. -/
def executedAt (mem : InferMemory) (work : ℕ) (programBytes : Option (List UInt8))
    (initialStack : Option ℕ) (storage : Storage) : List StorageState :=
  if mem.result = false then []
  else
    match setupAt mem work storage programBytes initialStack with
    | .error _ => []
    | .ok (program, s) => (inferLoopAt mem.toMemory program work).trace s

/-! ### The working stack -/

lemma cells_write (storage : Storage) (stack : ℕ) (cells : List Cell) :
    (storage.write stack cells).cells stack = cells := by
  simp [Storage.cells, Storage.write]

@[simp] lemma write_write (storage : Storage) (stack : ℕ) (cells cells' : List Cell) :
    (storage.write stack cells).write stack cells' = storage.write stack cells' := by
  simp [Storage.write]

lemma write_of_ne {storage : Storage} {stack other : ℕ} (h : other ≠ stack) (cells : List Cell) :
    (storage.write stack cells).stackAt other = storage.stackAt other :=
  Function.update_of_ne h _ _

lemma value_bare (stack : Stack) : (stack.map Cell.bare).map Cell.value = stack := by
  rw [List.map_map]
  exact List.map_id stack

/-- Freeing a new stack without data leaves the memory as it was before. -/
lemma free_write {storage : Storage} {work : ℕ} (hwork : storage.stackAt work = none)
    (stack : Stack) : (storage.write work (stack.map Cell.bare)).free work = storage := by
  have hbare : ∀ a, (stack.map Cell.bare).any (fun c => c.isOwned && c.data == some a) = false :=
    fun a => List.any_eq_false.mpr fun c hc => by
      obtain ⟨v, -, rfl⟩ := List.mem_map.mp hc
      simp [Cell.bare]
  rw [Storage.free, cells_write]
  simp only [hbare, Bool.not_false, Bool.and_true, Storage.write, Function.update_idem]
  rw [← hwork, Function.update_eq_self]

/-- What is written into cells without data is what is inferred from their values. -/
lemma edit_bare {i : Instruction} {stack stack' : Stack} (h : i.infer stack = .ok stack') :
    i.edit (stack.map Cell.bare) = stack'.map Cell.bare := by
  cases infer_eq_ok_iff.mp h <;> rfl

/-! ### The inference of the values -/

/-- The state of the memory, with the stack of `s` at `work`. -/
def InferState.place (storage : Storage) (work : ℕ) (s : InferState) : StorageState :=
  ⟨storage.write work (s.stack.map Cell.bare), s.pc, s.obls⟩

/-- In memory the loop does what it does to the values. -/
lemma inferLoopAt_follows (mem : Memory) (program : List UInt8) (storage : Storage) (work : ℕ) :
    Loop.Follows (inferLoop mem program) (inferLoopAt mem program work)
      (InferState.place storage work)
      fun s e => (e, storage.write work (s.stack.map Cell.bare)) where
  cond _ := rfl
  pass s t h := by
    obtain ⟨i, hdec, hstack, -⟩ := inferStep_eq_ok.mp h.2
    have hbody : inferStep mem program s = .ok t := h.2
    simp only [inferLoopAt, inferStepAt, InferState.place, cells_write, value_bare, hbody, hdec,
      edit_bare hstack, write_write]
  error s e _ h := by
    have hbody : inferStep mem program s = .error e := h
    simp only [inferLoopAt, inferStepAt, InferState.place, cells_write, value_bare, hbody]

/-- The copy stands at `work`, or leaves what it had written there. -/
lemma copyStackAt_eq {storage : Storage} {initial work : ℕ} (hne : initial ≠ work) :
    (∀ stack, copyStack ((storage.cells initial).map Cell.value) = some stack →
        copyStackAt initial work (storage.write work [])
          = .ok (storage.write work (stack.map Cell.bare)))
      ∧ (copyStack ((storage.cells initial).map Cell.value) = none →
        ∃ stack : Stack, copyStackAt initial work (storage.write work [])
          = .error (storage.write work (stack.map Cell.bare))) := by
  have hcells : (storage.write work []).cells initial = storage.cells initial := by
    rw [Storage.cells, write_of_ne hne, Storage.cells]
  rw [copyStackAt, hcells]
  generalize storage.cells initial = cells
  induction cells with
  | nil =>
      refine ⟨fun stack h => ?_, by simp [copyStack]⟩
      obtain rfl := Option.some.inj h
      rfl
  | cons c cells ih =>
      rw [List.map_cons, copyStack, List.foldrM_cons, ← copyStack, List.foldrM_cons]
      cases hcopy : copyStack (cells.map Cell.value) with
      | none =>
          obtain ⟨stack, hstack⟩ := ih.2 hcopy
          exact ⟨by simp, fun _ => ⟨stack, by rw [hstack]; rfl⟩⟩
      | some stack =>
          rw [ih.1 stack hcopy]
          simp only [Option.bind_some, sovStackPush, bind, Except.bind, Storage.push, cells_write,
            List.length_map]
          split_ifs with hfull
          · exact ⟨by simp, fun _ => ⟨stack, rfl⟩⟩
          · refine ⟨fun stack' h => ?_, by simp⟩
            obtain rfl := Option.some.inj h
            rw [write_write]
            rfl

/-- What the memory is like that an error leaves. -/
lemma setupAt_eq {mem : InferMemory} {program : List UInt8} {storage : Storage}
    {work initial : ℕ} (hwork : storage.stackAt work = none) (hne : initial ≠ work) :
    (∀ msg, setup mem (some program) (some ((storage.cells initial).map Cell.value)) = .error msg →
        setupAt mem work storage (some program) (some initial) = .error (msg, storage))
      ∧ ∀ s, setup mem (some program) (some ((storage.cells initial).map Cell.value))
          = .ok (program, s) →
        setupAt mem work storage (some program) (some initial)
          = .ok (program, s.place storage work) := by
  obtain ⟨hcopied, hfailed⟩ := @copyStackAt_eq storage _ _ hne
  simp only [setup, setupAt]
  split_ifs with hprogram hstack
  · simp
  · simp
  · cases hcopy : copyStack ((storage.cells initial).map Cell.value) with
    | none =>
        obtain ⟨stack, hstack⟩ := hfailed hcopy
        simp [hstack, free_write hwork]
    | some stack =>
        rw [hcopied stack hcopy]
        cases sovObsetNew mem.toMemory with
        | none => simp [free_write hwork]
        | some obls => simp +contextual [InferState.place]

/-- The result with a pointer to its final stack. -/
def InferResult.pointing (work : ℕ) (r : InferResult) : ResultAt :=
  ⟨r.finalStack.map fun _ => work, r.numObligations, r.obligationIds, r.errorMsg⟩

/-- The memory with the final stack of a result at `work`. -/
def InferResult.leave (work : ℕ) (storage : Storage) (r : InferResult) : Storage :=
  match r.finalStack with
  | some final => storage.write work (final.map Cell.bare)
  | none => storage

/-- In memory the inference returns what it returns for the values of the initial stack, and
leaves its final stack at `work`, and nothing on an error. -/
theorem sovInferProgramAt_eq {mem : InferMemory} {program : List UInt8} {storage : Storage}
    {work initial : ℕ} (hwork : storage.stackAt work = none) (hne : initial ≠ work) :
    match sovInferProgram mem (some program) (some ((storage.cells initial).map Cell.value)) with
    | .ok none =>
        sovInferProgramAt mem work (some program) (some initial) storage = (.ok none, storage)
    | .ok (some r) =>
        sovInferProgramAt mem work (some program) (some initial) storage
          = (.ok (some (r.pointing work)), r.leave work storage)
    | .error i =>
        ∃ stack : Stack, sovInferProgramAt mem work (some program) (some initial) storage
          = (.error i, storage.write work (stack.map Cell.bare)) := by
  obtain ⟨hfailed, hstarts⟩ := @setupAt_eq mem program storage work initial hwork hne
  rw [sovInferProgramAt]
  by_cases hresult : mem.result = false
  · simp [sovInferProgram, hresult]
  rw [if_neg hresult]
  rcases setup_cases mem program ((storage.cells initial).map Cell.value) (by simpa using hresult)
    with hstarted | ⟨msg, hmsg⟩
  · rw [hstarts _ (setup_eq_ok hstarted), sovInferProgram_of_started hstarted]
    have hfollows := inferLoopAt_follows mem.toMemory program storage work
    cases hrun : (inferLoop mem.toMemory program).run _ with
    | ok t =>
        simp only [hfollows.run_ok hrun]
        rfl
    | error e =>
        obtain ⟨t, ht⟩ := hfollows.run_error hrun
        cases e with
        | error msg =>
            simp only [ht, free_write hwork]
            rfl
        | fault i =>
            simp only [ht]
            exact ⟨t.stack, rfl⟩
  · rw [hfailed msg hmsg, sovInferProgram, if_neg hresult, hmsg]
    rfl

/-- An instruction is inferred in memory where it is inferred on the values. -/
lemma executedAt_eq {mem : InferMemory} {program : List UInt8} {storage : Storage}
    {work initial : ℕ} (hwork : storage.stackAt work = none) (hne : initial ≠ work) :
    executedAt mem work (some program) (some initial) storage
      = (executed mem (some program) (some ((storage.cells initial).map Cell.value))).map
          (InferState.place storage work) := by
  obtain ⟨hfailed, hstarts⟩ := @setupAt_eq mem program storage work initial hwork hne
  rw [executedAt]
  by_cases hresult : mem.result = false
  · simp [executed, hresult]
  rw [if_neg hresult]
  rcases setup_cases mem program ((storage.cells initial).map Cell.value) (by simpa using hresult)
    with hstarted | ⟨msg, hmsg⟩
  · rw [hstarts _ (setup_eq_ok hstarted), executed_of_started hstarted]
    exact (inferLoopAt_follows mem.toMemory program storage work).trace_map _
  · rw [hfailed msg hmsg, executed, if_neg hresult, hmsg]
    rfl

/-! ### What is kept -/

/-- The states in which a `VERIFY_INV` is executed. -/
def verifiedAt (program : List UInt8) (states : List StorageState) : List StorageState :=
  states.filter fun s => AtVerify program s.pc

lemma verifiedAt_map (program : List UInt8) (storage : Storage) (work : ℕ)
    (states : List InferState) :
    verifiedAt program (states.map (InferState.place storage work))
      = (verified program states).map (InferState.place storage work) := by
  rw [verifiedAt, verified, List.filter_map]
  rfl

/-- The result of an inference that succeeds: a well-formed stack at `work`, and one
obligation, numbered from 0, for each `VERIFY_INV` of the run, which saw a square matrix. -/
structure Sound (work : ℕ) (program : List UInt8) (states : List StorageState)
    (storage : Storage) (r : ResultAt) : Prop where
  error : r.errorMsg = none
  stack : r.finalStack = some work
  wellFormed : ∃ cells, storage.stackAt work = some cells ∧ WellFormed (cells.map Cell.value)
  count : r.numObligations = (verifiedAt program states).length
  square : ∀ s ∈ verifiedAt program states, ∃ a rest, s.storage.cells work = a :: rest
    ∧ a.value.type = .matrix ∧ a.value.shape.rows = a.value.shape.cols
  ids : (r.obligationIds.getD []).map UInt32.toNat = List.range r.numObligations

/-- The result of an inference that reports an error. -/
structure Refused (r : ResultAt) : Prop where
  error : r.errorMsg ≠ none
  stack : r.finalStack = none
  count : r.numObligations = 0
  ids : r.obligationIds = none

/-- Inference keeps stacks well formed. With a well-formed initial stack, and as long as no
allocation fails, what `sov_infer_program` returns is a well-formed stack with the numbered
obligations of the run or an error with neither, and it leaves every other stack of the
memory, the initial one among them, and all data as they were. -/
theorem sov_infer_program_wellFormed {storage : Storage} {work initial : ℕ} {cells : List Cell}
    (hwork : storage.stackAt work = none) (hinitial : storage.stackAt initial = some cells)
    (hwellFormed : WellFormed (cells.map Cell.value)) (program : List UInt8) :
    let out := sovInferProgramAt .unlimited work (some program) (some initial) storage
    let states := executedAt .unlimited work (some program) (some initial) storage
    (∀ other, other ≠ work → out.2.stackAt other = storage.stackAt other)
      ∧ out.2.stackAt initial = some cells ∧ out.2.allocated = storage.allocated
      ∧ ∀ r, out.1 = .ok r →
        ∃ r', r = some r' ∧ (Sound work program states out.2 r' ∨ Refused r') := by
  have hne : initial ≠ work := by
    rintro rfl
    simp [hwork] at hinitial
  have hcells : storage.cells initial = cells := by rw [Storage.cells, hinitial, Option.getD_some]
  have heq := @sovInferProgramAt_eq .unlimited program storage work initial hwork hne
  have hexecuted := @executedAt_eq .unlimited program storage work initial hwork hne
  have hother : ∀ cells' other, other ≠ work →
      (storage.write work cells').stackAt other = storage.stackAt other :=
    fun cells' other h => write_of_ne h cells'
  rw [hcells] at heq hexecuted
  dsimp only
  cases hout : sovInferProgram .unlimited (some program) (some (cells.map Cell.value)) with
  | error i =>
      obtain ⟨stack, hstack⟩ := by simpa only [hout] using heq
      rw [hstack]
      exact ⟨hother _, (hother _ _ hne).trans hinitial, rfl, fun r hr => by simp at hr⟩
  | ok out =>
      rcases sovInferProgram_unlimited hout with ⟨msg, rfl⟩ | ⟨hstarted, t, hrun, rfl⟩
      · simp only [hout] at heq
        rw [heq]
        refine ⟨fun _ _ => rfl, hinitial, rfl, fun r hr => ⟨_, (Except.ok.inj hr).symm, .inr ?_⟩⟩
        exact ⟨by simp [InferResult.pointing, InferResult.failed], rfl, rfl, rfl⟩
      · simp only [hout] at heq
        rw [heq, hexecuted, executed_of_started hstarted]
        obtain ⟨hcount, hids, hsquare⟩ := run_obligations hrun
        refine ⟨hother _, (hother _ _ hne).trans hinitial, rfl,
          fun r hr => ⟨_, (Except.ok.inj hr).symm, .inl ⟨rfl, rfl, ?_, ?_, ?_, ?_⟩⟩⟩
        · refine ⟨t.stack.map Cell.bare, Function.update_self _ _ _, ?_⟩
          rw [value_bare]
          exact reaches_wellFormed hwellFormed (Loop.run_eq_ok_iff.mp hrun).1
        · rw [verifiedAt_map, List.length_map, ← hcount]
          rfl
        · rw [verifiedAt_map, List.forall_mem_map]
          intro s hs
          obtain ⟨a, rest, hstack, htype, hshape⟩ := hsquare s hs
          refine ⟨.bare a, rest.map .bare, ?_, htype, hshape⟩
          rw [InferState.place, cells_write, hstack, List.map_cons]
        · show ((capture .unlimited t).ids).map UInt32.toNat = List.range t.obls.count
          rw [capture_ids ample_unlimited, hids]

/-- A matrix is pushed above a scalar and verified. -/
theorem sov_infer_program_wellFormed_push :
    let storage : Storage :=
      ⟨fun a => if a = 0 then some [.bare ⟨.scalar, ⟨1, 1⟩⟩] else none, fun _ => false⟩
    let program := [0x03, 0, 0, 0, 0, 0, 0, 0, 0, 0x0A]
    let out := sovInferProgramAt .unlimited 1 (some program) (some 0) storage
    let states := executedAt .unlimited 1 (some program) (some 0) storage
    out.2.stackAt 0 = some [.bare ⟨.scalar, ⟨1, 1⟩⟩] ∧ out.2.stackAt 2 = none
      ∧ ∀ r, out.1 = .ok (some r) → Sound 1 program states out.2 r ∨ Refused r := by
  intro storage program out states
  have hvalues : WellFormed [⟨.scalar, ⟨1, 1⟩⟩] :=
    ⟨by decide, List.forall_mem_singleton.mpr wellShaped_scalar⟩
  obtain ⟨hother, hinitial, -, hresult⟩ := @sov_infer_program_wellFormed storage 1 0
    [.bare ⟨.scalar, ⟨1, 1⟩⟩] rfl rfl hvalues program
  refine ⟨hinitial, hother 2 (by decide), fun r hr => ?_⟩
  obtain ⟨r', heq, hr'⟩ := hresult (some r) hr
  obtain rfl := Option.some.inj heq
  exact hr'

end Typecheck

end SovereignBus
