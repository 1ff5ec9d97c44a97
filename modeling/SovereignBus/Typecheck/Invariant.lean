import SovereignBus.Typecheck.Compose

/-!
What the type inference of `src/typecheck/sov_types.c` keeps.

* `WellFormed`: a stack whose scalars are `1 × 1` and whose vectors have one row.
  `infer_wellFormed` says that every instruction keeps it.
* `verified`: the `VERIFY_INV` instructions a run executes. `run_obligations` counts
  the obligations by them and numbers them from 0.
-/

namespace SovereignBus

namespace Typecheck

open Obligations

/-! ### Well-formed stacks -/

/-- The shape fits the type. -/
structure StackValue.WellShaped (v : StackValue) : Prop where
  scalar : v.type = .scalar → v.shape = ⟨1, 1⟩
  vector : v.type = .vector → v.shape.rows = 1

structure WellFormed (stack : Stack) : Prop where
  depth : stack.length ≤ 256
  values : ∀ v ∈ stack, v.WellShaped

lemma wellShaped_scalar : StackValue.WellShaped ⟨.scalar, ⟨1, 1⟩⟩ := ⟨fun _ => rfl, fun _ => rfl⟩

lemma wellShaped_matrix (shape : Shape) : StackValue.WellShaped ⟨.matrix, shape⟩ :=
  ⟨fun h => absurd h (by simp), fun h => absurd h (by simp)⟩

/-- The values an instruction leaves stood on the stack or are new and well shaped. -/
lemma infer_values {i : Instruction} {stack stack' : Stack} (h : i.infer stack = .ok stack') :
    ∀ v ∈ stack', v ∈ stack ∨ v.WellShaped := by
  have hsub : stack' ⊆ stack → ∀ v ∈ stack', v ∈ stack ∨ v.WellShaped :=
    fun hsub v hv => .inl (hsub hv)
  have hnew : ∀ {v}, v.WellShaped → ∀ w ∈ v :: stack, w ∈ stack ∨ w.WellShaped :=
    fun hv => List.forall_mem_cons.mpr ⟨.inr hv, fun _ => .inl⟩
  cases infer_eq_ok_iff.mp h with
  | pushScalar => exact hnew wellShaped_scalar
  | pushVector => exact hnew ⟨fun h => absurd h (by simp), fun _ => rfl⟩
  | pushMatrix => exact hnew (wellShaped_matrix _)
  | @dup v rest => exact hsub (List.cons_subset.mpr ⟨List.mem_cons_self, List.Subset.refl _⟩)
  | @swap a b rest => exact hsub (List.Perm.swap b a rest).subset
  | @pop a => exact hsub (List.subset_cons_self a stack')
  | @add a b rest => exact hsub (List.subset_cons_self b (a :: rest))
  | @sub a b rest => exact hsub (List.subset_cons_self b (a :: rest))
  | matmul =>
      refine List.forall_mem_cons.mpr ⟨.inr (wellShaped_matrix _), fun v hv => .inl ?_⟩
      exact List.mem_cons_of_mem _ (List.mem_cons_of_mem _ hv)
  | @verifyInv a => exact hsub (List.subset_cons_self _ stack')
  | halt => exact hsub (List.Subset.refl stack)

/-- Every instruction keeps a stack well formed. -/
lemma infer_wellFormed {i : Instruction} {stack stack' : Stack} (h : i.infer stack = .ok stack')
    (hstack : WellFormed stack) : WellFormed stack' :=
  ⟨infer_length h hstack.depth, fun v hv => (infer_values h v hv).elim (hstack.values v) id⟩

variable {mem : Memory} {program : List UInt8}

lemma reaches_wellFormed {initial : Stack} (hinitial : WellFormed initial) {t : InferState}
    (h : (inferLoop mem program).Reaches (start initial) t) : WellFormed t.stack := by
  refine h.invariant (P := fun s => WellFormed s.stack) (fun u v hu hp => ?_) hinitial
  obtain ⟨i, -, hstack, -⟩ := inferStep_eq_ok.mp hp.2
  exact infer_wellFormed hstack hu

/-! ### Obligations of a run -/

/-- A `VERIFY_INV` stands at the program counter. -/
def AtVerify (program : List UInt8) (pc : ℕ) : Prop := program[pc]? = some OpCode.verifyInv.byte

instance (program : List UInt8) : DecidablePred (AtVerify program) :=
  fun pc => inferInstanceAs (Decidable (program[pc]? = some OpCode.verifyInv.byte))

/-- The states in which a `VERIFY_INV` is executed. -/
def verified (program : List UInt8) (states : List InferState) : List InferState :=
  states.filter fun s => AtVerify program s.pc

/-- An instruction is read as `VERIFY_INV` where its byte stands. -/
lemma atVerify_iff {pc out : ℕ} {i : Instruction} (h : decode program pc = .ok (i, out)) :
    AtVerify program pc ↔ i = .verifyInv := by
  obtain ⟨-, hpre, -⟩ := decode_sound h
  have hop := (header_prefix_iff.mp hpre).1
  rw [AtVerify, hop, Option.some.injEq]
  constructor
  · intro hbyte
    have hverify : OpCode.ofByte i.op.byte = some .verifyInv := ofByte_eq_some_iff.mpr hbyte
    have hop' : OpCode.ofByte i.op.byte = some i.op := ofByte_eq_some_iff.mpr rfl
    have hiop := hverify.symm.trans hop'
    cases i <;> simp_all [Instruction.op]
  · rintro rfl
    rfl

/-- A `VERIFY_INV` that is executed sees a square matrix. -/
lemma square_of_pass {s t : InferState} (h : (inferLoop mem program).Pass s t)
    (hverify : AtVerify program s.pc) :
    ∃ a rest, s.stack = a :: rest ∧ a.type = .matrix ∧ a.shape.rows = a.shape.cols := by
  obtain ⟨i, hdec, hstack, -⟩ := inferStep_eq_ok.mp h.2
  obtain rfl := (atVerify_iff hdec).mp hverify
  rw [infer_eq_ok_iff] at hstack
  generalize s.stack = stack at hstack ⊢
  cases hstack with
  | verifyInv hsquare => exact ⟨_, _, rfl, rfl, hsquare⟩

/-- What a pass adds to the identifiers. -/
lemma pass_ids {s t : InferState} (h : (inferLoop mem program).Pass s t) :
    t.obls.ids = s.obls.ids ++ (if AtVerify program s.pc then [s.obls.nextId] else []) := by
  obtain ⟨i, hdec, -, hobls, -⟩ := inferStep_eq_ok.mp h.2
  simp only [(oblige_ids hobls).1, atVerify_iff hdec]

/-- There is one obligation for each `VERIFY_INV` executed. -/
lemma count_eq_of_run {s t : InferState} (h : (inferLoop mem program).run s = .ok t) :
    t.obls.count = s.obls.count + (verified program ((inferLoop mem program).trace s)).length := by
  induction s using Loop.induction (L := inferLoop mem program) with
  | hend s hc =>
      rw [Loop.run_of_not_cond hc] at h
      obtain rfl := Except.ok.inj h
      rw [Loop.trace_of_not_cond hc]
      rfl
  | herror s e hc hb =>
      rw [Loop.run_of_error hc hb] at h
      exact absurd h (by simp)
  | hpass s u hp ih =>
      rw [hp.run_eq] at h
      have hcount := congrArg List.length (pass_ids hp)
      rw [List.length_append, length_ids, length_ids] at hcount
      rw [ih h, hcount, hp.trace_eq, verified, verified, List.filter_cons]
      by_cases hverify : AtVerify program s.pc
      · simp [hverify]
        omega
      · simp [hverify]

/-- The obligations are numbered from 0, below the limit of the program counter. -/
structure Sequential (s : InferState) : Prop where
  numbered : Numbered s
  ids : s.obls.ids.map UInt32.toNat = List.range s.obls.count
  limit : s.obls.count ≤ 1000000

lemma reaches_sequential {initial : Stack} {t : InferState}
    (h : (inferLoop mem program).Reaches (start initial) t) : Sequential t := by
  refine h.invariant (fun u v hu hp => ?_) ⟨⟨rfl, le_rfl⟩, rfl, Nat.zero_le _⟩
  obtain ⟨i, hdec, -, hobls, -⟩ := inferStep_eq_ok.mp hp.2
  have hnumbered := numbered_of_oblige hu.numbered hobls (decode_lt hdec)
  have hids := pass_ids hp
  have hcount := congrArg List.length hids
  rw [List.length_append, length_ids, length_ids] at hcount
  split_ifs at hids hcount with hverify
  · rw [List.length_singleton] at hcount
    have hpc := (decode_sound hdec).1
    have hheader := length_header i
    have hle := hu.numbered.count_le
    have hlt : u.obls.count < 1000000 := by omega
    refine ⟨hnumbered, ?_, by omega⟩
    have hnext : u.obls.nextId.toNat = u.obls.count := by
      rw [hu.numbered.nextId, UInt32.toNat_ofNat_of_lt' (by rw [UInt32.size]; omega)]
    rw [hids, List.map_append, hu.ids, hcount, List.range_succ, List.map_singleton, hnext]
  · rw [List.length_nil, Nat.add_zero] at hcount
    rw [List.append_nil] at hids
    exact ⟨hnumbered, by rw [hids, hu.ids, hcount], by rw [hcount]; exact hu.limit⟩

/-- What a run that ends has added: one obligation for each `VERIFY_INV` it executed,
each on a square matrix, numbered from 0. -/
theorem run_obligations {initial : Stack} {t : InferState}
    (h : (inferLoop mem program).run (start initial) = .ok t) :
    t.obls.count = (verified program ((inferLoop mem program).trace (start initial))).length
      ∧ t.obls.ids.map UInt32.toNat = List.range t.obls.count
      ∧ ∀ s ∈ verified program ((inferLoop mem program).trace (start initial)),
        ∃ a rest, s.stack = a :: rest ∧ a.type = .matrix ∧ a.shape.rows = a.shape.cols := by
  refine ⟨?_, (reaches_sequential (Loop.run_eq_ok_iff.mp h).1).ids, fun s hs => ?_⟩
  · rw [count_eq_of_run h]
    exact Nat.zero_add _
  · rw [verified, List.mem_filter, decide_eq_true_iff] at hs
    obtain ⟨v, hp⟩ := Loop.exists_pass_of_mem_trace h hs.1
    exact square_of_pass hp hs.2

lemma ample_unlimited : InferMemory.unlimited.Ample := ⟨fun _ => rfl, fun _ => rfl⟩

/-- While no allocation fails, there is always a result: that of a run that ends, or an error. -/
lemma sovInferProgram_unlimited {initial : Stack} {out : Option InferResult}
    (h : sovInferProgram .unlimited (some program) (some initial) = .ok out) :
    (∃ msg, out = some (.failed msg))
      ∨ Started .unlimited program initial
        ∧ ∃ t, (inferLoop InferMemory.unlimited.toMemory program).run (start initial) = .ok t
          ∧ out = some (capture .unlimited t) := by
  rcases setup_cases .unlimited program initial rfl with hstarted | ⟨msg, hmsg⟩
  · rw [sovInferProgram_of_started hstarted] at h
    cases hrun : (inferLoop InferMemory.unlimited.toMemory program).run (start initial) with
    | error e =>
        cases e with
        | error msg =>
            rw [hrun] at h
            exact .inl ⟨msg, (Except.ok.inj h).symm⟩
        | fault i => simp [hrun] at h
    | ok t =>
        rw [hrun] at h
        exact .inr ⟨hstarted, t, rfl, (Except.ok.inj h).symm⟩
  · rw [sovInferProgram, if_neg (by simp [InferMemory.unlimited]), hmsg] at h
    exact .inl ⟨msg, (Except.ok.inj h).symm⟩

end Typecheck

end SovereignBus
