import SovereignBus.Library.Machine
import Mathlib.Data.List.AList

/-!
The partition manager, `seb/runtime/src/seb_partition_mgr.erl`, with loads in
hundredths.

* `assignPartition`, `rebalancePartitions`: the calls that change the state.
* `Accounted`: the load of a partition is the number of keys assigned to it.
* `loads_accounted_iff`: the runs in which it is.
-/

namespace SovereignBus

namespace Partitions

open Machine

variable {A C : Type*} [DecidableEq A] [DecidableEq C]

/-- `#state{}`. `start_link/1` asks for a positive count. -/
structure State (A C : Type*) where
  partitionCount : ℕ+
  partitionAssignments : AList fun _ : A × C => ℕ
  partitionLoads : AList fun _ : ℕ => ℕ

/-- The calls of the API, on an agent and a competency, a partition, or nothing. -/
inductive Call (A C : Type*) where
  | assignPartition (agentId : A) (competency : C)
  | getPartitionLoad (partition : ℕ)
  | rebalancePartitions

inductive Reply where
  | partition (p : ℕ)
  | load (hundredths : ℕ)
  | notFound
  | ok

/-- `PARTITION_LOAD_THRESHOLD`, 0.8. -/
def partitionLoadThreshold : ℕ := 80

/-- `init_loads/1`. -/
def initLoads (partitionCount : ℕ+) : AList fun _ : ℕ => ℕ :=
  ((List.range partitionCount).map fun p => (⟨p, 0⟩ : Sigma fun _ : ℕ => ℕ)).toAList

/-- `init/1`. -/
def State.init (partitionCount : ℕ+) : State A C := ⟨partitionCount, ∅, initLoads partitionCount⟩

/-- `compute_partition/3`. -/
def computePartition (phash2 : A × C → ℕ) (agentId : A) (competency : C) (partitionCount : ℕ+) :
    ℕ :=
  phash2 (agentId, competency) % partitionCount

/-- `handle_call` of `assign_partition`. -/
def assignPartition (phash2 : A × C → ℕ) (agentId : A) (competency : C) (s : State A C) :
    Reply × State A C :=
  let partition := computePartition phash2 agentId competency s.partitionCount
  let load := (s.partitionLoads.lookup partition).getD 0
  (.partition partition,
    { s with
      partitionAssignments := s.partitionAssignments.insert (agentId, competency) partition
      partitionLoads := s.partitionLoads.insert partition (load + 1) })

/-- `handle_call` of `get_partition_load`. -/
def getPartitionLoad (partition : ℕ) (s : State A C) : Reply × State A C :=
  match s.partitionLoads.lookup partition with
  | some load => (.load load, s)
  | none => (.notFound, s)

/-- The largest load. -/
def maxLoad (s : State A C) : ℕ := s.partitionLoads.entries.foldl (fun m e => max e.2 m) 0

/-- `handle_call` of `rebalance_partitions`. -/
def rebalancePartitions (s : State A C) : Reply × State A C :=
  if maxLoad s > partitionLoadThreshold then
    (.ok, { s with partitionLoads := initLoads s.partitionCount })
  else (.ok, s)

/-- `handle_call/3`. -/
def handleCall (phash2 : A × C → ℕ) (s : State A C) : Call A C → Reply × State A C
  | .assignPartition agentId competency => assignPartition phash2 agentId competency s
  | .getPartitionLoad partition => getPartitionLoad partition s
  | .rebalancePartitions => rebalancePartitions s

/-- The keys that are assigned to a partition. -/
def assignedKeys (s : State A C) (partition : ℕ) : Finset (A × C) :=
  s.partitionAssignments.keys.toFinset.filter fun key =>
    s.partitionAssignments.lookup key = some partition

/-- The load of each partition is one hundredth of the number of keys assigned to it,
so that it is above 1 only with more than 100 keys. -/
structure Accounted (s : State A C) : Prop where
  loads : ∀ p < (s.partitionCount : ℕ), s.partitionLoads.lookup p = some (assignedKeys s p).card
  bounded : ∀ p < (s.partitionCount : ℕ), ∀ load, s.partitionLoads.lookup p = some load →
    100 < load → 100 < (assignedKeys s p).card

/-- A key that is assigned again, and a rebalance that resets the loads. -/
def Drifts (s : State A C) : Call A C → Prop
  | .assignPartition agentId competency => (agentId, competency) ∈ s.partitionAssignments
  | .getPartitionLoad _ => False
  | .rebalancePartitions => ∃ e ∈ s.partitionLoads.entries, partitionLoadThreshold < e.2

/-! ### One call -/

lemma mem_assignedKeys {s : State A C} {p : ℕ} {key : A × C} :
    key ∈ assignedKeys s p ↔ s.partitionAssignments.lookup key = some p := by
  rw [assignedKeys, Finset.mem_filter, List.mem_toFinset, ← AList.mem_keys, and_iff_right_iff_imp]
  intro h
  exact AList.lookup_isSome.mp (by rw [h, Option.isSome_some])

lemma lookup_initLoads (count : ℕ+) (p : ℕ) :
    (initLoads count).lookup p = if p < count then some 0 else none := by
  have hnodup : ((List.range count).map fun p => (⟨p, 0⟩ : Sigma fun _ : ℕ => ℕ)).NodupKeys := by
    rw [List.NodupKeys, List.keys, List.map_map]
    exact List.nodup_range.map fun p q h => h
  rw [initLoads, AList.lookup_to_alist]
  split_ifs with hp
  · exact (List.mem_dlookup_iff hnodup).mpr (by simpa using hp)
  · rw [List.dlookup_eq_none]
    simpa [List.keys] using hp

lemma lt_foldl_max_iff (l : List (Sigma fun _ : ℕ => ℕ)) (m n : ℕ) :
    n < l.foldl (fun m e => max e.2 m) m ↔ n < m ∨ ∃ e ∈ l, n < e.2 := by
  induction l generalizing m with
  | nil => simp
  | cons e l ih =>
      rw [List.foldl_cons, ih, lt_max_iff, List.exists_mem_cons_iff]
      tauto

/-- What every run keeps: an assignment is the partition of its key, and the loads are
those of the partitions. -/
structure Registered (phash2 : A × C → ℕ) (s : State A C) : Prop where
  recorded : ∀ key p, s.partitionAssignments.lookup key = some p →
    p = computePartition phash2 key.1 key.2 s.partitionCount
  ranged : ∀ p, (s.partitionLoads.lookup p).isSome = true ↔ p < (s.partitionCount : ℕ)

variable {phash2 : A × C → ℕ} {s : State A C}

omit [DecidableEq A] [DecidableEq C] in
lemma computePartition_lt (phash2 : A × C → ℕ) (agentId : A) (competency : C) (count : ℕ+) :
    computePartition phash2 agentId competency count < count :=
  Nat.mod_lt _ count.pos

omit [DecidableEq A] [DecidableEq C] in
lemma isSome_lookup_initLoads (count : ℕ+) (p : ℕ) :
    ((initLoads count).lookup p).isSome = true ↔ p < (count : ℕ) := by
  rw [lookup_initLoads]
  split_ifs with hp <;> simp [hp]

omit [DecidableEq A] [DecidableEq C] in
/-- A rebalance resets the loads if one of them is above the threshold. -/
lemma lt_maxLoad_iff (s : State A C) :
    maxLoad s > partitionLoadThreshold ↔ Drifts s .rebalancePartitions := by
  rw [maxLoad, gt_iff_lt, lt_foldl_max_iff]
  simp [Drifts]

/-- A key that is assigned anew changes the keys of its partition only. -/
lemma mem_assignedKeys_assign {agentId : A} {competency : C} {p : ℕ} {key : A × C} :
    key ∈ assignedKeys (assignPartition phash2 agentId competency s).2 p
      ↔ (key = (agentId, competency)
          ∧ p = computePartition phash2 agentId competency s.partitionCount)
        ∨ (key ≠ (agentId, competency) ∧ key ∈ assignedKeys s p) := by
  rw [mem_assignedKeys, mem_assignedKeys, assignPartition]
  by_cases hkey : key = (agentId, competency)
  · subst hkey
    rw [AList.lookup_insert, Option.some.injEq]
    simp [eq_comm]
  · rw [AList.lookup_insert_ne hkey]
    simp [hkey]

lemma lookup_loads_assign (agentId : A) (competency : C) (p : ℕ) :
    (assignPartition phash2 agentId competency s).2.partitionLoads.lookup p
      = if p = computePartition phash2 agentId competency s.partitionCount then
          some ((s.partitionLoads.lookup p).getD 0 + 1)
        else s.partitionLoads.lookup p := by
  rw [assignPartition]
  split_ifs with hp
  · rw [hp, AList.lookup_insert]
  · exact AList.lookup_insert_ne hp

lemma Registered.handleCall (h : Registered phash2 s) (call : Call A C) :
    Registered phash2 (handleCall phash2 s call).2 := by
  cases call with
  | assignPartition agentId competency =>
      refine ⟨fun key p hp => ?_, fun p => ?_⟩
      · rw [← mem_assignedKeys, Partitions.handleCall, mem_assignedKeys_assign] at hp
        rcases hp with ⟨rfl, hp⟩ | ⟨-, hp⟩
        · exact hp
        · exact h.recorded key p (mem_assignedKeys.mp hp)
      · rw [Partitions.handleCall, lookup_loads_assign]
        split_ifs with hp
        · rw [hp]
          exact iff_of_true rfl (computePartition_lt phash2 agentId competency s.partitionCount)
        · exact h.ranged p
  | getPartitionLoad partition =>
      rw [Partitions.handleCall, getPartitionLoad]
      split <;> exact h
  | rebalancePartitions =>
      rw [Partitions.handleCall, rebalancePartitions]
      split_ifs
      · exact ⟨h.recorded, isSome_lookup_initLoads s.partitionCount⟩
      · exact h

/-- The loads decide the accounts. -/
lemma accounted_iff :
    Accounted s
      ↔ ∀ p < (s.partitionCount : ℕ), s.partitionLoads.lookup p = some (assignedKeys s p).card := by
  refine ⟨Accounted.loads, fun h => ⟨h, fun p hp load hload hlt => ?_⟩⟩
  obtain rfl := Option.some.inj ((h p hp).symm.trans hload)
  exact hlt

/-- An assignment keeps the accounts exactly if its key is new. -/
lemma accounted_assign_iff (hr : Registered phash2 s) (h : Accounted s) (agentId : A)
    (competency : C) :
    Accounted (assignPartition phash2 agentId competency s).2
      ↔ (agentId, competency) ∉ s.partitionAssignments := by
  have hlt := computePartition_lt phash2 agentId competency s.partitionCount
  refine ⟨fun hnext hmem => ?_, fun hnew => accounted_iff.mpr fun p hp => ?_⟩
  · obtain ⟨p, hp⟩ := Option.isSome_iff_exists.mp (AList.lookup_isSome.mpr hmem)
    obtain rfl := hr.recorded _ p hp
    have hsame : assignedKeys (assignPartition phash2 agentId competency s).2
        (computePartition phash2 agentId competency s.partitionCount)
          = assignedKeys s (computePartition phash2 agentId competency s.partitionCount) := by
      ext key
      rw [mem_assignedKeys_assign]
      by_cases hkey : key = (agentId, competency)
      · simp [hkey, mem_assignedKeys, hp]
      · simp [hkey]
    have hload := hnext.loads _ hlt
    rw [lookup_loads_assign, if_pos rfl, h.loads _ hlt, hsame, Option.some.injEq] at hload
    simp at hload
  · rw [lookup_loads_assign, h.loads p hp]
    split_ifs with hpart
    · have hnotMem : (agentId, competency) ∉ assignedKeys s p := fun hmem =>
        hnew (AList.lookup_isSome.mp (by rw [mem_assignedKeys.mp hmem, Option.isSome_some]))
      have hinsert : assignedKeys (assignPartition phash2 agentId competency s).2 p
          = insert (agentId, competency) (assignedKeys s p) := by
        ext key
        rw [mem_assignedKeys_assign, Finset.mem_insert]
        by_cases hkey : key = (agentId, competency) <;> simp [hkey, hpart]
      rw [hinsert, Finset.card_insert_of_notMem hnotMem, Option.getD_some]
    · congr 2
      ext key
      rw [mem_assignedKeys_assign]
      by_cases hkey : key = (agentId, competency)
      · simp [hkey, hpart, mem_assignedKeys, AList.lookup_eq_none.mpr hnew]
      · simp [hkey]

/-- A rebalance keeps the accounts exactly if it leaves the loads alone. -/
lemma accounted_rebalance_iff (hr : Registered phash2 s) (h : Accounted s) :
    Accounted (rebalancePartitions s).2 ↔ ¬ Drifts s .rebalancePartitions := by
  rw [rebalancePartitions, ← lt_maxLoad_iff]
  split_ifs with hmax
  · refine iff_of_false (fun hnext => ?_) (not_not.mpr hmax)
    obtain ⟨⟨p, load⟩, hmem, hload⟩ := (lt_maxLoad_iff s).mp hmax
    have hlookup : s.partitionLoads.lookup p = some load := AList.mem_lookup_iff.mpr hmem
    have hp : p < (s.partitionCount : ℕ) := (hr.ranged p).mp (by rw [hlookup, Option.isSome_some])
    have hcard : load = (assignedKeys s p).card :=
      Option.some.inj (hlookup.symm.trans (h.loads p hp))
    have hreset : (0 : ℕ) = (assignedKeys s p).card := by
      have := hnext.loads p hp
      rw [lookup_initLoads, if_pos hp] at this
      exact Option.some.inj this
    simp only [partitionLoadThreshold] at hload
    omega
  · exact iff_of_true h hmax

/-- A call keeps the accounts exactly if it does not drift. -/
lemma accounted_handleCall_iff (hr : Registered phash2 s) (h : Accounted s) (call : Call A C) :
    Accounted (handleCall phash2 s call).2 ↔ ¬ Drifts s call := by
  cases call with
  | assignPartition agentId competency => exact accounted_assign_iff hr h agentId competency
  | getPartitionLoad partition =>
      rw [handleCall, getPartitionLoad]
      split <;> exact iff_of_true h not_false
  | rebalancePartitions => exact accounted_rebalance_iff hr h

/-! ### Runs -/

/-- The manager after a run of calls. -/
def stateAfter (phash2 : A × C → ℕ) (count : ℕ+) (calls : List (Call A C)) : State A C :=
  (exec (handleCall phash2) (State.init count) calls).2

/-- After a run the loads are accounted for, and an assignment that was repeated on the
way changed no load. -/
structure Accounts (phash2 : A × C → ℕ) (count : ℕ+) (calls : List (Call A C)) : Prop where
  accounted : Accounted (stateAfter phash2 count calls)
  repeats : ∀ calls' agentId competency, calls' ++ [.assignPartition agentId competency] <+: calls →
    (agentId, competency) ∈ (stateAfter phash2 count calls').partitionAssignments →
      (stateAfter phash2 count (calls' ++ [.assignPartition agentId competency])).partitionLoads
        = (stateAfter phash2 count calls').partitionLoads

lemma stateAfter_concat (phash2 : A × C → ℕ) (count : ℕ+) (calls : List (Call A C))
    (call : Call A C) :
    stateAfter phash2 count (calls ++ [call])
      = (handleCall phash2 (stateAfter phash2 count calls) call).2 := by
  rw [stateAfter, exec_concat]
  rfl

lemma registered_stateAfter (phash2 : A × C → ℕ) (count : ℕ+) (calls : List (Call A C)) :
    Registered phash2 (stateAfter phash2 count calls) := by
  induction calls using List.reverseRecOn with
  | nil =>
      refine ⟨fun key p hp => ?_, isSome_lookup_initLoads count⟩
      rw [stateAfter, exec_nil, State.init, AList.lookup_empty] at hp
      simp at hp
  | append_singleton calls call ih =>
      rw [stateAfter_concat]
      exact ih.handleCall call

lemma accounted_init (count : ℕ+) : Accounted (State.init count : State A C) := by
  refine accounted_iff.mpr fun p hp => ?_
  have hnone : assignedKeys (State.init count : State A C) p = ∅ := by
    ext key
    simp [mem_assignedKeys, State.init]
  rw [hnone, Finset.card_empty]
  show (initLoads count).lookup p = some 0
  rw [lookup_initLoads]
  exact if_pos hp

/-- The accounts are right after every call exactly in the runs in which no key is
assigned twice and no rebalance resets the loads. -/
theorem loads_accounted_iff (phash2 : A × C → ℕ) (count : ℕ+) (calls : List (Call A C)) :
    (∀ calls', calls' <+: calls → Accounts phash2 count calls')
      ↔ ∀ calls' call, calls' ++ [call] <+: calls →
          ¬ Drifts (stateAfter phash2 count calls') call := by
  refine run_iff_inputs (fun calls _ => Accounts phash2 count calls) Drifts ?_ ?_ calls
  · exact ⟨accounted_init count, fun calls' _ _ hpre => by simp at hpre⟩
  · intro calls call h
    have hiff :=
      accounted_handleCall_iff (registered_stateAfter phash2 count calls) h.accounted call
    rw [← stateAfter_concat] at hiff
    refine ⟨fun hnext => hiff.mp hnext.accounted, fun hdrift => ⟨hiff.mpr hdrift, ?_⟩⟩
    intro calls' agentId competency hpre hmem
    rcases List.prefix_concat_iff.mp hpre with heq | hpre
    · obtain ⟨rfl, hcall⟩ := List.append_inj' heq rfl
      obtain rfl := List.singleton_inj.mp hcall
      exact absurd hmem hdrift
    · exact h.repeats calls' agentId competency hpre hmem

/-- The same assignment twice counts for two. -/
theorem load_counts_repeats :
    ¬ ∀ calls : List (Call ℕ ℕ), Accounts (fun _ => 0) 1 calls := by
  intro haccounts
  have hload := (haccounts [.assignPartition 1 2, .assignPartition 1 2]).accounted.loads 0
    (by decide)
  exact absurd hload (by decide)

end Partitions

end SovereignBus
