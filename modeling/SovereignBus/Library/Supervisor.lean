import Mathlib

/-!
A supervisor of OTP whose children are temporary and started on request, with the processes it
starts.

* `Supervised`: the children by their ids, all processes that were started, and the exit signals
  that have not come to the supervisor yet.
* `startChild`, `terminateChild`, `deleteChild`: the requests. A temporary child is not started
  again, and its specification goes with its process.
* `exitArrives`, `advance`: the end of a child as the supervisor learns of it, and a process that
  goes on.
* `Kept`: what all of them keep, one lemma for each.
-/

namespace Supervisor

variable {I P : Type*}

/-- The children with their processes, the processes in the order of their start, and the
processes whose exit signal is on its way. -/
structure Supervised (I P : Type*) where
  children : List (I × ℕ)
  processes : List P
  exits : List ℕ

/-- A supervisor that was just started. -/
def Supervised.empty : Supervised I P := ⟨[], [], []⟩

inductive Started where
  | ok (pid : ℕ)
  | alreadyStarted (pid : ℕ)

inductive Terminated where
  | ok
  | notFound
  deriving DecidableEq

inductive Deleted where
  | ok
  | notFound
  | running
  deriving DecidableEq

section Requests

variable [DecidableEq I]

/-- The process of a child. -/
def Supervised.find (s : Supervised I P) (id : I) : Option ℕ := s.children.lookup id

/-- `start_child`, of a process that starts as `init`. -/
def startChild (init : P) (s : Supervised I P) (id : I) : Started × Supervised I P :=
  match s.find id with
  | some pid => (.alreadyStarted pid, s)
  | none =>
      (.ok s.processes.length,
        ⟨(id, s.processes.length) :: s.children, s.processes ++ [init], s.exits⟩)

/-- `terminate_child`: the supervisor waits for the end of the process, whose signal it takes. -/
def terminateChild (stop : P → P) (s : Supervised I P) (id : I) : Terminated × Supervised I P :=
  match s.find id with
  | none => (.notFound, s)
  | some pid =>
      (.ok, ⟨s.children.filter (·.1 ≠ id), s.processes.modify pid stop, s.exits.filter (· ≠ pid)⟩)

/-- `delete_child`, which only deletes a child without a process. A temporary child has one. -/
def deleteChild (s : Supervised I P) (id : I) : Deleted :=
  match s.find id with
  | none => .notFound
  | some _ => .running

end Requests

/-- The exit signal of a process comes to the supervisor. -/
def exitArrives (s : Supervised I P) (pid : ℕ) : Supervised I P :=
  if pid ∈ s.exits then
    ⟨s.children.filter (·.2 ≠ pid), s.processes, s.exits.filter (· ≠ pid)⟩
  else s

variable (alive : P → Bool)

/-- A process that has not ended goes on. -/
def advance (s : Supervised I P) (pid : ℕ) (f : P → P) : Supervised I P :=
  match s.processes[pid]? with
  | none => s
  | some p =>
      if alive p then
        ⟨s.children, s.processes.set pid (f p),
          if alive (f p) then s.exits else s.exits ++ [pid]⟩
      else s

/-- The process was started and has not ended. -/
def Supervised.Alive (s : Supervised I P) (n : ℕ) : Prop :=
  ∃ p, s.processes[n]? = some p ∧ alive p = true

/-- What the supervisor keeps: no id and no process is there twice, every process that has not
ended is that of a child, and a child whose process has ended will be known to have ended. -/
structure Kept (s : Supervised I P) : Prop where
  ids : (s.children.map Prod.fst).Nodup
  pids : (s.children.map Prod.snd).Nodup
  known : ∀ n, s.Alive alive n → ∃ id, (id, n) ∈ s.children
  noticed : ∀ id n, (id, n) ∈ s.children → s.Alive alive n ∨ n ∈ s.exits
  ended : ∀ n ∈ s.exits, n < s.processes.length ∧ ¬ s.Alive alive n

variable {alive} {s : Supervised I P} {stop : P → P}

lemma Supervised.Alive.lt_length {n : ℕ} (h : s.Alive alive n) : n < s.processes.length := by
  obtain ⟨p, hp, -⟩ := h
  exact (List.getElem?_eq_some_iff.mp hp).1

lemma Kept.empty : Kept alive (Supervised.empty : Supervised I P) where
  ids := List.nodup_nil
  pids := List.nodup_nil
  known n h := absurd h.lt_length (Nat.not_lt_zero n)
  noticed _ _ h := absurd h List.not_mem_nil
  ended _ h := absurd h List.not_mem_nil

lemma Kept.lt_length (h : Kept alive s) {id : I} {n : ℕ} (hmem : (id, n) ∈ s.children) :
    n < s.processes.length :=
  (h.noticed id n hmem).elim Supervised.Alive.lt_length fun hexit => (h.ended n hexit).1

lemma Kept.id_unique (h : Kept alive s) {id id' : I} {n : ℕ} (hmem : (id, n) ∈ s.children)
    (hmem' : (id', n) ∈ s.children) : id = id' :=
  congrArg Prod.fst (List.inj_on_of_nodup_map h.pids hmem hmem' rfl)

lemma Kept.pid_unique (h : Kept alive s) {id : I} {n n' : ℕ} (hmem : (id, n) ∈ s.children)
    (hmem' : (id, n') ∈ s.children) : n = n' :=
  congrArg Prod.snd (List.inj_on_of_nodup_map h.ids hmem hmem' rfl)

/-- A new process lives beside the others. -/
lemma alive_append {init : P} (hinit : alive init = true) (children : List (I × ℕ)) (n : ℕ) :
    Supervised.Alive alive ⟨children, s.processes ++ [init], s.exits⟩ n
      ↔ s.Alive alive n ∨ n = s.processes.length := by
  simp only [Supervised.Alive, List.getElem?_append]
  split_ifs with hlt
  · simp [hlt.ne]
  · have hnone : s.processes[n]? = none := List.getElem?_eq_none (not_lt.mp hlt)
    by_cases heq : n = s.processes.length
    · simp [heq, hinit]
    · have hsub : n - s.processes.length ≠ 0 := by omega
      simp [hnone, heq, hsub]

/-- A process that is stopped has ended, and no other one has. -/
lemma alive_modify (hstop : ∀ p, alive (stop p) = false) (children : List (I × ℕ)) (pid : ℕ)
    (exits : List ℕ) (n : ℕ) :
    Supervised.Alive alive ⟨children, s.processes.modify pid stop, exits⟩ n
      ↔ s.Alive alive n ∧ n ≠ pid := by
  simp only [Supervised.Alive, List.getElem?_modify]
  by_cases heq : pid = n
  · simp [heq, hstop]
  · simp [heq, Ne.symm heq]

section Requests

variable [DecidableEq I]

lemma find_eq_none {id : I} : s.find id = none ↔ ∀ n, (id, n) ∉ s.children := by
  simp only [Supervised.find, List.lookup_eq_none_iff, bne_iff_ne, ne_eq]
  refine ⟨fun h n hmem => h _ hmem rfl, fun h p hmem heq => h p.2 ?_⟩
  rwa [heq]

lemma mem_children_of_find {id : I} {n : ℕ} (hfind : s.find id = some n) :
    (id, n) ∈ s.children := by
  obtain ⟨l₁, l₂, hl, -⟩ := List.lookup_eq_some_iff.mp hfind
  rw [hl]
  exact List.mem_append_right _ List.mem_cons_self

lemma Kept.find_eq_some (h : Kept alive s) {id : I} {n : ℕ} :
    s.find id = some n ↔ (id, n) ∈ s.children := by
  refine ⟨mem_children_of_find, fun hn => ?_⟩
  cases hfind : s.find id with
  | none => exact absurd hn (find_eq_none.mp hfind n)
  | some m => rw [h.pid_unique (mem_children_of_find hfind) hn]

/-! ### `start_child` -/

lemma startChild_of_none {init : P} {id : I} (hfind : s.find id = none) :
    startChild init s id = (.ok s.processes.length,
      ⟨(id, s.processes.length) :: s.children, s.processes ++ [init], s.exits⟩) := by
  rw [startChild, hfind]

lemma startChild_of_some {init : P} {id : I} {pid : ℕ} (hfind : s.find id = some pid) :
    startChild init s id = (.alreadyStarted pid, s) := by
  rw [startChild, hfind]

lemma Kept.startChild (h : Kept alive s) {init : P} (hinit : alive init = true) (id : I) :
    Kept alive (startChild init s id).2 := by
  cases hfind : s.find id with
  | some pid => rwa [startChild_of_some hfind]
  | none =>
      rw [startChild_of_none hfind]
      refine ⟨?_, ?_, fun n hn => ?_, fun id' n hmem => ?_, fun n hn => ?_⟩
      · refine List.nodup_cons.mpr ⟨fun hmem => ?_, h.ids⟩
        obtain ⟨⟨_, n⟩, hmem', rfl⟩ := List.mem_map.mp hmem
        exact find_eq_none.mp hfind n hmem'
      · refine List.nodup_cons.mpr ⟨fun hmem => ?_, h.pids⟩
        obtain ⟨⟨id', _⟩, hmem', rfl⟩ := List.mem_map.mp hmem
        exact lt_irrefl _ (h.lt_length hmem')
      · rcases (alive_append hinit _ n).mp hn with hn | rfl
        · obtain ⟨id', hmem⟩ := h.known n hn
          exact ⟨id', List.mem_cons_of_mem _ hmem⟩
        · exact ⟨id, List.mem_cons_self⟩
      · rw [alive_append hinit]
        rcases List.mem_cons.mp hmem with heq | hmem
        · exact .inl (.inr (Prod.mk.inj heq).2)
        · exact (h.noticed id' n hmem).imp_left .inl
      · obtain ⟨hlt, hdead⟩ := h.ended n hn
        rw [alive_append hinit, List.length_append]
        exact ⟨by omega, fun hor => hor.elim hdead hlt.ne⟩

/-! ### `terminate_child` -/

lemma terminateChild_of_none {id : I} (hfind : s.find id = none) :
    terminateChild stop s id = (.notFound, s) := by
  rw [terminateChild, hfind]

lemma terminateChild_of_some {id : I} {pid : ℕ} (hfind : s.find id = some pid) :
    terminateChild stop s id = (.ok, ⟨s.children.filter (·.1 ≠ id),
      s.processes.modify pid stop, s.exits.filter (· ≠ pid)⟩) := by
  rw [terminateChild, hfind]

lemma Kept.terminateChild (h : Kept alive s) (hstop : ∀ p, alive (stop p) = false) (id : I) :
    Kept alive (terminateChild stop s id).2 := by
  cases hfind : s.find id with
  | none => rwa [terminateChild_of_none hfind]
  | some pid =>
      rw [terminateChild_of_some hfind]
      have hchild := h.find_eq_some.mp hfind
      have hne {id' : I} {n : ℕ} (hmem : (id', n) ∈ s.children) (hid : id' ≠ id) : n ≠ pid := by
        rintro rfl
        exact hid (h.id_unique hmem hchild)
      refine ⟨?_, ?_, fun n hn => ?_, fun id' n hmem => ?_, fun n hn => ?_⟩
      · exact h.ids.sublist (List.filter_sublist.map _)
      · exact h.pids.sublist (List.filter_sublist.map _)
      · obtain ⟨hn, hpid⟩ := (alive_modify hstop _ pid _ n).mp hn
        obtain ⟨id', hmem⟩ := h.known n hn
        refine ⟨id', List.mem_filter.mpr ⟨hmem, decide_eq_true fun heq => hpid ?_⟩⟩
        exact h.pid_unique (heq ▸ hmem) hchild
      · obtain ⟨hmem, hid⟩ := List.mem_filter.mp hmem
        have hpid := hne hmem (of_decide_eq_true hid)
        rw [alive_modify hstop]
        refine (h.noticed id' n hmem).imp (⟨·, hpid⟩) fun hexit => ?_
        exact List.mem_filter.mpr ⟨hexit, decide_eq_true hpid⟩
      · obtain ⟨hlt, hdead⟩ := h.ended n (List.mem_of_mem_filter hn)
        rw [alive_modify hstop, List.length_modify]
        exact ⟨hlt, fun hn => hdead hn.1⟩

end Requests

/-! ### The end of a process -/

lemma Kept.exitArrives (h : Kept alive s) (pid : ℕ) : Kept alive (exitArrives s pid) := by
  rw [Supervisor.exitArrives]
  split_ifs with hexit
  · have hdead := (h.ended pid hexit).2
    refine ⟨?_, ?_, fun n hn => ?_, fun id n hmem => ?_, fun n hn => ?_⟩
    · exact h.ids.sublist (List.filter_sublist.map _)
    · exact h.pids.sublist (List.filter_sublist.map _)
    · obtain ⟨id, hmem⟩ := h.known n hn
      refine ⟨id, List.mem_filter.mpr ⟨hmem, decide_eq_true ?_⟩⟩
      rintro rfl
      exact hdead hn
    · obtain ⟨hmem, hne⟩ := List.mem_filter.mp hmem
      exact (h.noticed id n hmem).imp_right fun hn => List.mem_filter.mpr ⟨hn, hne⟩
    · exact h.ended n (List.mem_of_mem_filter hn)
  · exact h

@[simp] lemma advance_children (s : Supervised I P) (pid : ℕ) (f : P → P) :
    (advance alive s pid f).children = s.children := by
  rw [advance]
  split
  · rfl
  · split_ifs <;> rfl

@[simp] lemma length_advance (s : Supervised I P) (pid : ℕ) (f : P → P) :
    (advance alive s pid f).processes.length = s.processes.length := by
  rw [advance]
  split
  · rfl
  · split_ifs <;> simp

/-- A process is as it was, or it went on. -/
lemma mem_advance {pid : ℕ} {f : P → P} {p : P}
    (hp : p ∈ (advance alive s pid f).processes) :
    p ∈ s.processes ∨ ∃ q ∈ s.processes, alive q = true ∧ p = f q := by
  rw [advance] at hp
  split at hp
  · exact .inl hp
  · rename_i q hq
    by_cases halive : alive q = true
    · simp only [halive, if_true] at hp
      exact (List.mem_or_eq_of_mem_set hp).imp_right fun heq =>
        ⟨q, List.mem_of_getElem? hq, halive, heq⟩
    · simp only [halive] at hp
      exact .inl hp

/-- A process that stays as it is changes nothing. -/
lemma advance_of_stays {pid : ℕ} {f : P → P}
    (hstays : ∀ p, s.processes[pid]? = some p → alive p = true → f p = p) :
    advance alive s pid f = s := by
  rw [advance]
  cases hp : s.processes[pid]? with
  | none => rfl
  | some p =>
      by_cases halive : alive p = true
      · obtain ⟨hlt, hget⟩ := List.getElem?_eq_some_iff.mp hp
        have hset : s.processes.set pid p = s.processes := by
          rw [← hget, List.set_getElem_self]
        simp only [hstays p hp halive, halive, if_true, hset]
      · simp only [halive]
        rfl

/-- What becomes of a process that ends whenever it goes on. -/
lemma alive_advance {pid : ℕ} {f : P → P}
    (hends : ∀ p, s.processes[pid]? = some p → alive p = true → alive (f p) = false) (n : ℕ) :
    (advance alive s pid f).Alive alive n ↔ s.Alive alive n ∧ n ≠ pid := by
  rw [advance]
  cases hp : s.processes[pid]? with
  | none =>
      refine ⟨fun hn => ⟨hn, ?_⟩, And.left⟩
      rintro rfl
      obtain ⟨p, hp', -⟩ := hn
      exact absurd (hp.symm.trans hp') (by simp)
  | some p =>
      by_cases halive : alive p = true
      · have hend := hends p hp halive
        have hlt := (List.getElem?_eq_some_iff.mp hp).1
        simp only [halive, if_true, Supervised.Alive, List.getElem?_set]
        by_cases heq : pid = n
        · subst heq
          simp [hlt, hend]
        · simp [heq, Ne.symm heq]
      · simp only [halive]
        refine ⟨fun hn => ⟨hn, ?_⟩, And.left⟩
        rintro rfl
        obtain ⟨p', hp', halive'⟩ := hn
        exact halive (Option.some.inj (hp.symm.trans hp') ▸ halive')

lemma Kept.advance (h : Kept alive s) {pid : ℕ} {f : P → P}
    (hends : ∀ p, s.processes[pid]? = some p → alive p = true → alive (f p) = false) :
    Kept alive (advance alive s pid f) := by
  have halive := alive_advance hends
  rw [Supervisor.advance] at halive ⊢
  cases hp : s.processes[pid]? with
  | none => exact h
  | some p =>
      rw [hp] at halive
      dsimp only at halive ⊢
      by_cases hold : alive p = true
      · simp only [hold, hends p hp hold, if_true, Bool.false_eq_true, if_false] at halive ⊢
        refine ⟨h.ids, h.pids, fun n hn => h.known n ((halive n).mp hn).1, fun id n hmem => ?_,
          fun n hn => ?_⟩
        · rw [halive, List.mem_append, List.mem_singleton]
          by_cases heq : n = pid
          · exact .inr (.inr heq)
          · exact (h.noticed id n hmem).imp (⟨·, heq⟩) .inl
        · rw [halive, List.length_set]
          rcases List.mem_append.mp hn with hn | hn
          · obtain ⟨hlt, hdead⟩ := h.ended n hn
            exact ⟨hlt, fun hand => hdead hand.1⟩
          · obtain rfl := List.mem_singleton.mp hn
            exact ⟨(List.getElem?_eq_some_iff.mp hp).1, fun hand => hand.2 rfl⟩
      · simp only [hold] at halive ⊢
        exact h

end Supervisor
