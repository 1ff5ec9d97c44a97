import SovereignBus.Lattice.Tamper

/-!
Several writers in `seb_lattice_append` on one file, with no lock between them.

* `Pc`, `Act`, `Writers.step`: every call is cut into the three steps another
  writer can come between: it reads the size, reads the tip before that size,
  and writes the record at that size. A writer on its own does what
  `sebLatticeAppend` does (`exec_alone`).
* `Overlap`: a second writer writes between the first one's reading of the size
  and its own write.
* `Inv`: what an interleaving leaves. Up to the first overlap the file is the
  log with the payloads in the order of their writes; a write at a stale size
  does not make the file longer, so from the first overlap on records are
  missing for good.
* `writers_kept_iff`: all payloads arrive exactly when no two calls overlap.
-/

namespace SovereignBus

open Chain

/-- Where a writer stands in its call of `seb_lattice_append`. -/
inductive Pc where
  | ready
  | sized (sz : ℤ)
  | tipped (sz : ℤ) (tip : Poly)
  | returned (ret : ℤ)

/-- The size a writer works with, once it has read it and until it returns. -/
def Pc.size : Pc → Option ℤ
  | ready => none
  | sized sz => some sz
  | tipped sz _ => some sz
  | returned _ => none

/-- The steps of a call. -/
inductive Act where
  | readSize
  | readTip
  | write
  deriving DecidableEq

/-- The file and the writers at work on it. -/
structure Writers (ι : Type*) where
  file : File
  pc : ι → Pc

namespace Writers

variable {ι : Type*} [DecidableEq ι] (payload : ι → Payload)

/-- One step of the writer `i`, if it stands where the step begins. -/
def step (s : Writers ι) (i : ι) : Act → Option (Writers ι)
  | .readSize =>
      match s.pc i with
      | .ready =>
          let sz := latticeFilesize none s.file
          let pc := if sz < 0 then .returned (-1) else .sized sz
          some ⟨s.file, Function.update s.pc i pc⟩
      | _ => none
  | .readTip =>
      match s.pc i with
      | .sized sz =>
          let pc :=
            match readTip none s.file sz with
            | none => .returned (-1)
            | some tip => .tipped sz tip
          some ⟨s.file, Function.update s.pc i pc⟩
      | _ => none
  | .write =>
      match s.pc i with
      | .tipped sz tip =>
          let w := writeRecord none s.file sz (payload i, sebLatticeCommit tip (payload i))
          some ⟨w.2, Function.update s.pc i (.returned w.1)⟩
      | _ => none

/-- An interleaving: each step is labelled with its writer. -/
def exec (s : Writers ι) : List (ι × Act) → Option (Writers ι)
  | [] => some s
  | e :: evs => (s.step payload e.1 e.2).bind fun t => t.exec evs

/-- All writers before their first step. -/
def start (f : File) : Writers ι := ⟨f, fun _ => .ready⟩

lemma exec_append (s : Writers ι) (evs evs' : List (ι × Act)) :
    s.exec payload (evs ++ evs') = (s.exec payload evs).bind fun t => t.exec payload evs' := by
  induction evs generalizing s with
  | nil => rfl
  | cons d evs ih =>
      simp only [List.cons_append, exec, Option.bind_assoc]
      exact congrArg _ (funext ih)

lemma exec_concat (s : Writers ι) (evs : List (ι × Act)) (e : ι × Act) :
    s.exec payload (evs ++ [e]) = (s.exec payload evs).bind fun t => t.step payload e.1 e.2 := by
  simp [exec_append, exec]

/-- The three steps of a writer that nobody disturbs are a call of
`seb_lattice_append`. -/
lemma exec_alone {s : Writers ι} {i : ι} {tip : Poly} (hpc : s.pc i = .ready)
    (htip : sebLatticeTip none s.file = some tip) :
    s.exec payload [(i, .readSize), (i, .readTip), (i, .write)]
      = some ⟨(sebLatticeAppend none s.file (payload i)).file,
          Function.update s.pc i (.returned (sebLatticeAppend none s.file (payload i)).ret)⟩ := by
  have hneg : ¬ (s.file.length : ℤ) < 0 := by omega
  simp only [exec, step, hpc, latticeFilesize_none, if_neg hneg, Option.bind_some,
    Function.update_self, readTip_filesize, htip, writeRecord_filesize, sebLatticeAppend_eq htip,
    Function.update_idem]

/-- On a log, they add a record to it. -/
lemma exec_turn {s : Writers ι} {i : ι} {ps : List Payload} (hpc : s.pc i = .ready)
    (hfile : s.file = logBytes 0 ps) :
    ∃ t, s.exec payload [(i, .readSize), (i, .readTip), (i, .write)] = some t
      ∧ t.pc = Function.update s.pc i (.returned 0)
      ∧ t.file = logBytes 0 (ps ++ [payload i]) := by
  have htip : sebLatticeTip none s.file = some (ps.foldl sebLatticeCommit 0) := by
    rw [hfile, sebLatticeTip_logBytes]
  refine ⟨_, exec_alone payload hpc htip, ?_, ?_⟩
  · rw [sebLatticeAppend_eq htip]
  · rw [sebLatticeAppend_eq htip, logBytes_concat, hfile]

end Writers

/-! ### Overlapping calls -/

section Overlap

variable {ι : Type*}

/-- Some writer writes between another one's reading of the size and its own
write. -/
def Overlap (evs : List (ι × Act)) : Prop :=
  ∃ i j, j ≠ i ∧ [(i, Act.readSize), (j, Act.write), (i, Act.write)].Sublist evs

/-- Some writer has written since `i` read the size. -/
def Stale (evs : List (ι × Act)) (i : ι) : Prop :=
  ∃ j, j ≠ i ∧ [(i, Act.readSize), (j, Act.write)].Sublist evs

/-- The writers in the order of their writes. -/
def writesOf (evs : List (ι × Act)) : List ι :=
  evs.filterMap fun e => if e.2 = .write then some e.1 else none

lemma writesOf_concat_write (evs : List (ι × Act)) (i : ι) :
    writesOf (evs ++ [(i, .write)]) = writesOf evs ++ [i] := by
  simp [writesOf]

lemma writesOf_concat_of_ne (evs : List (ι × Act)) {e : ι × Act} (h : e.2 ≠ .write) :
    writesOf (evs ++ [e]) = writesOf evs := by
  simp [writesOf, h]

lemma stale_concat_iff {evs : List (ι × Act)} {e : ι × Act} {i : ι} :
    Stale (evs ++ [e]) i
      ↔ Stale evs i ∨ e.2 = .write ∧ e.1 ≠ i ∧ (i, Act.readSize) ∈ evs := by
  have key : ∀ j, [(i, Act.readSize), (j, Act.write)].Sublist (evs ++ [e])
      ↔ [(i, Act.readSize), (j, Act.write)].Sublist evs
        ∨ (j, Act.write) = e ∧ (i, Act.readSize) ∈ evs := fun j => by
    rw [← List.singleton_sublist]
    exact Machine.concat_sublist_concat_iff [(i, Act.readSize)]
  constructor
  · rintro ⟨j, hj, h⟩
    rcases (key j).mp h with h | ⟨rfl, hmem⟩
    · exact Or.inl ⟨j, hj, h⟩
    · exact Or.inr ⟨rfl, hj, hmem⟩
  · rintro (⟨j, hj, h⟩ | ⟨hw, hj, hmem⟩)
    · exact ⟨j, hj, (key j).mpr (Or.inl h)⟩
    · exact ⟨e.1, hj, (key e.1).mpr (Or.inr ⟨Prod.ext rfl hw.symm, hmem⟩)⟩

lemma overlap_concat_iff {evs : List (ι × Act)} {e : ι × Act} :
    Overlap (evs ++ [e]) ↔ Overlap evs ∨ e.2 = .write ∧ Stale evs e.1 := by
  have key : ∀ i j, [(i, Act.readSize), (j, Act.write), (i, Act.write)].Sublist (evs ++ [e])
      ↔ [(i, Act.readSize), (j, Act.write), (i, Act.write)].Sublist evs
        ∨ (i, Act.write) = e ∧ [(i, Act.readSize), (j, Act.write)].Sublist evs := fun i j =>
    Machine.concat_sublist_concat_iff [(i, Act.readSize), (j, Act.write)]
  constructor
  · rintro ⟨i, j, hj, h⟩
    rcases (key i j).mp h with hsub | ⟨rfl, hsub⟩
    · exact Or.inl ⟨i, j, hj, hsub⟩
    · exact Or.inr ⟨rfl, j, hj, hsub⟩
  · rintro (⟨i, j, hj, h⟩ | ⟨hw, j, hj, h⟩)
    · exact ⟨i, j, hj, (key i j).mpr (Or.inl h)⟩
    · exact ⟨e.1, j, hj, (key e.1 j).mpr (Or.inr ⟨Prod.ext rfl hw.symm, h⟩)⟩

end Overlap

/-! ### The invariant -/

namespace Writers

variable {ι : Type*} [DecidableEq ι] {payload : ι → Payload} {ps : List Payload}

/-- What an interleaving leaves on the log with the payloads `ps`. -/
structure Inv (payload : ι → Payload) (ps : List Payload) (evs : List (ι × Act))
    (s : Writers ι) : Prop where
  /-- a writer that has not begun has no step -/
  unread : ∀ i, s.pc i = .ready → (i, Act.readSize) ∉ evs
  /-- a writer at work has read a size the file has had -/
  begun : ∀ i sz, (s.pc i).size = some sz →
    (i, Act.readSize) ∈ evs ∧ 0 ≤ sz ∧ 96 ∣ sz ∧ sz ≤ s.file.length
  wrote : ∀ i ∈ writesOf evs, ∃ ret, s.pc i = .returned ret
  nodup : (writesOf evs).Nodup
  done : ∀ i, s.pc i = .returned 0 → i ∈ writesOf evs
  whole : 96 ∣ s.file.length
  /-- no write makes the file longer than by one record -/
  le : s.file.length ≤ 96 * (ps.length + (writesOf evs).length)
  /-- an overlap loses a record for good -/
  lost : Overlap evs → s.file.length < 96 * (ps.length + (writesOf evs).length)
  stale : ∀ i sz, (s.pc i).size = some sz → Stale evs i →
    s.file.length < 96 * (ps.length + (writesOf evs).length) ∨ sz < s.file.length
  /-- without an overlap every write has arrived -/
  kept : ¬ Overlap evs → s.file = logBytes 0 (ps ++ (writesOf evs).map payload)
  fresh : ∀ i sz, (s.pc i).size = some sz → ¬ Stale evs i → sz = s.file.length
  tip : ∀ i sz tip, s.pc i = .tipped sz tip → ¬ Stale evs i → sebLatticeTip none s.file = some tip

omit [DecidableEq ι] in
lemma inv_start : Inv payload ps [] (start (logBytes 0 ps)) where
  unread := by simp
  begun := by simp [start, Pc.size]
  wrote := by simp [writesOf]
  nodup := by simp [writesOf]
  done := by simp [start]
  whole := by rw [start, logBytes_length]; exact Dvd.intro _ rfl
  le := by simp [start, writesOf]
  lost := by simp [Overlap]
  stale := by simp [Stale]
  kept := by simp [start, writesOf]
  fresh := by simp [start, Pc.size]
  tip := by simp [start]

/-- A step that is no write and leaves the file alone keeps the invariant, if
what it makes of its writer fits. -/
lemma Inv.of_read {evs : List (ι × Act)} {s : Writers ι} (h : Inv payload ps evs s) {i : ι}
    {a : Act} {pc : Pc} (ha : a ≠ .write) (hw : i ∉ writesOf evs) (hready : pc ≠ .ready)
    (hret : pc ≠ .returned 0)
    (hbegun : ∀ sz, pc.size = some sz →
      (i, Act.readSize) ∈ evs ++ [(i, a)] ∧ 0 ≤ sz ∧ 96 ∣ sz ∧ sz ≤ s.file.length)
    (hstale : ∀ sz, pc.size = some sz → Stale evs i →
      s.file.length < 96 * (ps.length + (writesOf evs).length) ∨ sz < s.file.length)
    (hfresh : ∀ sz, pc.size = some sz → ¬ Stale evs i → sz = s.file.length)
    (htip : ∀ sz tip, pc = .tipped sz tip → ¬ Stale evs i → sebLatticeTip none s.file = some tip) :
    Inv payload ps (evs ++ [(i, a)]) ⟨s.file, Function.update s.pc i pc⟩ := by
  have hwrites := writesOf_concat_of_ne evs (e := (i, a)) ha
  have hst : ∀ k, Stale (evs ++ [(i, a)]) k ↔ Stale evs k := fun k => by
    simp [stale_concat_iff, ha]
  have hov : Overlap (evs ++ [(i, a)]) ↔ Overlap evs := by simp [overlap_concat_iff, ha]
  refine
    { unread := ?_, begun := ?_, wrote := ?_, nodup := ?_, done := ?_, whole := h.whole, le := ?_,
      lost := ?_, stale := ?_, kept := ?_, fresh := ?_, tip := ?_ }
  · intro k
    by_cases hk : k = i
    · subst hk; simpa using fun hpc => absurd hpc hready
    · simpa [hk] using h.unread k
  · intro k sz
    by_cases hk : k = i
    · subst hk; simpa using hbegun sz
    · intro hsz
      obtain ⟨hmem, hrest⟩ := h.begun k sz (by simpa [hk] using hsz)
      exact ⟨List.mem_append_left _ hmem, hrest⟩
  · intro k hk
    rw [hwrites] at hk
    have hki : k ≠ i := fun hki => hw (hki ▸ hk)
    simpa [hki] using h.wrote k hk
  · rw [hwrites]
    exact h.nodup
  · intro k hk
    rw [hwrites]
    by_cases hki : k = i
    · subst hki; exact absurd (by simpa using hk) hret
    · exact h.done k (by simpa [hki] using hk)
  · rw [hwrites]
    exact h.le
  · rw [hov, hwrites]
    exact h.lost
  · intro k sz
    rw [hst, hwrites]
    by_cases hk : k = i
    · subst hk; simpa using hstale sz
    · simpa [hk] using h.stale k sz
  · rw [hov, hwrites]
    exact h.kept
  · intro k sz
    rw [hst]
    by_cases hk : k = i
    · subst hk; simpa using hfresh sz
    · simpa [hk] using h.fresh k sz
  · intro k sz tip
    rw [hst]
    by_cases hk : k = i
    · subst hk; simpa using htip sz tip
    · simpa [hk] using h.tip k sz tip

/-- What a write leaves: no bytes but those of its record are added, and none
at all at a stale size. -/
lemma writeRecord_length {f : File} {sz : ℤ} (record : Record) (h0 : 0 ≤ sz)
    (hle : sz ≤ f.length) :
    (writeRecord none f sz record).1 = 0
      ∧ ((writeRecord none f sz record).2.length : ℤ) = max (f.length : ℤ) (sz + 96) := by
  have hneg : ¬ sz < 0 := by omega
  have hoff : sz.toNat ≤ f.length := by omega
  have hlen := overwrite_length (recordCodec.enc record) hoff
  rw [recordCodec.enc_length] at hlen
  have h96 : ((recordCodec.enc record).length : ℤ) = 96 := by rw [recordCodec.enc_length]; rfl
  have hmax : ((max f.length (sz.toNat + 96) : ℕ) : ℤ) = max (f.length : ℤ) (sz + 96) := by omega
  simp [writeRecord, latticeWriteAt, hneg, h96, latticeFsync, hlen, ← hmax]

/-- The write of a writer at work keeps the invariant. -/
lemma Inv.of_write {evs : List (ι × Act)} {s : Writers ι} (h : Inv payload ps evs s) {i : ι}
    {sz : ℤ} {tip : Poly} (hpc : s.pc i = .tipped sz tip) :
    Inv payload ps (evs ++ [(i, .write)])
      ⟨(writeRecord none s.file sz (payload i, sebLatticeCommit tip (payload i))).2,
        Function.update s.pc i
          (.returned
            (writeRecord none s.file sz (payload i, sebLatticeCommit tip (payload i))).1)⟩ := by
  have hsize : (s.pc i).size = some sz := by rw [hpc]; rfl
  obtain ⟨hmem, h0, hdvd, hle⟩ := h.begun i sz hsize
  obtain ⟨hret, hlen⟩ := writeRecord_length (payload i, sebLatticeCommit tip (payload i)) h0 hle
  have hwhole := h.whole
  have hbound := h.le
  set w := writeRecord none s.file sz (payload i, sebLatticeCommit tip (payload i)) with hw
  have hi : i ∉ writesOf evs := fun hi => by
    obtain ⟨ret, hri⟩ := h.wrote i hi
    rw [hpc] at hri
    exact absurd hri (by simp)
  have hcount : (writesOf (evs ++ [(i, .write)])).length = (writesOf evs).length + 1 := by
    rw [writesOf_concat_write, List.length_append, List.length_singleton]
  -- every other writer at work is stale from here on
  have hst : ∀ k sz', k ≠ i → (s.pc k).size = some sz' → Stale (evs ++ [(i, .write)]) k :=
    fun k sz' hk hsz => stale_concat_iff.mpr (Or.inr ⟨rfl, hk.symm, (h.begun k sz' hsz).1⟩)
  refine
    { unread := ?_, begun := ?_, wrote := ?_, nodup := ?_, done := ?_, whole := ?_, le := ?_,
      lost := ?_, stale := ?_, kept := ?_, fresh := ?_, tip := ?_ }
  · intro k
    by_cases hk : k = i
    · subst hk; simp
    · simpa [hk] using h.unread k
  · intro k sz'
    by_cases hk : k = i
    · subst hk; simp [Pc.size]
    · intro hsz
      obtain ⟨hmem', h0', hdvd', hle'⟩ := h.begun k sz' (by simpa [hk] using hsz)
      exact ⟨List.mem_append_left _ hmem', h0', hdvd', by simp only; omega⟩
  · intro k hk
    by_cases hki : k = i
    · subst hki; exact ⟨w.1, by simp⟩
    · rw [writesOf_concat_write] at hk
      simpa [hki] using h.wrote k (by simpa [hki] using hk)
  · rw [writesOf_concat_write]
    exact List.nodup_append_comm.mp (List.nodup_cons.mpr ⟨hi, h.nodup⟩)
  · intro k hk
    rw [writesOf_concat_write]
    by_cases hki : k = i
    · subst hki; simp
    · exact List.mem_append_left _ (h.done k (by simpa [hki] using hk))
  · simp only; omega
  · rw [hcount]; simp only; omega
  · -- the record is missing: of an earlier overlap, or because this write is stale
    intro ho
    rw [hcount]
    simp only
    rcases overlap_concat_iff.mp ho with ho | ⟨-, hs⟩
    · have hlost := h.lost ho
      omega
    · rcases h.stale i sz hsize hs with hlost | hlt
      · omega
      · omega
  · intro k sz'
    by_cases hk : k = i
    · subst hk; simp [Pc.size]
    · intro hsz _
      obtain ⟨-, -, -, hle'⟩ := h.begun k sz' (by simpa [hk] using hsz)
      rw [hcount]
      simp only
      omega
  · -- no overlap: the size is the length of the file and the tip is its tip
    intro ho
    have hns : ¬ Overlap evs := fun h' => ho (overlap_concat_iff.mpr (Or.inl h'))
    have hfr : ¬ Stale evs i := fun h' => ho (overlap_concat_iff.mpr (Or.inr ⟨rfl, h'⟩))
    have hsz := h.fresh i sz hsize hfr
    have htip := h.tip i sz tip hpc hfr
    have hfile := h.kept hns
    rw [hfile, sebLatticeTip_logBytes] at htip
    rw [hw, hsz, writeRecord_filesize, hfile, writesOf_concat_write, ← Option.some.inj htip,
      List.map_append, ← List.append_assoc, List.map_singleton, logBytes_concat]
  · intro k sz'
    by_cases hk : k = i
    · subst hk; simp [Pc.size]
    · exact fun hsz hs => absurd (hst k sz' hk (by simpa [hk] using hsz)) hs
  · intro k sz' tip'
    by_cases hk : k = i
    · subst hk; simp
    · intro hpc' hs
      have hpck : s.pc k = .tipped sz' tip' := by simpa [hk] using hpc'
      exact absurd (hst k sz' hk (by rw [hpck]; rfl)) hs

/-- Every step keeps the invariant. -/
lemma Inv.step {evs : List (ι × Act)} {s t : Writers ι} (h : Inv payload ps evs s) {i : ι} {a : Act}
    (hstep : s.step payload i a = some t) : Inv payload ps (evs ++ [(i, a)]) t := by
  have hnot : ∀ pc, s.pc i = pc → (∀ ret, pc ≠ .returned ret) → i ∉ writesOf evs :=
    fun pc hpc hne hi => by
      obtain ⟨ret, hret⟩ := h.wrote i hi
      exact hne ret (hpc ▸ hret)
  cases a with
  | readSize =>
      cases hpc : s.pc i with
      | ready =>
          have hneg : ¬ (s.file.length : ℤ) < 0 := by omega
          have hns : ¬ Stale evs i := fun ⟨j, _, hsub⟩ =>
            h.unread i hpc (hsub.subset (by simp))
          simp only [Writers.step, hpc, latticeFilesize_none, if_neg hneg, Option.some.injEq]
            at hstep
          subst hstep
          refine h.of_read (by simp) (hnot _ hpc (by simp)) (by simp) (by simp) ?_
            (fun _ _ hs => absurd hs hns) ?_ (by simp)
          · rintro sz hsz
            obtain rfl : (s.file.length : ℤ) = sz := by simpa [Pc.size] using hsz
            exact ⟨by simp, by omega, by have := h.whole; omega, le_rfl⟩
          · rintro sz hsz _
            simpa [Pc.size] using hsz.symm
      | sized sz => simp [Writers.step, hpc] at hstep
      | tipped sz tip => simp [Writers.step, hpc] at hstep
      | returned ret => simp [Writers.step, hpc] at hstep
  | readTip =>
      cases hpc : s.pc i with
      | sized sz =>
          have hsize : (s.pc i).size = some sz := by rw [hpc]; rfl
          simp only [Writers.step, hpc, Option.some.injEq] at hstep
          subst hstep
          cases htip : readTip none s.file sz with
          | none =>
              exact h.of_read (by simp) (hnot _ hpc (by simp)) (by simp) (by simp)
                (by simp [Pc.size]) (by simp [Pc.size]) (by simp [Pc.size]) (by simp)
          | some tip =>
              refine h.of_read (by simp) (hnot _ hpc (by simp)) (by simp) (by simp) ?_ ?_ ?_ ?_
              · rintro sz' hsz'
                obtain rfl : sz = sz' := by simpa [Pc.size] using hsz'
                obtain ⟨hmem, hrest⟩ := h.begun i sz hsize
                exact ⟨List.mem_append_left _ hmem, hrest⟩
              · rintro sz' hsz'
                obtain rfl : sz = sz' := by simpa [Pc.size] using hsz'
                exact h.stale i sz hsize
              · rintro sz' hsz'
                obtain rfl : sz = sz' := by simpa [Pc.size] using hsz'
                exact h.fresh i sz hsize
              · rintro sz' tip' hpc' hs
                obtain ⟨rfl, rfl⟩ : sz = sz' ∧ tip = tip' := by simpa using hpc'
                rw [← readTip_filesize, ← h.fresh i sz hsize hs]
                exact htip
      | ready => simp [Writers.step, hpc] at hstep
      | tipped sz tip => simp [Writers.step, hpc] at hstep
      | returned ret => simp [Writers.step, hpc] at hstep
  | write =>
      cases hpc : s.pc i with
      | tipped sz tip =>
          simp only [Writers.step, hpc, Option.some.injEq] at hstep
          subst hstep
          exact h.of_write hpc
      | ready => simp [Writers.step, hpc] at hstep
      | sized sz => simp [Writers.step, hpc] at hstep
      | returned ret => simp [Writers.step, hpc] at hstep

/-- Every interleaving keeps the invariant. -/
lemma inv_exec {evs : List (ι × Act)} {s : Writers ι}
    (h : (start (logBytes 0 ps)).exec payload evs = some s) : Inv payload ps evs s := by
  induction evs using List.reverseRecOn generalizing s with
  | nil =>
      obtain rfl := Option.some.inj h
      exact inv_start
  | append_singleton evs e ih =>
      rw [exec_concat] at h
      obtain ⟨t, ht, hstep⟩ := Option.bind_eq_some_iff.mp h
      exact (ih ht).step hstep

/-! ### All calls returned -/

/-- The log holds the old payloads and every writer's payload exactly once, and
passes the verifier over its whole length. -/
def Kept (payload : ι → Payload) (ps : List Payload) (s : Writers ι) : Prop :=
  96 ∣ s.file.length
    ∧ sebLatticeVerify s.file 0 (s.file.length / 96) = 1
    ∧ ∃ order : List ι, order.Nodup ∧ (∀ i, i ∈ order)
        ∧ (payloads s.file).Perm (ps ++ order.map payload)

omit [DecidableEq ι] in
/-- Without an overlap the payloads stand in the file in the order of their
writes. -/
lemma Inv.isKept {evs : List (ι × Act)} {s : Writers ι} (h : Inv payload ps evs s)
    (hret : ∀ i, s.pc i = .returned 0) (hov : ¬ Overlap evs) : Kept payload ps s := by
  refine ⟨h.whole, ?_, writesOf evs, h.nodup, fun i => h.done i (hret i), ?_⟩
  · rw [h.kept hov, logBytes_length, Nat.mul_div_cancel_left _ (by omega)]
    exact sebLatticeVerify_logBytes _ le_rfl
  · rw [h.kept hov, payloads_logBytes]

omit [DecidableEq ι] in
/-- With an overlap the file is too short to hold all payloads. -/
lemma Inv.not_isKept {evs : List (ι × Act)} {s : Writers ι} (h : Inv payload ps evs s)
    (hret : ∀ i, s.pc i = .returned 0) (hov : Overlap evs) : ¬ Kept payload ps s := by
  rintro ⟨hwhole, -, order, hnodup, hall, hperm⟩
  have horder : order.Perm (writesOf evs) :=
    (List.perm_ext_iff_of_nodup hnodup h.nodup).mpr fun i =>
      iff_of_true (hall i) (h.done i (hret i))
  have hcount := hperm.length_eq
  rw [payloads, List.length_map, recordCodec.records_length, List.length_append, List.length_map,
    horder.length_eq] at hcount
  have hlost := h.lost hov
  omega

/-- Exactly which interleavings keep all payloads: those without an overlap. -/
theorem writers_kept_iff (payload : ι → Payload) (ps : List Payload) (evs : List (ι × Act))
    (s : Writers ι)
    (hexec : (start (latticeRun [] (faultless ps)).2).exec payload evs = some s)
    (hret : ∀ i, s.pc i = .returned 0) : Kept payload ps s ↔ ¬ Overlap evs := by
  rw [latticeRun_nil] at hexec
  have h := inv_exec hexec
  exact ⟨fun hkept hov => h.not_isKept hret hov hkept, h.isKept hret⟩

/-- The steps of one writer after those of the other. -/
def inTurn : List (Bool × Act) :=
  [(false, .readSize), (false, .readTip), (false, .write)]
    ++ [(true, .readSize), (true, .readTip), (true, .write)]

/-- Two writers, one after the other, behind a record that was there. -/
theorem writers_kept_iff_in_turn :
    ∃ s, (start (latticeRun [] (faultless [unitPayload])).2).exec
        (fun b => if b then unitPayload else zeroPayload) inTurn = some s
      ∧ (∀ i, s.pc i = .returned 0)
      ∧ Kept (fun b => if b then unitPayload else zeroPayload) [unitPayload] s := by
  set payload : Bool → Payload := fun b => if b then unitPayload else zeroPayload
  have hov : ¬ Overlap inTurn := by
    rintro ⟨i, j, hne, hsub⟩
    cases i <;> cases j <;> first | exact hne rfl | exact absurd hsub (by decide)
  have hfirst : (start (latticeRun [] (faultless [unitPayload])).2 : Writers Bool).file
      = logBytes 0 [unitPayload] := congrArg Prod.snd (latticeRun_nil [unitPayload])
  obtain ⟨s, hs, hpc, hfile⟩ := exec_turn payload (i := false) rfl hfirst
  obtain ⟨s', hs', hpc', -⟩ := exec_turn payload (i := true) (s := s) (by rw [hpc]; rfl) hfile
  have hexec :
      (start (latticeRun [] (faultless [unitPayload])).2).exec payload inTurn = some s' := by
    rw [inTurn, exec_append, hs]
    exact hs'
  have hret : ∀ i, s'.pc i = .returned 0 := by
    intro i
    cases i <;> simp [hpc', hpc]
  exact ⟨s', hexec, hret, (writers_kept_iff payload _ _ _ hexec hret).mpr hov⟩

/-- Both writers read the size of the empty file before either writes. -/
def collision : List (Bool × Act) :=
  [(false, .readSize), (true, .readSize), (false, .readTip), (true, .readTip), (false, .write),
    (true, .write)]

/-- Two writers on the empty file: both calls return 0, and one payload is
lost. -/
theorem writers_lose_payload :
    ∃ s, (start []).exec (fun b => if b then unitPayload else zeroPayload) collision = some s
      ∧ (∀ i, s.pc i = .returned 0)
      ∧ ¬ Kept (fun b => if b then unitPayload else zeroPayload) [] s := by
  set payload : Bool → Payload := fun b => if b then unitPayload else zeroPayload
  have hov : Overlap collision := ⟨true, false, by decide, by decide⟩
  -- both records are written at the size 0
  have hwrite : ∀ (f : File) (record : Record), (writeRecord none f 0 record).1 = 0 :=
    fun f record => (writeRecord_length record le_rfl (by omega)).1
  obtain ⟨s, hs, hret⟩ : ∃ s, (start []).exec payload collision = some s
      ∧ ∀ i, s.pc i = .returned 0 := by
    simp [collision, exec, step, start, latticeFilesize, readTip, hwrite]
  have inv : Inv payload [] collision s := inv_exec hs
  exact ⟨s, hs, hret, inv.not_isKept hret hov⟩

end Writers

end SovereignBus
