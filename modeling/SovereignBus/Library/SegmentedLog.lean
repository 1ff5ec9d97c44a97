import SovereignBus.Library.Machine

/-!
Machines that append entries to a log of segments.

* `SegmentedLog`: a machine whose accepted inputs append an entry at its offset
  or open a segment, and whose rejected inputs change nothing. Entries are
  chained by hashes and counted modulo a word.
* `offset_le`: no run leaves the segment. `chained_exec`: the entries of a run
  are chained, across segments, as long as their number fits the word.
-/

/-- A log machine. The entry of an input is what it appends; an input without
one opens a segment. -/
structure SegmentedLog (S I O A H : Type*) where
  step : S → I → O × S
  accepted : O → Bool
  entry : I → Option A
  size : A → ℕ
  prev : A → H
  hash : A → H
  offset : S → ℕ
  tip : S → H
  count : S → ℕ
  limit : ℕ
  modulus : ℕ
  rejected : ∀ s i, accepted (step s i).1 = false → (step s i).2 = s
  append : ∀ s i a, entry i = some a → offset s ≤ limit → accepted (step s i).1 = true →
    (0 < count s → prev a = tip s) ∧ offset s + size a ≤ limit
      ∧ offset (step s i).2 = offset s + size a ∧ tip (step s i).2 = hash a
      ∧ count (step s i).2 = (count s + 1) % modulus
  rotate : ∀ s i, entry i = none → accepted (step s i).1 = true →
    offset (step s i).2 = 0 ∧ tip (step s i).2 = tip s ∧ count (step s i).2 = count s

namespace SegmentedLog

open Machine

variable {S I O A H : Type*} (L : SegmentedLog S I O A H)

/-- The entries a history appended. -/
def entries (hist : List (I × O)) : List A :=
  hist.filterMap fun x => if L.accepted x.2 then L.entry x.1 else none

variable {L}

lemma offset_step {s : S} (h : L.offset s ≤ L.limit) (i : I) :
    L.offset (L.step s i).2 ≤ L.limit := by
  cases hacc : L.accepted (L.step s i).1 with
  | false => rwa [L.rejected s i hacc]
  | true =>
      cases hentry : L.entry i with
      | none => exact (L.rotate s i hentry hacc).1.trans_le (Nat.zero_le _)
      | some a =>
          obtain ⟨-, hle, hoff, -⟩ := L.append s i a hentry h hacc
          rwa [hoff]

/-- No run leaves the segment. -/
theorem offset_le {s : S} (h : L.offset s ≤ L.limit) (is : List I) :
    L.offset (exec L.step s is).2 ≤ L.limit :=
  exec_induction L.step (C := fun _ => True) (P := fun _ t => L.offset t ≤ L.limit) h
    (fun _ _ i _ ht => offset_step ht i) is fun _ _ => trivial

/-- What ties a history to the state it left: the entries are chained, counted,
and the tip is the hash of the last one. -/
structure Chained (L : SegmentedLog S I O A H) (hist : List (I × O)) (s : S) : Prop where
  offset : L.offset s ≤ L.limit
  chain : (L.entries hist).IsChain fun a b => L.prev b = L.hash a
  count : L.count s = (L.entries hist).length
  tip : ∀ a ∈ (L.entries hist).getLast?, L.tip s = L.hash a

lemma entries_concat (hist : List (I × O)) (i : I) (o : O) :
    L.entries (hist ++ [(i, o)])
      = L.entries hist ++ (if L.accepted o then L.entry i else none).toList := by
  rw [entries, List.filterMap_append, ← entries]
  cases h : (if L.accepted o then L.entry i else none) <;> simp [h]

/-- One more input keeps a history chained, as long as the count does not
wrap. -/
lemma Chained.step {hist : List (I × O)} {s : S} (h : Chained L hist s) (i : I)
    (hlen : (L.entries (hist ++ [(i, (L.step s i).1)])).length < L.modulus) :
    Chained L (hist ++ [(i, (L.step s i).1)]) (L.step s i).2 := by
  rw [entries_concat] at hlen
  cases hacc : L.accepted (L.step s i).1 with
  | false =>
      have hnone : L.entries (hist ++ [(i, (L.step s i).1)]) = L.entries hist := by
        simp [entries_concat, hacc]
      rw [L.rejected s i hacc]
      exact ⟨h.offset, hnone ▸ h.chain, hnone ▸ h.count, hnone ▸ h.tip⟩
  | true =>
      cases hentry : L.entry i with
      | none =>
          have hnone : L.entries (hist ++ [(i, (L.step s i).1)]) = L.entries hist := by
            simp [entries_concat, hentry]
          obtain ⟨hoff, htip, hcount⟩ := L.rotate s i hentry hacc
          refine ⟨hoff.trans_le (Nat.zero_le _), hnone ▸ h.chain, ?_, ?_⟩
          · rw [hcount, hnone, h.count]
          · rw [htip, hnone]
            exact h.tip
      | some a =>
          have hsome : L.entries (hist ++ [(i, (L.step s i).1)]) = L.entries hist ++ [a] := by
            simp [entries_concat, hacc, hentry]
          rw [← entries_concat, hsome, List.length_append, List.length_singleton] at hlen
          obtain ⟨hprev, hle, hoff, htip, hcount⟩ := L.append s i a hentry h.offset hacc
          refine ⟨hoff.trans_le hle, ?_, ?_, ?_⟩
          · rw [hsome, List.isChain_append]
            refine ⟨h.chain, List.isChain_singleton a, fun b hb c hc => ?_⟩
            obtain rfl : a = c := by simpa using hc
            have hpos : 0 < L.count s := by
              rw [h.count]
              exact List.length_pos_of_mem (List.mem_of_mem_getLast? hb)
            rw [hprev hpos, h.tip b hb]
          · rw [hcount, hsome, h.count, List.length_append, List.length_singleton,
              Nat.mod_eq_of_lt hlen]
          · rw [htip, hsome]
            simp

/-- The history of a run is chained, as long as its entries fit the count. -/
theorem chained_exec {s : S} (hoff : L.offset s ≤ L.limit) (hcount : L.count s = 0)
    (is : List I) (hlen : (L.entries (exec L.step s is).1).length < L.modulus) :
    Chained L (exec L.step s is).1 (exec L.step s is).2 := by
  refine exec_induction L.step (C := fun _ => True)
    (P := fun hist t => (L.entries hist).length < L.modulus → Chained L hist t) ?_ ?_ is
    (fun _ _ => trivial) hlen
  · intro _
    exact ⟨hoff, List.isChain_nil, hcount, by simp [entries]⟩
  · intro hist t i _ ih hlen'
    refine (ih ?_).step i hlen'
    rw [entries_concat, List.length_append] at hlen'
    omega

end SegmentedLog
