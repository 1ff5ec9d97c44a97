import Mathlib

/-!
Lists joined with a separator and no escaping.

* `Unbordered`: no proper end of the separator is a beginning of it.
* `length_le_of_intercalate_eq`: parts without the separator are the finest way to make up
  their text, and the only one with so many parts.
* `determined_iff`: two or more parts can be read off their text exactly if none has the
  separator inside.
* `splitOnP_intercalate_iff`: a text that is split at several elements, and was joined with one of
  them, gives its parts back exactly if none has such an element inside.
-/

namespace Separated

variable {A : Type*}

/-- No proper end of the separator is a beginning of it, so that it cannot overlap itself. -/
def Unbordered (sep : List A) : Prop :=
  sep ≠ [] ∧ ∀ x y, sep = x ++ y → x ≠ [] → y ≠ [] → ¬ y <+: sep

/-- The text of the parts is the text of no other parts of that number. -/
def Determined (sep : List A) (parts : List (List A)) : Prop :=
  ∀ parts', parts'.length = parts.length → sep.intercalate parts' = sep.intercalate parts →
    parts' = parts

variable {sep : List A}

/-- Two different elements make a separator. -/
lemma unbordered_pair {a b : A} (h : a ≠ b) : Unbordered [a, b] := by
  refine ⟨List.cons_ne_nil _ _, fun x y hxy hx hy hpre => ?_⟩
  obtain ⟨c, x, rfl⟩ := List.exists_cons_of_ne_nil hx
  obtain ⟨d, y, rfl⟩ := List.exists_cons_of_ne_nil hy
  have hrest : [b] = x ++ d :: y := (List.cons.inj hxy).2
  have hd : d = a := (List.cons_prefix_cons.mp hpre).1
  cases x with
  | nil => exact h (hd.symm.trans (List.cons.inj hrest).1.symm)
  | cons e x => simp at hrest

lemma unbordered_singleton (a : A) : Unbordered [a] := by
  refine ⟨List.cons_ne_nil _ _, fun x y hxy hx hy _ => ?_⟩
  have hlength := congrArg List.length hxy
  have hx' := List.length_pos_of_ne_nil hx
  have hy' := List.length_pos_of_ne_nil hy
  rw [List.length_append, List.length_singleton] at hlength
  omega

/-- A separator that begins inside of another one, or behind it. -/
lemma Unbordered.shift (hsep : Unbordered sep) {x r r' : List A}
    (h : sep ++ r = x ++ (sep ++ r')) : x = [] ∨ ∃ y, x = sep ++ y ∧ r = y ++ (sep ++ r') := by
  rcases List.append_eq_append_iff.mp h with ⟨y, hx, hr⟩ | ⟨z, hz, hr⟩
  · exact .inr ⟨y, hx, hr⟩
  · rcases eq_or_ne x [] with hx | hx
    · exact .inl hx
    · rcases eq_or_ne z [] with rfl | hne
      · exact .inr ⟨[], by simpa using hz.symm, hr.symm⟩
      · have hlength := congrArg List.length hz
        rw [List.length_append] at hlength
        have hpre : z <+: sep :=
          List.prefix_of_prefix_length_le ⟨r, rfl⟩ ⟨r', hr⟩ (by omega)
        exact absurd hpre (hsep.2 x z hz hx hne)

/-- A part without the separator is the first part of its text, or the beginning of it. -/
lemma Unbordered.first_part (hsep : Unbordered sep) {a a' r r' : List A} (ha : ¬ sep <:+: a)
    (h : a' ++ (sep ++ r') = a ++ (sep ++ r)) :
    a' = a ∧ r' = r ∨ ∃ y, a' = a ++ (sep ++ y) ∧ r = y ++ (sep ++ r') := by
  rcases List.append_eq_append_iff.mp h with ⟨x, rfl, hr⟩ | ⟨x, rfl, hr⟩
  · rcases hsep.shift hr with rfl | ⟨y, rfl, -⟩
    · exact .inl ⟨by simp, List.append_cancel_left hr⟩
    · exact absurd ⟨a', y, List.append_assoc _ _ _⟩ ha
  · rcases hsep.shift hr with rfl | ⟨y, rfl, hy⟩
    · exact .inl ⟨by simp, (List.append_cancel_left hr).symm⟩
    · exact .inr ⟨y, rfl, hy⟩

/-- Two first parts without the separator. -/
lemma Unbordered.first_part_eq (hsep : Unbordered sep) {a a' r r' : List A} (ha : ¬ sep <:+: a)
    (ha' : ¬ sep <:+: a') (h : a' ++ (sep ++ r') = a ++ (sep ++ r)) : a' = a ∧ r' = r := by
  rcases hsep.first_part ha h with heq | ⟨y, rfl, -⟩
  · exact heq
  · exact absurd ⟨a, y, List.append_assoc _ _ _⟩ ha'

lemma intercalate_cons {a : List A} {parts : List (List A)} (h : parts ≠ []) :
    sep.intercalate (a :: parts) = a ++ (sep ++ sep.intercalate parts) := by
  obtain ⟨b, parts, rfl⟩ := List.exists_cons_of_ne_nil h
  rw [List.intercalate_cons_cons, List.append_assoc]

/-- Parts without the separator are the most that make up their text, and the only ones of
that number. -/
lemma length_le_of_intercalate_eq (hsep : Unbordered sep) {parts parts' : List (List A)}
    (hclean : ∀ p ∈ parts, ¬ sep <:+: p) (hne : parts ≠ []) (hne' : parts' ≠ [])
    (h : sep.intercalate parts' = sep.intercalate parts) :
    parts'.length ≤ parts.length ∧ (parts'.length = parts.length → parts' = parts) := by
  induction parts generalizing parts' with
  | nil => exact absurd rfl hne
  | cons a parts ih =>
      obtain ⟨ha, hrestclean⟩ := List.forall_mem_cons.mp hclean
      obtain ⟨a', parts', rfl⟩ := List.exists_cons_of_ne_nil hne'
      rcases eq_or_ne parts [] with rfl | hparts
      · rcases eq_or_ne parts' [] with rfl | hparts'
        · exact ⟨le_rfl, fun _ => by simpa using h⟩
        · rw [intercalate_cons hparts', List.intercalate_singleton] at h
          exact absurd ⟨a', _, by rw [List.append_assoc, h]⟩ ha
      · have hlength := List.length_pos_iff.mpr hparts
        rcases eq_or_ne parts' [] with rfl | hparts'
        · refine ⟨by simp, fun heq => ?_⟩
          rw [List.length_singleton, List.length_cons] at heq
          omega
        · rw [intercalate_cons hparts, intercalate_cons hparts'] at h
          rcases hsep.first_part ha h with ⟨rfl, hrest⟩ | ⟨y, -, hrest⟩
          · obtain ⟨hle, heq⟩ := ih hrestclean hparts hparts' hrest
            refine ⟨Nat.succ_le_succ hle, fun hlen => ?_⟩
            rw [heq (Nat.succ_injective hlen)]
          · -- the rest is made up of one part more, so it has room for it
            rw [← intercalate_cons hparts'] at hrest
            obtain ⟨hle, -⟩ := ih hrestclean hparts (List.cons_ne_nil y parts') hrest.symm
            simp only [List.length_cons] at hle ⊢
            exact ⟨by omega, by omega⟩

lemma intercalate_append {l r : List (List A)} (hl : l ≠ []) (hr : r ≠ []) :
    sep.intercalate (l ++ r) = sep.intercalate l ++ (sep ++ sep.intercalate r) := by
  induction l with
  | nil => exact absurd rfl hl
  | cons a l ih =>
      rcases eq_or_ne l [] with rfl | hl'
      · rw [List.singleton_append, intercalate_cons hr, List.intercalate_singleton]
      · rw [List.cons_append, intercalate_cons (by simp [hl']), intercalate_cons hl', ih hl',
          List.append_assoc, List.append_assoc]

/-- Two parts may be cut at another separator. -/
lemma not_determined_pair {l r : List (List A)} {a b a' b' : List A} (hne : a' ≠ a)
    (h : a' ++ (sep ++ b') = a ++ (sep ++ b)) : ¬ Determined sep (l ++ (a :: b :: r)) := by
  intro hdet
  have hpair : sep.intercalate (a' :: b' :: r) = sep.intercalate (a :: b :: r) := by
    rcases eq_or_ne r [] with rfl | hr
    · simpa [intercalate_cons] using h
    · rw [intercalate_cons (by simp), intercalate_cons hr, intercalate_cons (by simp),
        intercalate_cons hr, ← List.append_assoc, ← List.append_assoc, ← List.append_assoc,
        List.append_assoc a', h]
      simp
  have htext : sep.intercalate (l ++ (a' :: b' :: r)) = sep.intercalate (l ++ (a :: b :: r)) := by
    rcases eq_or_ne l [] with rfl | hl
    · exact hpair
    · rw [intercalate_append hl (by simp), intercalate_append hl (by simp), hpair]
  have heq := List.append_cancel_left (hdet _ (by simp) htext)
  exact hne (List.cons.inj heq).1

/-- Two or more parts can be read off their text exactly if none has the separator inside. -/
theorem determined_iff (hsep : Unbordered sep) {parts : List (List A)} (hlen : 2 ≤ parts.length) :
    Determined sep parts ↔ ∀ p ∈ parts, ¬ sep <:+: p := by
  have hne : parts ≠ [] := List.length_pos_iff.mp (by omega)
  constructor
  · rintro hdet p hp ⟨x, y, rfl⟩
    have hpos := List.length_pos_iff.mpr hsep.1
    obtain ⟨l, r, rfl⟩ := List.append_of_mem hp
    rcases eq_or_ne r [] with rfl | hr
    · -- the last part: its separator ends the part before it
      rcases l.eq_nil_or_concat' with rfl | ⟨l, a, rfl⟩
      · simp at hlen
      · rw [List.append_assoc, List.singleton_append] at hdet
        refine @not_determined_pair _ _ _ _ _ _ (a ++ (sep ++ x)) y (fun h => ?_) (by simp) hdet
        have hlength := congrArg List.length h
        simp only [List.length_append] at hlength
        omega
    · obtain ⟨b, r, rfl⟩ := List.exists_cons_of_ne_nil hr
      refine @not_determined_pair _ _ _ _ _ _ x (y ++ (sep ++ b)) (fun h => ?_) (by simp) hdet
      have hlength := congrArg List.length h
      simp only [List.length_append] at hlength
      omega
  · intro hclean parts' hlength h
    have hne' : parts' ≠ [] := List.length_pos_iff.mp (by omega)
    exact (length_le_of_intercalate_eq hsep hclean hne hne' h).2 hlength

/-! ### Texts split at some elements -/

section Split

variable {p : A → Bool}

/-- What is split off has none of the elements it was split at. -/
lemma not_of_mem_splitOnP {l : List A} : ∀ w ∈ l.splitOnP p, ∀ a ∈ w, p a = false := by
  induction l with
  | nil => simp
  | cons b l ih =>
      rw [List.splitOnP_cons_eq_if_modifyHead]
      obtain ⟨first, rest, hsplit⟩ := List.exists_cons_of_ne_nil (List.splitOnP_ne_nil p l)
      rw [hsplit] at ih ⊢
      intro w hw a ha
      split_ifs at hw with hb
      · rcases List.mem_cons.mp hw with rfl | hw
        · exact absurd ha List.not_mem_nil
        · exact ih w hw a ha
      · rw [List.modifyHead_cons] at hw
        rcases List.mem_cons.mp hw with rfl | hw
        · rcases List.mem_cons.mp ha with rfl | ha
          · exact Bool.eq_false_iff.mpr hb
          · exact ih first List.mem_cons_self a ha
        · exact ih w (List.mem_cons_of_mem _ hw) a ha

lemma splitOnP_intercalate {s : A} (hs : p s = true) {parts : List (List A)} (hne : parts ≠ [])
    (hparts : ∀ w ∈ parts, ∀ a ∈ w, p a = false) :
    ([s].intercalate parts).splitOnP p = parts := by
  induction parts with
  | nil => exact absurd rfl hne
  | cons w parts ih =>
      obtain ⟨hw, hrest⟩ := List.forall_mem_cons.mp hparts
      rcases eq_or_ne parts [] with rfl | hparts
      · rw [List.intercalate_singleton, List.splitOnP_eq_singleton hw]
      · rw [intercalate_cons hparts, List.singleton_append,
          List.splitOnP_append_cons_of_forall_mem hw s hs, ih hparts hrest]

/-- A text is split into the parts it was joined from exactly if no part is split itself. -/
theorem splitOnP_intercalate_iff {s : A} (hs : p s = true) {parts : List (List A)}
    (hne : parts ≠ []) :
    ([s].intercalate parts).splitOnP p = parts ↔ ∀ w ∈ parts, ∀ a ∈ w, p a = false :=
  ⟨fun h w hw => not_of_mem_splitOnP w (h ▸ hw), splitOnP_intercalate hs hne⟩

end Split

end Separated
