import Mathlib

/-!
Responses that are matched to requests by a key.

* `Mark`, `Waiting`: a history of keys that were opened for a request and closed by
  an answer. A request waits while its key is open.
* `Holds`: a table holds exactly the requests that wait. `Holds.insert`, `Holds.erase`
  and `Holds.other` carry this through a history.
-/

namespace Correlation

variable {K R : Type*}

/-- A key is opened for a request, a key is closed, or neither. -/
inductive Mark (K R : Type*) where
  | opened (key : K) (request : R)
  | closed (key : K)
  | other

def Mark.openedKey : Mark K R → Option K
  | .opened key _ => some key
  | _ => none

def Mark.closedKey : Mark K R → Option K
  | .closed key => some key
  | _ => none

/-- The keys that were opened, in order. -/
def opened (marks : List (Mark K R)) : List K := marks.filterMap Mark.openedKey

/-- The keys that were closed, in order. -/
def closed (marks : List (Mark K R)) : List K := marks.filterMap Mark.closedKey

/-- The request waits under the key. -/
def Waiting (marks : List (Mark K R)) (key : K) (request : R) : Prop :=
  .opened key request ∈ marks ∧ key ∉ closed marks

/-- The table holds the requests that wait. No key was opened or closed twice, and
none was closed that had not been opened. -/
structure Holds (table : K → Option R) (marks : List (Mark K R)) : Prop where
  waiting : ∀ key request, table key = some request ↔ Waiting marks key request
  openedOnce : (opened marks).Nodup
  closedOnce : (closed marks).Nodup
  closedOpened : closed marks ⊆ opened marks

lemma mem_opened {marks : List (Mark K R)} {key : K} {request : R}
    (h : .opened key request ∈ marks) : key ∈ opened marks :=
  List.mem_filterMap.mpr ⟨_, h, rfl⟩

lemma opened_concat (marks : List (Mark K R)) (mark : Mark K R) :
    opened (marks ++ [mark]) = opened marks ++ mark.openedKey.toList := by
  cases hkey : mark.openedKey <;> simp [opened, hkey]

lemma closed_concat (marks : List (Mark K R)) (mark : Mark K R) :
    closed (marks ++ [mark]) = closed marks ++ mark.closedKey.toList := by
  cases hkey : mark.closedKey <;> simp [closed, hkey]

variable {table : K → Option R} {marks : List (Mark K R)}

lemma Holds.empty : Holds (fun _ => none : K → Option R) [] :=
  ⟨by simp [Waiting], by simp [opened], by simp [closed], by simp [closed]⟩

/-- A mark of neither kind changes nothing. -/
lemma Holds.other (h : Holds table marks) : Holds table (marks ++ [.other]) := by
  have hopened : opened (marks ++ [.other]) = opened marks := by
    simp [opened_concat, Mark.openedKey]
  have hclosed : closed (marks ++ [.other]) = closed marks := by
    simp [closed_concat, Mark.closedKey]
  refine ⟨fun key request => ?_, hopened ▸ h.openedOnce, hclosed ▸ h.closedOnce, ?_⟩
  · rw [h.waiting, Waiting, Waiting, hclosed]
    simp
  · rw [hopened, hclosed]
    exact h.closedOpened

variable [DecidableEq K]

/-- A request is entered under a new key. -/
lemma Holds.insert (h : Holds table marks) {key : K} (request : R) (hnew : key ∉ opened marks) :
    Holds (Function.update table key (some request)) (marks ++ [.opened key request]) := by
  have hopened : opened (marks ++ [.opened key request]) = opened marks ++ [key] := by
    simp [opened_concat, Mark.openedKey]
  have hclosed : closed (marks ++ [.opened key request]) = closed marks := by
    simp [closed_concat, Mark.closedKey]
  refine ⟨fun k r => ?_, ?_, hclosed ▸ h.closedOnce, ?_⟩
  · rw [Waiting, hclosed, List.mem_append, List.mem_singleton, Mark.opened.injEq]
    by_cases hk : k = key
    · subst hk
      rw [Function.update_self, Option.some.injEq]
      refine ⟨fun hr => ⟨.inr ⟨rfl, hr.symm⟩, fun hc => hnew (h.closedOpened hc)⟩, ?_⟩
      rintro ⟨hmem | ⟨-, hr⟩, -⟩
      · exact absurd (mem_opened hmem) hnew
      · exact hr.symm
    · rw [Function.update_of_ne hk, h.waiting, Waiting]
      simp [hk]
  · rw [hopened, ← List.concat_eq_append]
    exact h.openedOnce.concat hnew
  · rw [hopened, hclosed]
    exact fun k hk => List.mem_append_left _ (h.closedOpened hk)

/-- A request that waits is answered. -/
lemma Holds.erase (h : Holds table marks) {key : K} {request : R}
    (hkey : table key = some request) :
    Holds (Function.update table key none) (marks ++ [.closed key]) := by
  obtain ⟨hmem, hwaits⟩ := (h.waiting key request).mp hkey
  have hopened : opened (marks ++ [.closed key]) = opened marks := by
    simp [opened_concat, Mark.openedKey]
  have hclosed : closed (marks ++ [.closed key]) = closed marks ++ [key] := by
    simp [closed_concat, Mark.closedKey]
  refine ⟨fun k r => ?_, hopened ▸ h.openedOnce, ?_, ?_⟩
  · rw [Waiting, hclosed, List.mem_append, List.mem_append, List.mem_singleton, List.mem_singleton]
    by_cases hk : k = key
    · subst hk
      simp
    · rw [Function.update_of_ne hk, h.waiting, Waiting]
      simp [hk]
  · rw [hclosed, ← List.concat_eq_append]
    exact h.closedOnce.concat hwaits
  · rw [hopened, hclosed]
    intro k hk
    rcases List.mem_append.mp hk with hk | hk
    · exact h.closedOpened hk
    · rw [List.mem_singleton.mp hk]
      exact mem_opened hmem

end Correlation
