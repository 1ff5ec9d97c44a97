import Mathlib

/-!
Systems whose steps are chosen from outside.

* `Reaches`: runs all of whose steps are of a kind `C`.
* `Reaches.invariant`: the rule that carries a property through such a run.
-/

namespace Labelled

variable {W A : Type*} (step : W → A → Option W)

/-- A step of the kind `C`. -/
def StepOf (C : W → A → Prop) (w w' : W) : Prop := ∃ a, C w a ∧ step w a = some w'

/-- A run whose steps are of the kind `C`. -/
def Reaches (C : W → A → Prop) : W → W → Prop := Relation.ReflTransGen (StepOf step C)

variable {step} {C : W → A → Prop} {w w' w'' : W}

lemma Reaches.refl : Reaches step C w w := Relation.ReflTransGen.refl

lemma Reaches.tail (h : Reaches step C w w') {a : A} (hC : C w' a) (ha : step w' a = some w'') :
    Reaches step C w w'' :=
  Relation.ReflTransGen.tail h ⟨a, hC, ha⟩

/-- What holds at the start and survives every step of the kind holds after every
run. -/
theorem Reaches.invariant {P : W → Prop} (h : Reaches step C w w') (h0 : P w)
    (hstep : ∀ v a v', P v → C v a → step v a = some v' → P v') : P w' := by
  induction h with
  | refl => exact h0
  | tail _ hs ih =>
      obtain ⟨a, hC, ha⟩ := hs
      exact hstep _ a _ ih hC ha

end Labelled
