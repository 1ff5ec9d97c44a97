import SovereignBus.Library.Machine
import SovereignBus.Verifier.Limits

/-!
Charges to one budget of `src/verifier/sov_verifier.c`.

* `charge_wrapped`, `charge_counted`: what one call of `sov_add_operation_cost` does.
* `BudgetLaw`: a charge is accepted exactly as long as the costs add up to no
  more than the limit, and an exhausted budget stays exhausted.
* `Reopens`: costs that come back to a budget behind charges that wrapped.
  `budget_law_iff` says that only such costs break the law.
-/

namespace SovereignBus

namespace Verifier

open Machine

/-- The budget that charges leave of a fresh one. -/
def budgetAfter (costs : List UInt64) : SovResourceBudget :=
  (exec sovAddOperationCost sovInitResourceBudget costs).2

/-- The result of the charge `c` behind the charges `costs`. -/
def chargeResult (costs : List UInt64) (c : UInt64) : VerifyResult :=
  (sovAddOperationCost (budgetAfter costs) c).1

/-- The mathematical sum of costs. -/
def total (costs : List UInt64) : ℕ := (costs.map UInt64.toNat).sum

@[simp] lemma total_nil : total [] = 0 := rfl

lemma total_append (costs costs' : List UInt64) :
    total (costs ++ costs') = total costs + total costs' := by
  simp [total]

@[simp] lemma total_singleton (c : UInt64) : total [c] = c.toNat := by simp [total]

/-- The accounting of a run of charges. -/
structure BudgetLaw (costs : List UInt64) : Prop where
  accepts : ∀ pre c, pre ++ [c] <+: costs →
    (chargeResult pre c = .ok ↔ total (pre ++ [c]) ≤ sovOperationBudgetPerCall.toNat)
  counts : ∀ pre c, pre ++ [c] <+: costs → chargeResult pre c = .ok →
    (budgetAfter (pre ++ [c])).operationCount.toNat = total (pre ++ [c])
  flags : ∀ pre c, pre ++ [c] <+: costs → chargeResult pre c ≠ .ok →
    (budgetAfter (pre ++ [c])).budgetExceeded = true
  closes : ∀ pre c mid d, pre ++ c :: mid ++ [d] <+: costs → chargeResult pre c ≠ .ok →
    chargeResult (pre ++ c :: mid) d ≠ .ok

/-- Behind charges within the limit, a cost wraps the sum around, and so do those
after it, until one comes that would still have been within the limit. -/
def Reopens (costs : List UInt64) : Prop :=
  ∃ pre c mid d, pre ++ c :: mid ++ [d] <+: costs
    ∧ total pre ≤ sovOperationBudgetPerCall.toNat
    ∧ (∀ x ∈ c :: mid, 2 ^ 64 ≤ total pre + x.toNat)
    ∧ total pre + d.toNat ≤ sovOperationBudgetPerCall.toNat

/-! ### One charge -/

lemma limit_toNat : sovOperationBudgetPerCall.toNat = 100000000 := rfl

/-- A charge whose sum wraps around is refused and not counted. -/
lemma charge_wrapped {b : SovResourceBudget} {c : UInt64}
    (h : 2 ^ 64 ≤ b.operationCount.toNat + c.toNat) :
    sovAddOperationCost b c = (.opsExceeded, { b with budgetExceeded := true }) := by
  have hb := b.operationCount.toNat_lt
  have hc := c.toNat_lt
  have hmax : (sizeMax - c).toNat = 2 ^ 64 - 1 - c.toNat :=
    UInt64.toNat_sub_of_le sizeMax c (UInt64.le_iff_toNat_le.mpr (Nat.le_sub_one_of_lt hc))
  rw [sovAddOperationCost, if_pos]
  refine ⟨UInt64.lt_iff_toNat_lt.mpr ?_, UInt64.lt_iff_toNat_lt.mpr ?_⟩
  · rw [UInt64.toNat_zero]
    omega
  · rw [hmax]
    omega

/-- A charge whose sum does not wrap around is counted, and accepted within the
limit. -/
lemma charge_counted {b : SovResourceBudget} {c : UInt64}
    (h : b.operationCount.toNat + c.toNat < 2 ^ 64) :
    (b.operationCount + c).toNat = b.operationCount.toNat + c.toNat
      ∧ sovAddOperationCost b c
        = if b.operationCount + c > b.maxOperations then
            (.opsExceeded,
              { b with operationCount := b.operationCount + c, budgetExceeded := true })
          else (.ok, { b with operationCount := b.operationCount + c }) := by
  have hc := c.toNat_lt
  have hmax : (sizeMax - c).toNat = 2 ^ 64 - 1 - c.toNat :=
    UInt64.toNat_sub_of_le sizeMax c (UInt64.le_iff_toNat_le.mpr (Nat.le_sub_one_of_lt hc))
  refine ⟨by rw [UInt64.toNat_add, Nat.mod_eq_of_lt h], ?_⟩
  rw [sovAddOperationCost, if_neg]
  rintro ⟨-, hwrap⟩
  rw [gt_iff_lt, UInt64.lt_iff_toNat_lt, hmax] at hwrap
  omega

/-! ### Runs -/

lemma budgetAfter_concat (costs : List UInt64) (c : UInt64) :
    budgetAfter (costs ++ [c]) = (sovAddOperationCost (budgetAfter costs) c).2 := by
  rw [budgetAfter, exec_concat]
  rfl

lemma budgetAfter_max (costs : List UInt64) :
    (budgetAfter costs).maxOperations = sovOperationBudgetPerCall := by
  induction costs using List.reverseRecOn with
  | nil => rfl
  | append_singleton costs c ih =>
      rw [budgetAfter_concat, sovAddOperationCost]
      dsimp only
      split_ifs <;> exact ih

/-- Where the accounting of a budget stands behind `costs`: within the limit, at
a cost that wrapped around, or above the limit. -/
inductive Phase (costs : List UInt64) : Prop where
  | within (hsum : total costs ≤ sovOperationBudgetPerCall.toNat)
      (hcount : (budgetAfter costs).operationCount.toNat = total costs)
  | stalled (pre : List UInt64) (c : UInt64) (mid : List UInt64) (hcosts : costs = pre ++ c :: mid)
      (hpre : total pre ≤ sovOperationBudgetPerCall.toNat)
      (hwrap : ∀ x ∈ c :: mid, 2 ^ 64 ≤ total pre + x.toNat)
      (hcount : (budgetAfter costs).operationCount.toNat = total pre)
      (hflag : (budgetAfter costs).budgetExceeded = true)
  | above (hsum : sovOperationBudgetPerCall.toNat < total costs)
      (hcount : sovOperationBudgetPerCall.toNat < (budgetAfter costs).operationCount.toNat)
      (hflag : (budgetAfter costs).budgetExceeded = true)

/-- Costs that wrapped around add up to more than the limit. -/
lemma total_of_wrapped {pre mid : List UInt64} {c : UInt64}
    (hwrap : ∀ x ∈ c :: mid, 2 ^ 64 ≤ total pre + x.toNat) :
    2 ^ 64 ≤ total (pre ++ c :: mid) := by
  have hc := hwrap c List.mem_cons_self
  rw [total_append, ← List.singleton_append, total_append, total_singleton]
  omega

/-- Behind the limit the accounting says so. -/
lemma Phase.exceeded {costs : List UInt64} (h : Phase costs)
    (hsum : sovOperationBudgetPerCall.toNat < total costs) :
    (budgetAfter costs).budgetExceeded = true := by
  cases h with
  | within hle _ => exact absurd hsum (not_lt.mpr hle)
  | stalled _ _ _ _ _ _ _ hflag => exact hflag
  | above _ _ hflag => exact hflag

/-- Within the limit the accounting is exact. -/
lemma Phase.count_eq {costs : List UInt64} (h : Phase costs)
    (hsum : total costs ≤ sovOperationBudgetPerCall.toNat) :
    (budgetAfter costs).operationCount.toNat = total costs := by
  cases h with
  | within _ hcount => exact hcount
  | stalled pre c mid hcosts _ hwrap _ _ =>
      have hbig := total_of_wrapped hwrap
      rw [← hcosts] at hbig
      rw [limit_toNat] at hsum
      omega
  | above hlt _ _ => exact absurd hsum (not_le.mpr hlt)

/-- A charge that is not counted above the limit, from a count within it. -/
lemma phase_counted {costs : List UInt64} {d : UInt64}
    (h : (budgetAfter costs).operationCount.toNat + d.toNat < 2 ^ 64) :
    (budgetAfter (costs ++ [d])).operationCount.toNat
        = (budgetAfter costs).operationCount.toNat + d.toNat
      ∧ (chargeResult costs d = .ok ↔ (budgetAfter costs).operationCount.toNat + d.toNat
          ≤ sovOperationBudgetPerCall.toNat)
      ∧ (chargeResult costs d ≠ .ok → (budgetAfter (costs ++ [d])).budgetExceeded = true) := by
  obtain ⟨hsum, hcharge⟩ := charge_counted h
  rw [budgetAfter_max] at hcharge
  rw [chargeResult, budgetAfter_concat, hcharge, ← hsum, ← UInt64.le_iff_toNat_le]
  split_ifs with hlim
  · exact ⟨rfl, iff_of_false (by simp) (UInt64.not_le.mpr hlim), fun _ => rfl⟩
  · exact ⟨rfl, iff_of_true rfl (UInt64.not_lt.mp hlim), fun hne => absurd rfl hne⟩

/-- The phase of charges that do not reopen the budget, and the result of the
next one. -/
lemma phase_step {costs : List UInt64} {d : UInt64} (h : Phase costs)
    (hd : ¬ Reopens (costs ++ [d])) :
    Phase (costs ++ [d])
      ∧ (chargeResult costs d = .ok
        ↔ total (costs ++ [d]) ≤ sovOperationBudgetPerCall.toNat) := by
  have hsum : total (costs ++ [d]) = total costs + d.toNat := by
    rw [total_append, total_singleton]
  have hlim := limit_toNat
  have hwrapped : 2 ^ 64 ≤ (budgetAfter costs).operationCount.toNat + d.toNat →
      (budgetAfter (costs ++ [d])).operationCount = (budgetAfter costs).operationCount
        ∧ (budgetAfter (costs ++ [d])).budgetExceeded = true ∧ chargeResult costs d ≠ .ok := by
    intro hw
    rw [budgetAfter_concat, chargeResult, charge_wrapped hw]
    exact ⟨rfl, rfl, by simp⟩
  by_cases hw : 2 ^ 64 ≤ (budgetAfter costs).operationCount.toNat + d.toNat
  · obtain ⟨hcount', hflag', hne⟩ := hwrapped hw
    cases h with
    | within hle hcount =>
        refine ⟨.stalled costs d [] rfl hle ?_ (by rw [hcount', hcount]) hflag', ?_⟩
        · simpa [← hcount] using hw
        · exact iff_of_false hne (by omega)
    | stalled pre c mid hcosts hpre hwrap hcount hflag =>
        have hbig := total_of_wrapped hwrap
        rw [← hcosts] at hbig
        refine ⟨.stalled pre c (mid ++ [d]) (by rw [hcosts]; simp) hpre ?_
          (by rw [hcount', hcount]) hflag', iff_of_false hne (by omega)⟩
        intro x hx
        rw [← List.cons_append] at hx
        rcases List.mem_append.mp hx with hx | hx
        · exact hwrap x hx
        · rw [List.mem_singleton.mp hx, ← hcount]
          exact hw
    | above hlt hcount hflag =>
        exact ⟨.above (by omega) (by rw [hcount']; exact hcount) hflag',
          iff_of_false hne (by omega)⟩
  · obtain ⟨hcount', hok, hflag'⟩ := phase_counted (not_le.mp hw)
    cases h with
    | within hle hcount =>
        rw [hcount, ← hsum] at hok hcount'
        by_cases hfits : total (costs ++ [d]) ≤ sovOperationBudgetPerCall.toNat
        · exact ⟨.within hfits hcount', hok⟩
        · exact ⟨.above (not_le.mp hfits) (by omega) (hflag' (mt hok.mp hfits)), hok⟩
    | stalled pre c mid hcosts hpre hwrap hcount hflag =>
        have hbig := total_of_wrapped hwrap
        rw [← hcosts] at hbig
        -- the charge is not within the limit, or it would reopen the budget
        have hover : sovOperationBudgetPerCall.toNat < total pre + d.toNat := by
          by_contra hfits
          exact hd ⟨pre, c, mid, d, by rw [hcosts], hpre, hwrap, not_lt.mp hfits⟩
        have hne : chargeResult costs d ≠ .ok := fun h => by
          have := hok.mp h
          omega
        exact ⟨.above (by omega) (by omega) (hflag' hne), iff_of_false hne (by omega)⟩
    | above hlt hcount hflag =>
        have hne : chargeResult costs d ≠ .ok := fun h => by
          have := hok.mp h
          omega
        exact ⟨.above (by omega) (by omega) (hflag' hne), iff_of_false hne (by omega)⟩

lemma Reopens.mono {costs costs' : List UInt64} (h : Reopens costs) (hpre : costs <+: costs') :
    Reopens costs' := by
  obtain ⟨pre, c, mid, d, hcosts, hrest⟩ := h
  exact ⟨pre, c, mid, d, hcosts.trans hpre, hrest⟩

lemma phase_of_not_reopens {costs : List UInt64} (h : ¬ Reopens costs) : Phase costs := by
  induction costs using List.reverseRecOn with
  | nil => exact .within (Nat.zero_le _) rfl
  | append_singleton costs d ih =>
      exact (phase_step (ih fun hr => h (hr.mono (List.prefix_append _ _))) h).1

/-- Costs within the limit are counted. -/
lemma count_of_within {costs : List UInt64}
    (h : total costs ≤ sovOperationBudgetPerCall.toNat) :
    (budgetAfter costs).operationCount.toNat = total costs := by
  induction costs using List.reverseRecOn with
  | nil => rfl
  | append_singleton costs d ih =>
      rw [total_append, total_singleton] at h ⊢
      have hlim := limit_toNat
      have hcount := ih (by omega)
      rw [(phase_counted (by omega)).1, hcount]

/-- Costs that wrap around leave the count as it is. -/
lemma count_of_wrapped {pre mid : List UInt64}
    (hpre : total pre ≤ sovOperationBudgetPerCall.toNat)
    (hwrap : ∀ x ∈ mid, 2 ^ 64 ≤ total pre + x.toNat) :
    (budgetAfter (pre ++ mid)).operationCount.toNat = total pre := by
  induction mid using List.reverseRecOn with
  | nil => rw [List.append_nil, count_of_within hpre]
  | append_singleton mid x ih =>
      have hcount := ih fun y hy => hwrap y (List.mem_append_left _ hy)
      have hx := hwrap x (List.mem_append_right _ List.mem_cons_self)
      rw [← List.append_assoc, budgetAfter_concat, charge_wrapped (by rw [hcount]; exact hx)]
      exact hcount

/-- Costs that reopen a budget break its accounting. -/
lemma BudgetLaw.not_reopens {costs : List UInt64} (hlaw : BudgetLaw costs) : ¬ Reopens costs := by
  rintro ⟨pre, c, mid, d, hcosts, hpre, hwrap, hfits⟩
  have hlim := limit_toNat
  have hcount := count_of_wrapped hpre hwrap
  have hok : chargeResult (pre ++ c :: mid) d = .ok :=
    (phase_counted (by omega)).2.1.mpr (by omega)
  have hsum := (hlaw.accepts _ _ hcosts).mp hok
  have hbig := total_of_wrapped hwrap
  rw [total_append] at hsum
  omega

/-- The accounting of a fresh budget is right for exactly the costs that do not
reopen it. -/
theorem budget_law_iff (costs : List UInt64) : BudgetLaw costs ↔ ¬ Reopens costs := by
  have hlim := limit_toNat
  refine ⟨BudgetLaw.not_reopens, fun h => ?_⟩
  have hstep : ∀ pre c, pre ++ [c] <+: costs → Phase (pre ++ [c])
      ∧ (chargeResult pre c = .ok
        ↔ total (pre ++ [c]) ≤ sovOperationBudgetPerCall.toNat) := by
    intro pre c hpre
    have hnot : ¬ Reopens (pre ++ [c]) := fun hr => h (hr.mono hpre)
    exact phase_step
      (phase_of_not_reopens fun hr => hnot (hr.mono (List.prefix_append _ _))) hnot
  refine ⟨fun pre c hpre => (hstep pre c hpre).2, fun pre c hpre hok => ?_,
    fun pre c hpre hne => ?_, fun pre c mid d hpre hne hok => ?_⟩
  · obtain ⟨hphase, hiff⟩ := hstep pre c hpre
    exact hphase.count_eq (hiff.mp hok)
  · obtain ⟨hphase, hiff⟩ := hstep pre c hpre
    exact hphase.exceeded (not_le.mp (mt hiff.mpr hne))
  · have hfirst : pre ++ [c] <+: costs := by
      refine List.IsPrefix.trans ⟨mid ++ [d], ?_⟩ hpre
      simp
    have hsum := (hstep _ d hpre).2.mp hok
    have hbig := not_le.mp (mt (hstep pre c hfirst).2.mpr hne)
    rw [total_append, ← List.singleton_append, ← List.append_assoc, total_append] at hsum
    omega

/-- A charge of 1 is accepted behind one of `SIZE_MAX` that was refused. -/
theorem budget_reopened : ¬ BudgetLaw [1, sizeMax, 1] := by
  intro hlaw
  refine hlaw.not_reopens ⟨[1], sizeMax, [], 1, List.prefix_refl _, by decide, ?_, by decide⟩
  simp only [List.mem_singleton, forall_eq, total_singleton]
  decide

end Verifier

end SovereignBus
