import Infnoise.Core.Machine
import Mathlib.Algebra.BigOperators.Group.List.Basic
import Mathlib.Algebra.GroupWithZero.Nat

/-!
# Budgets

A source that is funded with a budget and then drawn down, and is not funded again before the
budget is used up. What is drawn between two fundings is the budget.
-/

namespace Core

/-- What a call does: nothing, draw `n`, or fix the budget at `b` and draw `n` of it. -/
inductive Move where
  | idle
  | draw (n : ℕ)
  | fund (b n : ℕ)

namespace Move

/-- The amount drawn. -/
def drawn : Move → ℕ
  | idle => 0
  | draw n => n
  | fund _ n => n

def isFund : Move → Prop
  | fund _ _ => True
  | _ => False

end Move

/-- A step on what is left of the budget. Nothing is drawn beyond it. -/
def budgetStep (left : ℕ) : Move → Option (Unit × ℕ)
  | .idle => some ((), left)
  | .draw n => if 0 < left ∧ n ≤ left then some ((), left - n) else none
  | .fund b n => if left = 0 ∧ n ≤ b then some ((), b - n) else none

variable {left left' : ℕ} {cs : List (Call ℕ Move Unit)}

/-- A call that does not fund takes what it draws from what is left. -/
lemma budgetStep_eq {m : Move} {o : Unit} (hm : ¬ m.isFund)
    (h : budgetStep left m = some (o, left')) : m.drawn + left' = left := by
  cases m with
  | idle =>
    cases h
    exact Nat.zero_add left
  | draw n =>
    rw [budgetStep] at h
    split at h
    · rename_i hn
      cases h
      exact Nat.add_sub_cancel' hn.2
    · cases h
  | fund b n => exact absurd trivial hm

lemma budgetStep_fund {b n : ℕ} {o : Unit} (h : budgetStep left (.fund b n) = some (o, left')) :
    left = 0 ∧ n + left' = b := by
  rw [budgetStep] at h
  split at h
  · rename_i hn
    cases h
    exact ⟨hn.1, Nat.add_sub_cancel' hn.2⟩
  · cases h

/-- Conservation: from a funding to any later point before the next one, what was drawn and what
is left make up the budget. -/
theorem Run.drawn_eq {c : Call ℕ Move Unit} {b n : ℕ} (h : Run budgetStep left (c :: cs) left')
    (hc : c.input = .fund b n) (hcs : ∀ d ∈ cs, ¬ d.input.isFund) :
    n + (cs.map fun d => d.input.drawn).sum + left' = b := by
  obtain ⟨rfl, hstep, hrun⟩ := Run.cons_iff.mp h
  rw [hc] at hstep
  obtain ⟨_, hfund⟩ := budgetStep_fund hstep
  have hsum := hrun.sum_eq (q := id) (f := fun d => d.input.drawn) fun d hd =>
    budgetStep_eq (hcs d hd) (hrun.step_of_mem hd)
  simp only [id_eq] at hsum
  omega

end Core
