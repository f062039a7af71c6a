import Infnoise.Core.Machine

/-!
# Ranks

A rank of the states bounds how often some calls of a run are made, when these calls lower it.
-/

namespace Core

variable {σ ι ο : Type*} {step : σ → ι → Option (ο × σ)} {s s' : σ} {cs : List (Call σ ι ο)}

/-- Run rule: a rank that the calls in `p` lower, and that no call raises by more than it costs,
bounds the number of calls in `p`. -/
lemma Run.countP_add_le (rank : σ → ℕ) (p : Call σ ι ο → Bool) (cost : Call σ ι ο → ℕ)
    (h : Run step s cs s')
    (hstep : ∀ c ∈ cs, (p c).toNat + rank c.after ≤ rank c.before + cost c) :
    cs.countP p + rank s' ≤ rank s + (cs.map cost).sum := by
  induction h with
  | nil => simp
  | @cons s s' s'' i o cs h _ ih =>
    have hc := hstep ⟨s, i, o, s'⟩ List.mem_cons_self
    have hcs := ih fun c hc => hstep c (List.mem_cons_of_mem _ hc)
    have hcount : List.countP p (⟨s, i, o, s'⟩ :: cs) =
        cs.countP p + (p ⟨s, i, o, s'⟩).toNat := by
      rw [List.countP_cons]
      cases p ⟨s, i, o, s'⟩ <;> rfl
    rw [hcount, List.map_cons, List.sum_cons]
    dsimp only at hc
    omega

end Core
