import Infnoise.Core.Machine
import Mathlib.Logic.Function.Basic

/-!
# A lock and those who hold it

A lock is a bit that everybody sees, and what it protects is the section of code between taking it
and giving it back. `Exclusive` says that the bit is set just while somebody is in the section, and
that nobody else is; taking the lock when it is free and giving it back keep this. In the runs of a
machine whose protected data change by steps inside a section only, nobody else changes them between
two steps of a party in its section.
-/

namespace Core

/-! ### The lock -/

section

variable {π : Type*} {party : Option π} {locked locked' : Bool} {inside inside' : π → Bool}

/-- The lock is held while a party is inside, and by one party only. -/
structure Exclusive (locked : Bool) (inside : π → Bool) : Prop where
  unique : ∀ p q, inside p = true → inside q = true → p = q
  locked_iff : locked = true ↔ ∃ p, inside p = true

/-- What a step of a party does to the lock: nothing, or the party takes it or gives it back. -/
inductive LockStep [DecidableEq π] (party : Option π) (locked : Bool) (inside : π → Bool)
    (locked' : Bool) (inside' : π → Bool) : Prop where
  | stays (hlocked : locked' = locked) (hinside : inside' = inside)
  | takes (p : π) (hparty : party = some p) (hfree : locked = false) (hlocked : locked' = true)
      (hinside : inside' = Function.update inside p true)
  | gives (p : π) (hparty : party = some p) (hin : inside p = true) (hlocked : locked' = false)
      (hinside : inside' = Function.update inside p false)

namespace Exclusive

lemma free : Exclusive false fun _ : π => false where
  unique _ _ hp := by cases hp
  locked_iff := by simp

/-- Nobody is inside while the lock is free. -/
lemma outside (h : Exclusive locked inside) (hfree : locked = false) (p : π) :
    inside p = false := by
  by_contra hp
  have hlocked := h.locked_iff.mpr ⟨p, by simpa using hp⟩
  simp [hfree] at hlocked

lemma eq_iff (h : Exclusive locked inside) {p : π} (hp : inside p = true) (q : π) :
    inside q = true ↔ q = p := by
  constructor
  · intro hq
    exact h.unique q p hq hp
  · rintro rfl
    exact hp

variable [DecidableEq π]

lemma takes (h : Exclusive locked inside) (hfree : locked = false) (p : π) :
    Exclusive true (Function.update inside p true) := by
  have hiff : ∀ q, Function.update inside p true q = true ↔ q = p := by
    intro q
    by_cases hq : q = p
    · simp [hq]
    · simp [hq, h.outside hfree q]
  constructor
  · intro q r hq hr
    rw [(hiff q).mp hq, (hiff r).mp hr]
  · simp only [hiff, exists_eq]

lemma gives (h : Exclusive locked inside) {p : π} (hp : inside p = true) :
    Exclusive false (Function.update inside p false) := by
  have hout : ∀ q, Function.update inside p false q = false := by
    intro q
    by_cases hq : q = p
    · simp [hq]
    · rw [Function.update_of_ne hq, ← Bool.not_eq_true, h.eq_iff hp]
      exact hq
  constructor
  · intro q r hq
    simp [hout] at hq
  · simp [hout]

/-- Every step keeps it. -/
lemma step (h : Exclusive locked inside)
    (hstep : LockStep party locked inside locked' inside') : Exclusive locked' inside' := by
  cases hstep with
  | stays hlocked hinside =>
    rw [hlocked, hinside]
    exact h
  | takes p _ hfree hlocked hinside =>
    rw [hlocked, hinside]
    exact h.takes hfree p
  | gives p _ hin hlocked hinside =>
    rw [hlocked, hinside]
    exact h.gives hin

/-- Nobody is put out of the section by somebody else. -/
lemma inside_step (h : Exclusive locked inside)
    (hstep : LockStep party locked inside locked' inside') {p : π} (hp : inside p = true)
    (hother : party ≠ some p) : inside' p = true := by
  cases hstep with
  | stays _ hinside => rw [hinside, hp]
  | takes q hparty _ _ hinside =>
    have hne : p ≠ q := by
      rintro rfl
      exact hother hparty
    rw [hinside, Function.update_of_ne hne, hp]
  | gives q hparty hin =>
    -- the party that gives the lock back is the one inside
    rw [(h.eq_iff hp q).mp hin] at hparty
    exact absurd hparty hother

end Exclusive

end

/-! ### Runs -/

/-- A machine whose steps are made by parties that share a lock; `Same` says that two states have the
same protected data. -/
structure Mutex {σ ι ο : Type*} (step : σ → ι → Option (ο × σ)) (π : Type*) [DecidableEq π] where
  locked : σ → Bool
  inside : σ → π → Bool
  party : Call σ ι ο → Option π
  Same : σ → σ → Prop
  refl : ∀ s, Same s s
  trans : ∀ {s s' s''}, Same s s' → Same s' s'' → Same s s''
  moves : ∀ c : Call σ ι ο, step c.before c.input = some (c.output, c.after) →
    LockStep (party c) (locked c.before) (inside c.before) (locked c.after) (inside c.after)
  protects : ∀ c : Call σ ι ο, step c.before c.input = some (c.output, c.after) →
    (∃ p, party c = some p ∧ inside c.before p = true) ∨ Same c.before c.after

namespace Mutex

variable {σ ι ο π : Type*} [DecidableEq π] {step : σ → ι → Option (ο × σ)} {s s' : σ}
  {cs : List (Call σ ι ο)}

/-- The lock is held by the one party that is inside. -/
def Kept (M : Mutex step π) (s : σ) : Prop := Exclusive (M.locked s) (M.inside s)

lemma kept (M : Mutex step π) (h : Run step s cs s') (hs : M.Kept s) :
    (∀ c ∈ cs, M.Kept c.before ∧ M.Kept c.after) ∧ M.Kept s' :=
  h.invariant (I := M.Kept) (fun s i o s' hstep hI => hI.step (M.moves ⟨s, i, o, s'⟩ hstep)) hs

/-- While a party is inside, the others leave it there, and the protected data alone. -/
lemma others (M : Mutex step π) (h : Run step s cs s') (hs : M.Kept s) {p : π}
    (hp : M.inside s p = true) (hothers : ∀ c ∈ cs, M.party c ≠ some p) :
    M.inside s' p = true ∧ M.Same s s' := by
  induction h with
  | nil s => exact ⟨hp, M.refl s⟩
  | @cons s s₁ s' i o cs hstep _ ih =>
    have hmove := M.moves ⟨s, i, o, s₁⟩ hstep
    have hother := hothers ⟨s, i, o, s₁⟩ List.mem_cons_self
    have hsame : M.Same s s₁ := by
      rcases M.protects ⟨s, i, o, s₁⟩ hstep with ⟨q, hparty, hq⟩ | hsame
      · rw [(hs.eq_iff hp q).mp hq] at hparty
        exact absurd hparty hother
      · exact hsame
    obtain ⟨hp', hsame'⟩ := ih (hs.step hmove) (hs.inside_step hmove hp hother)
      fun c hc => hothers c (List.mem_cons_of_mem _ hc)
    exact ⟨hp', M.trans hsame hsame'⟩

end Mutex

end Core
