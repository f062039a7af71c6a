import Infnoise.Core.Word
import Mathlib.Logic.Function.Basic

/-!
# Tables of counts

A predictor keeps one table of counts for each phase and each bit, indexed by the context. When a
count reaches the limit, every count is halved, so no count is ever at the limit afterwards.
-/

namespace Core

/-- A count for each phase, bit and context. -/
abbrev Tables := Bool → Bool → ℕ → ℕ

namespace Tables

/-- The entry of one table goes up by one. -/
def bump (t : Tables) (even bit : Bool) (i : ℕ) : Tables := fun e b =>
  if e = even ∧ b = bit then Function.update (t even bit) i (u32 (t even bit i + 1)) else t e b

/-- The first `size` entries of every table are halved. -/
def halve (size : ℕ) (t : Tables) : Tables := fun e b i => if i < size then t e b i >>> 1 else t e b i

/-- Count one bit, and halve when its count reaches the limit. -/
def count (limit size : ℕ) (t : Tables) (even bit : Bool) (i : ℕ) : Tables :=
  if limit ≤ u32 (t even bit i + 1) then halve size (t.bump even bit i) else t.bump even bit i

variable {t : Tables} {limit size : ℕ}

lemma bump_self (t : Tables) (even bit : Bool) (i : ℕ) :
    t.bump even bit i even bit i = u32 (t even bit i + 1) := by
  rw [bump, if_pos ⟨rfl, rfl⟩, Function.update_self]

lemma bump_of_ne (t : Tables) {even bit e b : Bool} {i j : ℕ} (h : ¬(e = even ∧ b = bit ∧ j = i)) :
    t.bump even bit i e b j = t e b j := by
  rw [bump]
  split_ifs with heb
  · obtain ⟨rfl, rfl⟩ := heb
    exact Function.update_of_ne (fun hj => h ⟨rfl, rfl, hj⟩) _ _
  · rfl

lemma halve_le (size : ℕ) (t : Tables) (e b : Bool) (i : ℕ) : halve size t e b i ≤ t e b i := by
  simp only [halve, Nat.shiftRight_eq_div_pow]
  split_ifs <;> omega

/-- A count at the limit is brought back below it. -/
lemma halve_lt (hlimit : 0 < limit) {e b : Bool} {i : ℕ} (hi : i < size) (ht : t e b i ≤ limit) :
    halve size t e b i < limit := by
  simp only [halve, if_pos hi, Nat.shiftRight_eq_div_pow]
  omega

/-- Counts below the limit stay there. -/
lemma count_lt (hlimit : limit < 4294967296) (ht : ∀ e b i, t e b i < limit) (even bit : Bool)
    {i : ℕ} (hi : i < size) (e b : Bool) (j : ℕ) : t.count limit size even bit i e b j < limit := by
  have hcount := ht even bit i
  have hu : u32 (t even bit i + 1) = t even bit i + 1 := u32_of_lt (by omega)
  by_cases hself : e = even ∧ b = bit ∧ j = i
  · obtain ⟨rfl, rfl, rfl⟩ := hself
    rw [count, hu]
    split_ifs with hmax
    · apply halve_lt (by omega) hi
      rw [bump_self, hu]
      exact hcount
    · rw [bump_self, hu]
      exact Nat.not_le.mp hmax
  · rw [count]
    split_ifs
    · apply lt_of_le_of_lt (halve_le _ _ _ _ _)
      rw [bump_of_ne t hself]
      exact ht e b j
    · rw [bump_of_ne t hself]
      exact ht e b j

/-- With counts below it, the limit is reached exactly. -/
lemma count_eq_of_lt (hlimit : limit < 4294967296) {even bit : Bool} {i : ℕ}
    (ht : t even bit i < limit) : t.count limit size even bit i =
      if u32 (t even bit i + 1) = limit then halve size (t.bump even bit i)
      else t.bump even bit i := by
  have hu : u32 (t even bit i + 1) = t even bit i + 1 := u32_of_lt (by omega)
  rw [count, hu]
  by_cases hmax : t even bit i + 1 = limit
  · rw [if_pos hmax.ge, if_pos hmax]
  · rw [if_neg (by omega), if_neg hmax]

end Tables

end Core
