import Mathlib.Algebra.BigOperators.Ring.Finset
import Mathlib.Algebra.Order.BigOperators.Group.Finset
import Mathlib.Order.Lattice.Nat

/-!
# Guessing from a context

Each observation is a zero or a one, in a context. Who knows the context guesses what was seen there
more often. A coarser context merges contexts, and never helps.
-/

namespace Core

open Finset

section Guessing

variable {α β γ : Type*} [DecidableEq β] [DecidableEq γ]

/-- What the counts `count` of the observations in the context `b` add up to. -/
def seenIn (s : Finset α) (context : α → β) (count : α → ℕ) (b : β) : ℕ :=
  ∑ a ∈ s with context a = b, count a

/-- How often the guess is right. -/
def guessedRight (s : Finset α) (t : Finset β) (context : α → β) (zeros ones : α → ℕ) : ℕ :=
  ∑ b ∈ t, max (seenIn s context zeros b) (seenIn s context ones b)

variable {s : Finset α} {t : Finset β} {u : Finset γ} {context : α → β} {zeros ones : α → ℕ}

lemma sum_seenIn (hcontext : ∀ a ∈ s, context a ∈ t) (count : α → ℕ) :
    ∑ b ∈ t, seenIn s context count b = ∑ a ∈ s, count a :=
  sum_fiberwise_of_maps_to hcontext count

/-- What is seen in a coarse context is what is seen in the contexts that it merges. -/
lemma seenIn_comp (hcontext : ∀ a ∈ s, context a ∈ t) (merge : β → γ) (count : α → ℕ) (c : γ) :
    seenIn s (merge ∘ context) count c =
      ∑ b ∈ t with merge b = c, seenIn s context count b := by
  simp only [seenIn]
  rw [← sum_fiberwise_of_maps_to (g := context) (t := t.filter fun b => merge b = c) ?_]
  · apply sum_congr rfl
    intro b hb
    rw [filter_filter]
    apply sum_congr ?_ fun _ _ => rfl
    ext a
    have hc := (mem_filter.mp hb).2
    simp only [mem_filter, Function.comp_apply, and_congr_right_iff, and_iff_right_iff_imp]
    rintro - rfl
    exact hc
  · intro a ha
    obtain ⟨ha, hc⟩ := mem_filter.mp ha
    exact mem_filter.mpr ⟨hcontext a ha, hc⟩

/-- Merging contexts never helps. -/
lemma guessedRight_comp_le (hcontext : ∀ a ∈ s, context a ∈ t) {merge : β → γ}
    (hmerge : ∀ b ∈ t, merge b ∈ u) :
    guessedRight s u (merge ∘ context) zeros ones ≤ guessedRight s t context zeros ones := by
  rw [guessedRight, guessedRight, ← sum_fiberwise_of_maps_to hmerge]
  apply sum_le_sum
  intro c _
  rw [seenIn_comp hcontext, seenIn_comp hcontext]
  exact max_le (sum_le_sum fun _ _ => le_max_left _ _) (sum_le_sum fun _ _ => le_max_right _ _)

/-- A guess is right at most always. -/
lemma guessedRight_le (hcontext : ∀ a ∈ s, context a ∈ t) :
    guessedRight s t context zeros ones ≤ ∑ a ∈ s, (zeros a + ones a) := by
  rw [sum_add_distrib, ← sum_seenIn hcontext, ← sum_seenIn hcontext, ← sum_add_distrib]
  exact sum_le_sum fun b _ => max_le (Nat.le_add_right _ _) (Nat.le_add_left _ _)

/-- And at least half of the time. -/
lemma le_guessedRight (hcontext : ∀ a ∈ s, context a ∈ t) :
    ∑ a ∈ s, (zeros a + ones a) ≤ 2 * guessedRight s t context zeros ones := by
  rw [sum_add_distrib, ← sum_seenIn hcontext, ← sum_seenIn hcontext, ← sum_add_distrib,
    guessedRight, mul_sum]
  apply sum_le_sum
  intro b _
  rw [two_mul]
  exact Nat.add_le_add (le_max_left _ _) (le_max_right _ _)

end Guessing

/-! ### The low bits of a context -/

/-- The contexts with the same low bits, in the order in which a loop meets them. -/
lemma seenIn_mod {m n : ℕ} (hmn : m ≤ n) (count : ℕ → ℕ) {i : ℕ} (hi : i < 2 ^ m) :
    seenIn (range (2 ^ n)) (fun a => a % 2 ^ m) count i =
      ∑ j ∈ range (2 ^ (n - m)), count (i + j * 2 ^ m) := by
  have hpow : 2 ^ n = 2 ^ (n - m) * 2 ^ m := by rw [← pow_add, Nat.sub_add_cancel hmn]
  symm
  apply sum_nbij' (fun j => i + j * 2 ^ m) (fun a => a / 2 ^ m)
  · intro j hj
    have hj := mem_range.mp hj
    refine mem_filter.mpr ⟨mem_range.mpr ?_, ?_⟩
    · calc i + j * 2 ^ m < (j + 1) * 2 ^ m := by
            rw [Nat.add_mul, Nat.one_mul, Nat.add_comm]
            exact Nat.add_lt_add_left hi _
        _ ≤ 2 ^ n := hpow ▸ Nat.mul_le_mul_right _ hj
    · exact (Nat.add_mul_mod_self_right i j (2 ^ m)).trans (Nat.mod_eq_of_lt hi)
  · intro a ha
    refine mem_range.mpr ((Nat.div_lt_iff_lt_mul (Nat.two_pow_pos m)).mpr ?_)
    exact hpow ▸ mem_range.mp (mem_filter.mp ha).1
  · intro j _
    rw [Nat.add_mul_div_right _ _ (Nat.two_pow_pos m), Nat.div_eq_of_lt hi, Nat.zero_add]
  · intro a ha
    rw [← (mem_filter.mp ha).2]
    exact Nat.mod_add_div' a (2 ^ m)
  · exact fun _ _ => rfl

/-- Low bits of low bits. -/
lemma guessedRight_mod_le {l m n : ℕ} (hlm : l ≤ m) (zeros ones : ℕ → ℕ) :
    guessedRight (range (2 ^ n)) (range (2 ^ l)) (fun a => a % 2 ^ l) zeros ones ≤
      guessedRight (range (2 ^ n)) (range (2 ^ m)) (fun a => a % 2 ^ m) zeros ones := by
  have hmerge : (fun a => a % 2 ^ l) = (fun a => a % 2 ^ l) ∘ fun a => a % 2 ^ m := by
    funext a
    exact (Nat.mod_mod_of_dvd a (pow_dvd_pow 2 hlm)).symm
  rw [hmerge]
  apply guessedRight_comp_le
  · exact fun a _ => mem_range.mpr (Nat.mod_lt a (Nat.two_pow_pos m))
  · exact fun a _ => mem_range.mpr (Nat.mod_lt a (Nat.two_pow_pos l))

end Core
