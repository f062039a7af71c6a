import Mathlib.Algebra.Module.End
import Mathlib.Tactic.Abel

/-!
# Sums of shifted copies

A map on the functions of a commutative group that adds up shifted copies of its argument. Where
every value is its own negative, squaring such a map doubles its shifts, so a high enough power of
it can be computed, and one that is the identity shows that the map loses nothing.
-/

namespace Core

variable {G A : Type*} [AddCommGroup G] [AddCommGroup A]

/-- The copy of a function shifted by `g`. -/
def shift (g : G) : AddMonoid.End (G → A) where
  toFun f x := f (x + g)
  map_zero' := rfl
  map_add' _ _ := rfl

/-- A function and two shifted copies of it, added up. -/
def mix (g h : G) : AddMonoid.End (G → A) := 1 + shift g + shift h

@[simp] lemma mix_apply (g h : G) (f : G → A) (x : G) :
    mix g h f x = f x + f (x + g) + f (x + h) := rfl

/-- The mixed terms of a product come in pairs. -/
lemma mix_mul_self (hA : ∀ a : A, a + a = 0) (g h : G) :
    (mix g h * mix g h : AddMonoid.End (G → A)) = mix (2 • g) (2 • h) := by
  ext f x
  change mix g h (mix g h f) x = mix (2 • g) (2 • h) f x
  simp only [mix_apply]
  have hcomm : x + h + g = x + g + h := add_right_comm x h g
  calc f x + f (x + g) + f (x + h) + (f (x + g) + f (x + g + g) + f (x + g + h)) +
        (f (x + h) + f (x + h + g) + f (x + h + h))
      = f x + f (x + g + g) + f (x + h + h) + (f (x + g) + f (x + g)) + (f (x + h) + f (x + h)) +
          (f (x + g + h) + f (x + g + h)) := by rw [hcomm]; abel
    _ = f x + f (x + 2 • g) + f (x + 2 • h) := by
        rw [hA, hA, hA, add_zero, add_zero, add_zero, two_nsmul, two_nsmul, add_assoc x g g,
          add_assoc x h h]

lemma mix_pow_two_pow (hA : ∀ a : A, a + a = 0) (g h : G) (k : ℕ) :
    (mix g h ^ 2 ^ k : AddMonoid.End (G → A)) = mix (2 ^ k • g) (2 ^ k • h) := by
  induction k with
  | zero => rw [pow_zero, pow_one, one_nsmul, one_nsmul]
  | succ k ih => rw [pow_succ, pow_mul, ih, sq, mix_mul_self hA, smul_smul, smul_smul, mul_comm]

/-- The map of the polynomial `1 + x + x⁴` has order three where `x` has order five. -/
lemma mix_cube (hA : ∀ a : A, a + a = 0) {g : G} (hg : 5 • g = 0) :
    (mix g (4 • g) ^ 3 : AddMonoid.End (G → A)) = 1 := by
  rw [pow_succ, sq, mix_mul_self hA]
  ext f x
  change mix (2 • g) (2 • 4 • g) (mix g (4 • g) f) x = f x
  have hmod : ∀ n : ℕ, n • g = (n % 5) • g := by
    intro n
    conv_lhs => rw [← Nat.div_add_mod n 5, add_nsmul, mul_nsmul, hg, nsmul_zero, zero_add]
  have hcopy : ∀ n : ℕ, mix g (4 • g) f (x + n • g) =
      f (x + (n % 5) • g) + f (x + ((n + 1) % 5) • g) + f (x + ((n + 4) % 5) • g) := by
    intro n
    rw [mix_apply, add_assoc x, add_assoc x, ← succ_nsmul, ← add_nsmul, hmod n, hmod (n + 1),
      hmod (n + 4)]
  have h0 := hcopy 0
  rw [zero_nsmul, add_zero] at h0
  rw [mix_apply, smul_smul, h0, hcopy, hcopy]
  norm_num only [Nat.reduceMod, zero_nsmul, one_nsmul, add_zero]
  calc f x + f (x + g) + f (x + 4 • g) + (f (x + 2 • g) + f (x + 3 • g) + f (x + g)) +
        (f (x + 3 • g) + f (x + 4 • g) + f (x + 2 • g))
      = f x + (f (x + g) + f (x + g)) + (f (x + 2 • g) + f (x + 2 • g)) +
          (f (x + 3 • g) + f (x + 3 • g)) + (f (x + 4 • g) + f (x + 4 • g)) := by abel
    _ = f x := by rw [hA, hA, hA, hA, add_zero, add_zero, add_zero, add_zero]

/-- An endomorphism with a power that is the identity loses nothing. -/
lemma injective_of_pow_eq_one {M : Type*} [AddCommMonoid M] {φ : AddMonoid.End M} {n : ℕ}
    (hn : 0 < n) (h : φ ^ n = 1) : Function.Injective φ := by
  obtain ⟨m, rfl⟩ : ∃ m, n = m + 1 := ⟨n - 1, by omega⟩
  have hleft : Function.LeftInverse (φ ^ m) φ := by
    intro x
    have hx := DFunLike.congr_fun h x
    rwa [pow_succ] at hx
  exact hleft.injective

end Core
