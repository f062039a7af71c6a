import Infnoise.Keccak.Sources
import Mathlib.Tactic.IntervalCases

/-!
# The two Keccak sources agree

Once `KeccakInitialize` has run, whatever the tables held before, the reference permutation,
absorption and extraction compute what the kernel port computes.
-/

namespace Reference

open Core Kernel

/-! ### Rotation -/

lemma keccakRol64_eq (x : Lane) {n : ℕ} (hn : n < 64) : keccakRol64 x n = rol64 x n := by
  have hmask : n &&& 63 = n := by
    rw [show 63 = 2 ^ 6 - 1 from rfl, Nat.and_two_pow_sub_one_eq_mod]
    exact Nat.mod_eq_of_lt hn
  simp only [keccakRol64, rol64, hmask]
  by_cases h0 : n = 0
  · simp [h0]
  · rw [if_neg h0, if_pos h0]
    apply BitVec.eq_of_getLsbD_eq
    intro i hi
    simp only [BitVec.getLsbD_or, BitVec.getLsbD_xor, BitVec.getLsbD_shiftLeft,
      BitVec.getLsbD_ushiftRight]
    -- the two halves of a rotated word have no bit in common
    by_cases hin : i < n
    · simp [hin]
    · rw [BitVec.getLsbD_of_ge x (64 - n + i) (by omega)]
      simp

/-! ### The tables -/

/-- The round constants do not depend on what their table held: a round clears its entry first. -/
lemma keccakInitializeRoundConstants_eq (table : Vector Lane 24) :
    keccakInitializeRoundConstants table = keccakRoundConstants := by
  have hzero : keccakInitializeRoundConstants (.replicate 24 0) = keccakRoundConstants := by
    decide +kernel
  rw [← hzero]
  apply Vector.ext
  intro k hk
  unfold keccakInitializeRoundConstants
  -- after `i` rounds the registers are equal, and so are the first `i` constants
  refine (forLoop_rel (fun i (a b : Byte × Vector Lane 24) =>
    a.1 = b.1 ∧ ∀ (k : ℕ) (_ : k < 24), k < i → a.2[k] = b.2[k]) ?_ ?_).2 k hk hk
  · simp
  · intro i (hi : i < 24) a b hab
    have hi24 : i % 24 = i := Nat.mod_eq_of_lt hi
    refine forLoop_rel (n := 7) (fun _ (a b : Byte × Vector Lane 24) =>
      a.1 = b.1 ∧ ∀ (k : ℕ) (_ : k < 24), k < i + 1 → a.2[k] = b.2[k]) ?_ ?_
    · refine ⟨hab.1, fun k hk hki => ?_⟩
      simp only [Vector.getElem_set]
      split
      · rfl
      · exact hab.2 k hk (by omega)
    · intro j _ a b hab
      refine ⟨by rw [hab.1], fun k hk hki => ?_⟩
      simp only [hab.1]
      split
      · have hself := hab.2 i hi (Nat.lt_succ_self i)
        simp only [Vector.getElem_set, hi24, hab.2 k hk hki, hself]
      · exact hab.2 k hk hki

/-- The walk of `KeccakInitializeRhoOffsets` after `t` steps. -/
def rhoWalk : ℕ → ℕ × ℕ
  | 0 => (1, 0)
  | t + 1 => ((0 * (rhoWalk t).1 + 1 * (rhoWalk t).2) % 5,
      (2 * (rhoWalk t).1 + 3 * (rhoWalk t).2) % 5)

/-- From `(1, 0)` the walk visits every lane but the first. -/
lemma rhoWalk_visits : ∀ k : Fin 25, k = index 0 0 ∨
    ∃ t : Fin 24, index (rhoWalk t).1 (rhoWalk t).2 = k := by
  decide +kernel

/-- The offsets do not depend on what their table held: the walk sets every entry. -/
lemma keccakInitializeRhoOffsets_eq (table : Vector ℕ 25) :
    keccakInitializeRhoOffsets table = keccakRhoOffsets := by
  have hzero : keccakInitializeRhoOffsets (.replicate 25 0) = keccakRhoOffsets := by
    decide +kernel
  rw [← hzero]
  apply Vector.ext
  intro k hk
  unfold keccakInitializeRhoOffsets
  -- both walks stand at the same lane, and the entries passed so far are equal
  refine (forLoop_rel (fun i (a b : ℕ × ℕ × Vector ℕ 25) =>
    (a.1, a.2.1) = rhoWalk i ∧ (b.1, b.2.1) = rhoWalk i ∧
      ∀ k : Fin 25, (k = index 0 0 ∨ ∃ t < i, index (rhoWalk t).1 (rhoWalk t).2 = k) →
        a.2.2[k] = b.2.2[k]) ?_ ?_).2.2 ⟨k, hk⟩ ?_
  · refine ⟨rfl, rfl, ?_⟩
    rintro k (rfl | ⟨t, ht, _⟩)
    · simp only [Fin.getElem_fin, Vector.getElem_set_self]
    · exact absurd ht (Nat.not_lt_zero t)
  · rintro i _ ⟨x, y, a⟩ ⟨x', y', b⟩ ⟨hxy, hxy', heq⟩
    obtain ⟨rfl, rfl⟩ : x' = x ∧ y' = y := by
      rw [← hxy', Prod.mk.injEq] at hxy
      exact ⟨hxy.1.symm, hxy.2.symm⟩
    refine ⟨by rw [rhoWalk, ← hxy], by rw [rhoWalk, ← hxy], fun k hk => ?_⟩
    simp only [Fin.getElem_fin, Vector.getElem_set]
    split
    · rfl
    · rename_i hne
      refine heq k (hk.imp_right ?_)
      rintro ⟨t, ht, htk⟩
      refine ⟨t, lt_of_le_of_ne (Nat.lt_succ_iff.mp ht) ?_, htk⟩
      rintro rfl
      rw [← hxy] at htk
      exact hne (congrArg Fin.val htk)
  · rcases rhoWalk_visits ⟨k, hk⟩ with hfirst | ⟨t, ht⟩
    · exact .inl hfirst
    · exact .inr ⟨t, t.isLt, ht⟩

lemma keccakInitialize_eq (tables : KeccakTables) :
    keccakInitialize tables = ⟨keccakRoundConstants, keccakRhoOffsets⟩ := by
  rw [keccakInitialize, keccakInitializeRoundConstants_eq, keccakInitializeRhoOffsets_eq]

/-! ### The steps -/

lemma theta_eq (a : Words) : keccakTheta a = theta a := by
  simp only [keccakTheta, theta, keccakRol64_eq _ (by norm_num : 1 < 64)]
  rfl

lemma pi_eq (a : Words) : keccakPi a = pi a := by
  simp only [keccakPi, pi, Nat.zero_mul, Nat.zero_add, Nat.one_mul]
  rfl

lemma chi_eq (a : Words) : keccakChi a = chi a := rfl

lemma iota_eq (tables : KeccakTables) (a : Words) (round : ℕ) :
    keccakIota a round = iota (keccakInitialize tables) a round := by
  rw [keccakInitialize_eq]
  rfl

lemma rho_eq (tables : KeccakTables) (a : Words) :
    keccakRho a = rho (keccakInitialize tables) a := by
  apply words_ext
  intro k
  rw [keccakRho_getElem, rho_getElem, keccakInitialize_eq, keccakRol64_eq _ (keccakRhoOffsets_lt k)]

/-! ### The sponge functions -/

lemma keccakPermutation_eq (tables : KeccakTables) (state : KeccakState) :
    infnoiseKeccakPermutation state = keccakPermutation (keccakInitialize tables) state := by
  have hwords : ∀ words, Kernel.keccakPermutationOnWords words =
      keccakPermutationOnWords (keccakInitialize tables) words := by
    intro words
    apply forLoop_congr
    intro i _ a
    rw [theta_eq, rho_eq tables, pi_eq, chi_eq, iota_eq tables]
  rw [infnoiseKeccakPermutation, hwords]
  rfl

lemma keccakAbsorb_eq (tables : KeccakTables) (state : KeccakState) (data : ℕ → Byte)
    (laneCount : ℕ) :
    infnoiseKeccakAbsorb state data laneCount =
      keccakAbsorb (keccakInitialize tables) state data laneCount := by
  rw [infnoiseKeccakAbsorb, keccakPermutation_eq tables]
  rfl

lemma keccakExtract_eq (state : KeccakState) (data : ℕ → Byte) {laneCount : ℕ}
    (hlanes : laneCount ≤ 25) :
    infnoiseKeccakExtract state data laneCount = keccakExtract state data laneCount := by
  rw [infnoiseKeccakExtract, keccakExtract, min_eq_left (by omega)]

/-- However the two sources are built, and whatever the tables held before `KeccakInitialize`, the
permutation, the absorption and the extraction of up to 25 lanes leave the same bytes. They are
the bytes of the models used elsewhere. -/
theorem keccak_port_agrees (order : ByteOrder) (tables : KeccakTables) (state : KeccakState) :
    (infnoiseKeccakPermutationOn order state =
        keccakPermutationOn (keccakInitialize tables) order state ∧
      infnoiseKeccakPermutationOn order state = infnoiseKeccakPermutation state) ∧
    ∀ lanes ≤ 25, ∀ data,
      (infnoiseKeccakAbsorbOn order state data lanes =
          keccakAbsorbOn (keccakInitialize tables) order state data lanes ∧
        infnoiseKeccakAbsorbOn order state data lanes = infnoiseKeccakAbsorb state data lanes) ∧
      infnoiseKeccakExtract state data lanes = keccakExtract state data lanes := by
  have hperm : ∀ state, infnoiseKeccakPermutationOn order state =
      keccakPermutationOn (keccakInitialize tables) order state := by
    intro state
    rw [infnoiseKeccakPermutationOn_eq, keccakPermutationOn_eq, keccakPermutation_eq tables]
  refine ⟨⟨hperm state, infnoiseKeccakPermutationOn_eq order state⟩, fun lanes hlanes data => ?_⟩
  refine ⟨⟨?_, ?_⟩, keccakExtract_eq state data hlanes⟩
  · rw [infnoiseKeccakAbsorbOn, keccakAbsorbOn, hperm]
  · rw [infnoiseKeccakAbsorbOn, infnoiseKeccakAbsorb, infnoiseKeccakPermutationOn_eq]

end Reference
