import Mathlib.Algebra.Order.Field.Rat
import Mathlib.Tactic.IntervalCases
import Mathlib.Tactic.Linarith
import Mathlib.Tactic.NormNum
import Mathlib.Tactic.Ring

/-!
# A meter of entropy per sample

A meter counts samples and the bits of entropy in them, and halves both counters when there are
80000 samples. This module follows a meter over the stream of a maximal shift register with windows
of 15 bits: nothing is gained in the first two periods, where no context has been seen with both
bits, and afterwards every bit gains one or two, but for one bit in each period.
-/

namespace Core.Meter

/-- The samples counted after `t` bits. -/
def samples (t : ℕ) : ℕ := if t < 80000 then t else 40000 + (t - 80000) % 40000

lemma samples_lt (t : ℕ) : samples t < 80000 := by
  rw [samples]
  split_ifs <;> omega

lemma le_samples {t : ℕ} (ht : 80000 ≤ t) : 40000 ≤ samples t := by
  rw [samples, if_neg (by omega)]
  omega

lemma samples_succ (t : ℕ) :
    samples (t + 1) = if samples t + 1 = 80000 then 40000 else samples t + 1 := by
  simp only [samples]
  split_ifs <;> omega

/-- The entropy counted after a bit that gains `gain`. -/
def entropyAfter (t entropy gain : ℕ) : ℕ :=
  if samples t + 1 = 80000 then (entropy + gain) / 2 else entropy + gain

/-- What bit `t` can gain. -/
structure Gain (t gain : ℕ) : Prop where
  none : t < 65534 → gain = 0
  le_two : t < 196602 → gain ≤ 2
  pos : 65534 ≤ t → t < 196602 → t % 32767 ≠ 0 → 1 ≤ gain

/-- How much entropy there can be after `t` bits. -/
structure Bounds (t entropy : ℕ) : Prop where
  none : t ≤ 65534 → entropy = 0
  first : 65534 ≤ t → t < 80000 →
    t ≤ entropy + (t + 32766) / 32767 + 65532 ∧ entropy ≤ 2 * (t - 65534)
  second : 80000 ≤ t → t < 120000 → t ≤ entropy + (t + 32766) / 32767 + 72765
  start : 80000 ≤ t → t ≤ 80384 → entropy ≤ 14466 + 2 * (t - 80000)
  third : 120000 ≤ t → t < 160000 → t ≤ entropy + (t + 32766) / 32767 + 96381
  fourth : 160000 ≤ t → t ≤ 190976 → t ≤ entropy + (t + 32766) / 32767 + 128188

lemma bounds_zero : Bounds 0 0 := by
  constructor <;> omega

lemma Bounds.step {t entropy gain : ℕ} (h : Bounds t entropy) (hgain : Gain t gain)
    (ht : t < 190976) : Bounds (t + 1) (entropyAfter t entropy gain) := by
  obtain ⟨hnone, hfirst, hsecond, hstart, hthird, hfourth⟩ := h
  obtain ⟨gnone, gle, gpos⟩ := hgain
  have hle := gle (by omega)
  -- the bit gains, or a period ends here
  have hgain' : 65534 ≤ t → 1 ≤ gain + ((t + 1 + 32766) / 32767 - (t + 32766) / 32767) := by
    intro h65
    by_cases hmod : t % 32767 = 0
    · omega
    · have := gpos h65 (by omega) hmod
      omega
  rw [entropyAfter, samples]
  constructor
  · intro h
    split_ifs <;> omega
  · intro h h'
    split_ifs <;> omega
  · intro h h'
    split_ifs <;> omega
  · intro h h'
    split_ifs <;> omega
  · intro h h'
    split_ifs <;> omega
  · intro h h'
    split_ifs <;> omega

/-! ### The excess over a rate -/

/-- The bits of entropy above `c` per sample. -/
def excess (c : ℚ) (t entropy : ℕ) : ℚ := entropy - c * samples t

section

variable {c : ℚ} {t entropy gain : ℕ}

/-- Unless the window is full, a bit adds what it gains above the rate. -/
lemma excess_succ (h : samples t + 1 ≠ 80000) :
    excess c (t + 1) (entropyAfter t entropy gain) = excess c t entropy + gain - c := by
  rw [excess, excess, entropyAfter, samples_succ, if_neg h, if_neg h]
  push_cast
  ring

/-- When the window is full, the excess is halved, up to half a bit. -/
lemma excess_succ_of_full (h : samples t + 1 = 80000) :
    (excess c t entropy + gain - c - 1) / 2 ≤ excess c (t + 1) (entropyAfter t entropy gain) ∧
      excess c (t + 1) (entropyAfter t entropy gain) ≤ (excess c t entropy + gain - c) / 2 := by
  have hsamples : (samples t : ℚ) = 79999 := by
    have : samples t = 79999 := by omega
    exact_mod_cast this
  have hlow : (entropy + gain : ℚ) ≤ 2 * ((entropy + gain) / 2 : ℕ) + 1 := by
    have : entropy + gain ≤ 2 * ((entropy + gain) / 2) + 1 := by omega
    exact_mod_cast this
  have hhigh : (2 * ((entropy + gain) / 2 : ℕ) : ℚ) ≤ entropy + gain := by
    have : 2 * ((entropy + gain) / 2) ≤ entropy + gain := by omega
    exact_mod_cast this
  rw [excess, excess, entropyAfter, samples_succ, if_pos h, if_pos h, hsamples]
  push_cast
  constructor <;> linarith

end

/-! ### Blocks of 512 bits -/

/-- Bit `t` on the meter. A level rises with the entropy as long as the excess over `c` is in a
range. -/
structure Counts (c : ℚ) (t entropy level entropy' level' gain : ℕ) : Prop where
  gain_of : Gain t gain
  entropy_eq : entropy' = entropyAfter t entropy gain
  level_le : level ≤ level'
  level_le_add : level' ≤ level + gain
  level_eq : 80000 ≤ t → 1 / 20 ≤ excess c t entropy → excess c t entropy ≤ 1300 →
    level' = level + gain

/-- The counters in the course of block `j`. -/
def Path (c : ℚ) (j : ℕ) (entropy level : ℕ → ℕ) : Prop :=
  ∀ k < 512, ∃ gain,
    Counts c (512 * j + k) (entropy k) (level k) (entropy (k + 1)) (level (k + 1)) gain

section

variable {c : ℚ} (hlow : 853 / 1000 ≤ c) (hhigh : c ≤ 855 / 1000) {j : ℕ} (hj : 157 ≤ j)
  (hj' : j < 372) {entropy level : ℕ → ℕ} (h : Path c j entropy level)

include hlow hj' h in
/-- The excess grows by less than 1.147 bits with every bit. -/
lemma Path.excess_le {u : ℚ} (hu : 0 ≤ u) (h0 : excess c (512 * j) (entropy 0) ≤ u) {k : ℕ}
    (hk : k ≤ 512) : excess c (512 * j + k) (entropy k) ≤ u + 1147 / 1000 * k := by
  induction k with
  | zero => simpa using h0
  | succ k ih =>
    have ih := ih (by omega)
    obtain ⟨gain, hgain, heq, _⟩ := h k (by omega)
    have hle : (gain : ℚ) ≤ 2 := by exact_mod_cast hgain.le_two (by omega)
    have hk0 : (0 : ℚ) ≤ k := Nat.cast_nonneg k
    rw [← Nat.add_assoc, heq]
    push_cast
    by_cases hfull : samples (512 * j + k) + 1 = 80000
    · obtain ⟨_, hhalf⟩ := @excess_succ_of_full c _ (entropy k) gain hfull
      linarith
    · rw [excess_succ hfull]
      linarith

include hj hj' in
/-- In these blocks a period can only end in the last 12 bits. -/
lemma mod_ne_zero {k : ℕ} (hk : k < 500) : (512 * j + k) % 32767 ≠ 0 := by
  have hq : (512 * j + k) / 32767 < 6 := by omega
  intro hmod
  have hdiv := Nat.div_add_mod (512 * j + k) 32767
  rw [hmod] at hdiv
  generalize (512 * j + k) / 32767 = q at hq hdiv
  interval_cases q <;> omega

include hj hj' in
/-- The window is not full there. -/
lemma samples_add_one_ne {k : ℕ} (hk : 500 ≤ k) (hk' : k < 512) :
    samples (512 * j + k) + 1 ≠ 80000 := by
  have hq : (512 * j + k + 1) / 40000 < 5 := by omega
  intro hfull
  have hmod : (512 * j + k + 1) % 40000 = 0 := by
    rw [samples, if_neg (by omega)] at hfull
    omega
  have hdiv := Nat.div_add_mod (512 * j + k + 1) 40000
  rw [hmod] at hdiv
  generalize (512 * j + k + 1) / 40000 = q at hq hdiv
  interval_cases q <;> omega

include hhigh hj hj' h in
/-- An excess that is not negative at the start of a block is positive from its eighth bit on. -/
lemma Path.le_excess (h0 : 0 ≤ excess c (512 * j) (entropy 0)) {k : ℕ} (hk : 8 ≤ k)
    (hk' : k ≤ 512) : 1 / 20 ≤ excess c (512 * j + k) (entropy k) := by
  -- in the first 500 bits every bit gains, and the window is full at most once
  have hmain : ∀ k ≤ 500,
      (samples (512 * j + k) = samples (512 * j) + k ∧
          145 / 1000 * k ≤ excess c (512 * j + k) (entropy k)) ∨
        (samples (512 * j + k) + 40000 = samples (512 * j) + k ∧
          145 / 2000 * k - 1 / 2 ≤ excess c (512 * j + k) (entropy k)) := by
    intro k hk
    induction k with
    | zero => exact .inl ⟨rfl, by simpa using h0⟩
    | succ k ih =>
      obtain ⟨gain, hgain, heq, _⟩ := h k (by omega)
      have hpos : (1 : ℚ) ≤ gain := by
        exact_mod_cast hgain.pos (by omega) (by omega) (mod_ne_zero hj hj' (by omega))
      have hlt := samples_lt (512 * j)
      have hsucc := samples_succ (512 * j + k)
      rw [← Nat.add_assoc, heq]
      push_cast
      by_cases hfull : samples (512 * j + k) + 1 = 80000
      · obtain ⟨hhalf, _⟩ := @excess_succ_of_full c _ (entropy k) gain hfull
        rw [if_pos hfull] at hsucc
        rcases ih (by omega) with ⟨hsamples, hle⟩ | ⟨hsamples, hle⟩
        · exact .inr ⟨by omega, by linarith⟩
        · omega
      · rw [if_neg hfull] at hsucc
        rw [excess_succ hfull]
        rcases ih (by omega) with ⟨hsamples, hle⟩ | ⟨hsamples, hle⟩
        · exact .inl ⟨by omega, by linarith⟩
        · exact .inr ⟨by omega, by linarith⟩
  have hfirst : ∀ k ≤ 500, 145 / 2000 * k - 1 / 2 ≤ excess c (512 * j + k) (entropy k) := by
    intro k hk
    have hk0 : (0 : ℚ) ≤ k := Nat.cast_nonneg k
    rcases hmain k hk with ⟨_, hle⟩ | ⟨_, hle⟩ <;> linarith
  by_cases h500 : k ≤ 500
  · have hk8 : (8 : ℚ) ≤ k := by exact_mod_cast hk
    linarith [hfirst k h500]
  · -- the last bits need not gain, but the window is not full there
    have hlast : ∀ i ≤ 12, 35 - 855 / 1000 * i ≤
        excess c (512 * j + (500 + i)) (entropy (500 + i)) := by
      intro i hi
      induction i with
      | zero =>
        have := hfirst 500 le_rfl
        push_cast at this ⊢
        linarith
      | succ i ih =>
        have ih := ih (by omega)
        obtain ⟨gain, _, heq, _⟩ := h (500 + i) (by omega)
        have hpos : (0 : ℚ) ≤ gain := Nat.cast_nonneg gain
        have hfull := samples_add_one_ne hj hj' (k := 500 + i) (by omega) (by omega)
        rw [← Nat.add_assoc 500, ← Nat.add_assoc, heq, excess_succ hfull]
        push_cast at ih ⊢
        linarith
    have hi : ((k - 500 : ℕ) : ℚ) ≤ 12 := by exact_mod_cast (by omega : k - 500 ≤ 12)
    have := hlast (k - 500) (by omega)
    rw [show 500 + (k - 500) = k by omega] at this
    linarith

include hlow hhigh hj hj' h in
/-- A block that starts with the rate reached, and not by far exceeded, ends so. -/
lemma Path.excess_bounds (h0 : 0 ≤ excess c (512 * j) (entropy 0))
    (h700 : excess c (512 * j) (entropy 0) ≤ 700) {k : ℕ} (hk : 8 ≤ k) (hk' : k ≤ 512) :
    1 / 20 ≤ excess c (512 * j + k) (entropy k) ∧
      excess c (512 * j + k) (entropy k) ≤ 1300 := by
  have hle := h.excess_le hlow hj' (by norm_num) h700 hk'
  have hkq : (k : ℚ) ≤ 512 := by exact_mod_cast hk'
  exact ⟨h.le_excess hhigh hj hj' h0 hk hk', by linarith⟩

include hlow hhigh hj hj' h in
/-- Most bits of such a block count. -/
lemma Path.le_level (h0 : 0 ≤ excess c (512 * j) (entropy 0))
    (h700 : excess c (512 * j) (entropy 0) ≤ 700) : 437 ≤ level 512 := by
  have hcount : ∀ i ≤ 492, i ≤ level (8 + i) := by
    intro i hi
    induction i with
    | zero => exact Nat.zero_le _
    | succ i ih =>
      have ih := ih (by omega)
      obtain ⟨gain, hcounts⟩ := h (8 + i) (by omega)
      obtain ⟨hle, hle'⟩ := h.excess_bounds hlow hhigh hj hj' h0 h700
        (by omega : 8 ≤ 8 + i) (by omega)
      have hlevel := hcounts.level_eq (by omega) hle hle'
      have hgain := hcounts.gain_of.pos (by omega) (by omega) (mod_ne_zero hj hj' (by omega))
      rw [← Nat.add_assoc]
      omega
  have hmono : ∀ i ≤ 12, 492 ≤ level (500 + i) := by
    intro i hi
    induction i with
    | zero => exact hcount 492 le_rfl
    | succ i ih =>
      obtain ⟨gain, hcounts⟩ := h (500 + i) (by omega)
      exact (ih (by omega)).trans hcounts.level_le
  exact le_trans (by norm_num) (hmono 12 le_rfl)

end

/-! ### Where the rate is crossed -/

/-- At block 157 the rate is far from being reached. -/
lemma Bounds.excess_le {c : ℚ} (hlow : 853 / 1000 ≤ c) {entropy : ℕ}
    (h : Bounds (512 * 157) entropy) : excess c (512 * 157) entropy ≤ 600 := by
  have hle : (entropy : ℚ) ≤ 15234 := by
    have := h.start (by norm_num) (by norm_num)
    norm_num at this
    exact_mod_cast this
  have hsamples : (samples (512 * 157) : ℚ) = 40384 := by
    have : samples (512 * 157) = 40384 := by norm_num [samples]
    exact_mod_cast this
  rw [excess, hsamples]
  linarith

/-- At block 371 it is exceeded. -/
lemma Bounds.lt_excess {c : ℚ} (hhigh : c ≤ 855 / 1000) {entropy : ℕ}
    (h : Bounds (512 * 371) entropy) : 600 < excess c (512 * 371) entropy := by
  have hle : 61758 ≤ entropy := by
    have := h.fourth (by norm_num) (by norm_num)
    omega
  have hle' : (61758 : ℚ) ≤ entropy := by exact_mod_cast hle
  have hsamples : (samples (512 * 371) : ℚ) = 69952 := by
    have : samples (512 * 371) = 69952 := by norm_num [samples]
    exact_mod_cast this
  rw [excess, hsamples]
  linarith

/-! ### The search for a block that reaches the rate -/

/-- The rate is not by far exceeded at block `j`. -/
def Low (c : ℚ) (j entropy : ℕ) : Prop := 157 ≤ j → excess c (512 * j) entropy ≤ 600

section

variable {c : ℚ} (hlow : 853 / 1000 ≤ c) (hhigh : c ≤ 855 / 1000)

include hlow in
/-- A block that starts below the rate does not end far above it. -/
lemma Path.low {j : ℕ} (hj : j < 372) {entropy level : ℕ → ℕ} (h : Path c j entropy level)
    (hbounds : Bounds (512 * (j + 1)) (entropy 512))
    (hnot : 157 ≤ j → excess c (512 * j) (entropy 0) < 1 / 20) :
    Low c (j + 1) (entropy 512) := by
  intro hj157
  rcases Nat.lt_or_ge j 157 with hlt | hge
  · obtain rfl : j = 156 := by omega
    exact hbounds.excess_le hlow
  · have hle := h.excess_le hlow hj (u := 1 / 20) (by norm_num) (hnot hge).le (k := 512) le_rfl
    rw [show 512 * (j + 1) = 512 * j + 512 by ring]
    push_cast at hle
    linarith

include hhigh in
/-- The search ends at block 371. -/
lemma Low.lt {j : ℕ} {entropy : ℕ} (h : Low c j entropy) (hbounds : Bounds (512 * j) entropy) :
    j ≠ 371 := by
  rintro rfl
  exact absurd (h (by norm_num)) (not_le.mpr (hbounds.lt_excess hhigh))

end

end Core.Meter
