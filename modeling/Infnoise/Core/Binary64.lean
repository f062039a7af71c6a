import Mathlib

/-!
# Enclosures for binary64

`IsNormal x q` says that the number `x` is normal, positive and equal to the rational `q`. A product
or a quotient is rounded to a neighbour of the exact result, so it stays between any two normal
numbers the exact result lies between. Comparisons of normal numbers are those of the rationals.
-/

namespace Core.Binary64

open Float.Model Float.Model.UnpackedFloat

/-! ### Rounding -/

/-- The number `y` that a mantissa with residual bits stands for lies in the unit from the
mantissa on, and both bits are clear exactly when it is the mantissa. -/
structure Encloses (em : ExtendedMantissa) (y : ℚ) : Prop where
  le : (em.mantissa : ℚ) ≤ y
  lt : y < em.mantissa + 1
  exact_iff : (em.roundBit = false ∧ em.stickyBit = false) ↔ y = em.mantissa

lemma Encloses.shiftRightOne {em : ExtendedMantissa} {y : ℚ} (h : Encloses em y) :
    Encloses em.shiftRightOne (y / 2) := by
  have hdiv : ((2 * (em.mantissa / 2) + em.mantissa % 2 : ℕ) : ℚ) = em.mantissa := by
    rw [Nat.div_add_mod]
  push_cast at hdiv
  have hle := h.le
  have hlt := h.lt
  rcases Nat.mod_two_eq_zero_or_one em.mantissa with hmod | hmod
  · rw [hmod, Nat.cast_zero] at hdiv
    refine ⟨?_, ?_, ?_⟩
    · simp only [ExtendedMantissa.shiftRightOne]
      linarith
    · simp only [ExtendedMantissa.shiftRightOne]
      linarith
    · have hiff : y / 2 = ((em.mantissa / 2 : ℕ) : ℚ) ↔ y = em.mantissa := by
        constructor <;> intro heq <;> linarith
      simp only [ExtendedMantissa.shiftRightOne, hmod, bne_self_eq_false, true_and,
        Bool.or_eq_false_iff, hiff]
      exact h.exact_iff
  · rw [hmod, Nat.cast_one] at hdiv
    refine ⟨?_, ?_, ?_⟩
    · simp only [ExtendedMantissa.shiftRightOne]
      linarith
    · simp only [ExtendedMantissa.shiftRightOne]
      linarith
    · -- the bit shifted out is set, and the number is above the new mantissa
      have hne : y / 2 ≠ ((em.mantissa / 2 : ℕ) : ℚ) := by
        intro heq
        linarith
      simp [ExtendedMantissa.shiftRightOne, hmod, hne]

lemma Encloses.shiftRight {em : ExtendedMantissa} {y : ℚ} (h : Encloses em y) (k : ℕ) :
    Encloses (em >>> k) (y / 2 ^ k) := by
  induction k with
  | zero =>
    rw [pow_zero, div_one]
    exact h
  | succ k ih =>
    rw [pow_succ, ← div_div]
    exact ih.shiftRightOne

/-- Rounding to the nearest goes to one of the two integers around the number. -/
lemma Encloses.roundedMantissa {em : ExtendedMantissa} {y : ℚ} (h : Encloses em y) (a : ℕ) :
    ((a : ℚ) ≤ y → a ≤ em.roundedMantissa) ∧ (y ≤ a → em.roundedMantissa ≤ a) := by
  have hle := h.le
  have hlt := h.lt
  obtain ⟨m, r, s⟩ := em
  dsimp only at hle hlt
  have hround : m ≤ (ExtendedMantissa.mk m r s).roundedMantissa ∧
      (ExtendedMantissa.mk m r s).roundedMantissa ≤ m + 1 ∧
      (r = false ∧ s = false → (ExtendedMantissa.mk m r s).roundedMantissa = m) := by
    cases r <;> cases s <;>
      simp only [ExtendedMantissa.roundedMantissa, ExtendedMantissa.accuracy,
        Accuracy.roundToNearestEven] <;> grind
  obtain ⟨hdown, hup, hexact⟩ := hround
  constructor
  · intro ha
    have ham : a < m + 1 := by exact_mod_cast ha.trans_lt hlt
    omega
  · intro ha
    by_cases heq : y = m
    · rw [hexact (h.exact_iff.mpr heq)]
      exact_mod_cast heq ▸ ha
    · have hym : (m : ℚ) < y := lt_of_le_of_ne hle (Ne.symm heq)
      have ham : m < a := by exact_mod_cast hym.trans_le ha
      omega

lemma shiftRight_mantissa (em : ExtendedMantissa) (k : ℕ) :
    (em >>> k).mantissa = em.mantissa / 2 ^ k := by
  induction k with
  | zero =>
    rw [pow_zero, Nat.div_one]
    rfl
  | succ k ih =>
    change (em >>> k).mantissa / 2 = _
    rw [ih, Nat.div_div_eq_div_mul, ← pow_succ]

lemma ofMantissaAndAccuracy_mantissa (m : ℕ) (acc : Accuracy) :
    (ExtendedMantissa.ofMantissaAndAccuracy m acc).mantissa = m := by
  rcases acc with _ | _ | _ | _ <;> rfl

/-- The target exponent of a mantissa with at least 53 bits, above the subnormal range. -/
lemma targetExponent_eq {m k : ℕ} {e : ℤ} (hk : m.log2 = 52 + k) (he : -1074 ≤ e + k) :
    Format.binary64.targetExponent (totalExponent m e) = e + k := by
  simp only [Format.targetExponent, totalExponent, Format.mantissaBits, Format.minExponent, hk]
  omega

lemma shiftToTargetExponent_eq {m k : ℕ} {e : ℤ} (acc : Accuracy) (hk : m.log2 = 52 + k)
    (he : -1074 ≤ e + k) :
    shiftToTargetExponent Format.binary64 m e acc =
      (ExtendedMantissa.ofMantissaAndAccuracy m acc >>> k, e + k) := by
  have hshift : (e + k - e).toNat = k := by omega
  rw [shiftToTargetExponent, targetExponent_eq hk he, shiftToExponent, hshift]

/-- Rounding drops the bits below the 53 highest ones, and carries when that leaves 54. -/
lemma roundWithAccuracy_eq {m k : ℕ} {e : ℤ} {acc : Accuracy} {y : ℚ}
    (hy : Encloses (.ofMantissaAndAccuracy m acc) y) (hk : m.log2 = 52 + k)
    (he : -1074 ≤ e + k) :
    ∃ r : ℕ, (∀ a : ℕ, ((a : ℚ) ≤ y / 2 ^ k → a ≤ r) ∧ (y / 2 ^ k ≤ a → r ≤ a)) ∧
      2 ^ 52 ≤ r ∧ r ≤ 2 ^ 53 ∧
      (∀ h : 0 < r, r < 2 ^ 53 → roundWithAccuracy Format.binary64 .positive m e acc =
        .finite .positive r (e + k) h) ∧
      (r = 2 ^ 53 → roundWithAccuracy Format.binary64 .positive m e acc =
        .finite .positive (2 ^ 52) (e + k + 1) (by norm_num)) := by
  have hm : m ≠ 0 := by
    rintro rfl
    rw [Nat.log2_zero] at hk
    omega
  have hround := (hy.shiftRight k).roundedMantissa
  have hfloor : (ExtendedMantissa.ofMantissaAndAccuracy m acc >>> k).mantissa = m / 2 ^ k := by
    rw [shiftRight_mantissa, ofMantissaAndAccuracy_mantissa]
  obtain ⟨hlow, hhigh⟩ := (Nat.log2_eq_iff hm).mp hk
  have hlow' : 2 ^ 52 ≤ m / 2 ^ k := by
    rw [Nat.le_div_iff_mul_le (Nat.two_pow_pos k), ← pow_add]
    exact hlow
  have hhigh' : m / 2 ^ k < 2 ^ 53 := by
    rw [Nat.div_lt_iff_lt_mul (Nat.two_pow_pos k), ← pow_add]
    exact hhigh.trans_eq (congrArg (2 ^ ·) (by omega))
  have hencl := hy.shiftRight k
  have hge : 2 ^ 52 ≤ (ExtendedMantissa.ofMantissaAndAccuracy m acc >>> k).roundedMantissa := by
    refine (hround (2 ^ 52)).1 (le_trans ?_ hencl.le)
    rw [hfloor]
    exact_mod_cast hlow'
  have hle : (ExtendedMantissa.ofMantissaAndAccuracy m acc >>> k).roundedMantissa ≤ 2 ^ 53 := by
    refine (hround (2 ^ 53)).2 (le_trans hencl.lt.le ?_)
    rw [hfloor]
    exact_mod_cast hhigh'
  refine ⟨_, hround, hge, hle, ?_, ?_⟩
  · intro _ hlt
    have hlog : (ExtendedMantissa.ofMantissaAndAccuracy m acc >>> k).roundedMantissa.log2 =
        52 + 0 := (Nat.log2_eq_iff (by omega)).mpr ⟨by omega, by omega⟩
    rw [roundWithAccuracy, shiftToTargetExponent_eq acc hk he]
    dsimp only
    rw [shiftToTargetExponent_eq .exact hlog (by omega)]
    have hpos : (ExtendedMantissa.ofMantissaAndAccuracy m acc >>> k).roundedMantissa ≠ 0 := by
      omega
    simp only [Nat.cast_zero, add_zero, shiftRight_mantissa, ofMantissaAndAccuracy_mantissa,
      pow_zero, Nat.div_one, hpos, dif_neg, not_false_eq_true]
  · intro heq
    have hlog : (2 ^ 53 : ℕ).log2 = 52 + 1 := Nat.log2_two_pow
    rw [roundWithAccuracy, shiftToTargetExponent_eq acc hk he]
    dsimp only
    rw [heq, shiftToTargetExponent_eq .exact hlog (by omega)]
    simp [shiftRight_mantissa, ofMantissaAndAccuracy_mantissa]

/-! ### Normal numbers -/

/-- `x` is the positive normal number `q`. -/
def IsNormal (x : Float) (q : ℚ) : Prop :=
  ∃ (m : ℕ) (e : ℤ) (hm : 0 < m), x.toModel.unpack = .finite .positive m e hm ∧
    2 ^ 52 ≤ m ∧ m < 2 ^ 53 ∧ -1074 ≤ e ∧ e ≤ 971 ∧ q = m * 2 ^ e

lemma unpackSign_packComponents {spec : Format} {sign : Sign}
    {exponent : BitVec spec.exponentBits} {mantissa : BitVec spec.mantissaBitsWithoutImplicit} :
    unpackSign (packComponents spec sign exponent mantissa) = sign.toBitVec := by
  ext i hi
  obtain rfl : i = 0 := by omega
  simp [unpackSign, packComponents, BitVec.getLsbD_eq_getElem, BitVec.getLsbD_append,
    BitVec.getElem_append]

lemma unpack_pack {m : ℕ} {e : ℤ} (hm : 0 < m) (hlow : 2 ^ 52 ≤ m) (hhigh : m < 2 ^ 53)
    (he : -1074 ≤ e) (he' : e ≤ 971) :
    (Float.Model.pack (.finite .positive m e hm)).unpack = .finite .positive m e hm := by
  have hlog : m.log2 = 52 := (Nat.log2_eq_iff (by omega)).mpr ⟨hlow, hhigh⟩
  -- the biased exponent is neither of the two reserved ones
  obtain ⟨b, hb⟩ : ∃ b : ℕ, (e + 1075 : ℤ) = b := ⟨(e + 1075).toNat, by omega⟩
  have hb0 : b ≠ 0 := by omega
  have hb2047 : b < 2047 := by omega
  have hbias : (e + (1023 : ℕ) + (52 : ℕ)).toNat = b := by omega
  have hbits : (BitVec.ofNat 11 b).toNat = b := by
    rw [BitVec.toNat_ofNat, Nat.mod_eq_of_lt (by omega)]
  have hones : BitVec.ofNat 11 b ≠ -1#11 := by
    intro heq
    have := congrArg BitVec.toNat heq
    rw [hbits] at this
    simp at this
    omega
  have hzero : BitVec.ofNat 11 b ≠ 0#11 := by
    intro heq
    have := congrArg BitVec.toNat heq
    rw [hbits] at this
    simp at this
    omega
  have hmant : (1#1 ++ BitVec.ofNat 52 m).toNat = m := by
    rw [BitVec.toNat_append, BitVec.toNat_ofNat]
    simp only [BitVec.toNat_ofNat, Nat.one_mod, Nat.reducePow]
    rw [← Nat.shiftLeft_add_eq_or_of_lt (by omega)]
    simp only [Nat.shiftLeft_eq]
    omega
  have hpack : UnpackedFloat.pack Format.binary64 (.finite .positive m e hm) =
      packComponents Format.binary64 .positive (BitVec.ofNat 11 b) (BitVec.ofNat 52 m) := by
    have hnormal : ¬ 2 ^ 11 ≤ b + 1 := by omega
    simp only [UnpackedFloat.pack, hlog, Format.exponentBias, Format.mantissaBits,
      show (2 ^ (11 - 1) - 1 : ℕ) = 1023 from rfl, hbias]
    rw [if_neg hnormal, if_pos trivial]
  change UnpackedFloat.unpack Format.binary64
    (UnpackedFloat.pack Format.binary64 (.finite .positive m e hm)) = _
  rw [hpack]
  simp only [UnpackedFloat.unpack, unpackExponent_packComponents, unpackMantissa_packComponents]
  rw [if_neg hones, if_neg hzero]
  simp only [hmant, hbits, Format.exponentBias]
  congr 1
  · rw [unpackSign_packComponents]
    rfl
  · omega

/-- A number is recognised by its components. -/
lemma isNormal_of_eq {x : Float} {m : ℕ} {e : ℤ} (hm : 0 < m) (hlow : 2 ^ 52 ≤ m)
    (hhigh : m < 2 ^ 53) (he : -1074 ≤ e) (he' : e ≤ 971)
    (hx : x = .ofModel (.pack (.finite .positive m e hm))) : IsNormal x (m * 2 ^ e) :=
  ⟨m, e, hm, by rw [hx, unpack_pack hm hlow hhigh he he'], hlow, hhigh, he, he', rfl⟩

lemma IsNormal.pos {x : Float} {q : ℚ} (h : IsNormal x q) : 0 < q := by
  obtain ⟨m, e, hm, _, _, _, _, _, rfl⟩ := h
  exact mul_pos (Nat.cast_pos.mpr hm) (zpow_pos two_pos e)

/-- Two numbers with 53-bit mantissas are in the order of their exponents, then mantissas. -/
lemma mantissa_le_iff {m m' : ℕ} {e e' : ℤ} (hlow : 2 ^ 52 ≤ m) (hhigh : m < 2 ^ 53)
    (hlow' : 2 ^ 52 ≤ m') (hhigh' : m' < 2 ^ 53) :
    (m : ℚ) * 2 ^ e ≤ m' * 2 ^ e' ↔ e < e' ∨ e = e' ∧ m ≤ m' := by
  have h2 : (0 : ℚ) < 2 ^ e := zpow_pos two_pos e
  have h2' : (0 : ℚ) < 2 ^ e' := zpow_pos two_pos e'
  have hlowq : (2 ^ 52 : ℚ) ≤ m := by exact_mod_cast hlow
  have hhighq : (m : ℚ) < 2 ^ 53 := by exact_mod_cast hhigh
  have hlowq' : (2 ^ 52 : ℚ) ≤ m' := by exact_mod_cast hlow'
  have hhighq' : (m' : ℚ) < 2 ^ 53 := by exact_mod_cast hhigh'
  -- with a smaller exponent a number is at most the least one of the next exponent
  have hstep : ∀ {a b : ℤ}, a < b → (2 : ℚ) ^ a * 2 ≤ 2 ^ b := by
    intro a b hab
    have := zpow_le_zpow_right₀ (by norm_num : (1 : ℚ) ≤ 2) (by omega : a + 1 ≤ b)
    rwa [zpow_add_one₀ (by norm_num)] at this
  rcases lt_trichotomy e e' with hlt | rfl | hgt
  · have := hstep hlt
    refine ⟨fun _ => .inl hlt, fun _ => ?_⟩
    nlinarith
  · rw [mul_le_mul_iff_left₀ h2]
    constructor
    · intro h
      exact .inr ⟨rfl, by exact_mod_cast h⟩
    · rintro (h | ⟨_, h⟩)
      · exact absurd h (lt_irrefl e)
      · exact_mod_cast h
  · have := hstep hgt
    constructor
    · intro h
      exfalso
      nlinarith
    · rintro (h | ⟨h, _⟩) <;> omega

lemma compare_then {m m' : ℕ} {e e' : ℤ} :
    (((compare e e').then (compare m m')).isLE = true ↔ e < e' ∨ e = e' ∧ m ≤ m') ∧
      ((compare e e').then (compare m m') = .lt ↔ e < e' ∨ e = e' ∧ m < m') := by
  rcases lt_trichotomy e e' with h | rfl | h
  · have hc : compare e e' = .lt := compare_lt_iff_lt.mpr h
    simp [hc, h]
  · have hc : compare e e = .eq := compare_eq_iff_eq.mpr rfl
    simp only [hc, Ordering.then, lt_irrefl, true_and, false_or]
    exact ⟨Nat.isLE_compare, compare_lt_iff_lt⟩
  · have hc : compare e e' = .gt := compare_gt_iff_gt.mpr h
    simp [hc, Int.not_lt.mpr h.le, h.ne']

/-- Normal numbers are compared as rationals. -/
lemma IsNormal.le_iff {x y : Float} {p q : ℚ} (hx : IsNormal x p) (hy : IsNormal y q) :
    x ≤ y ↔ p ≤ q := by
  obtain ⟨m, e, hm, hux, hlow, hhigh, _, _, rfl⟩ := hx
  obtain ⟨m', e', hm', huy, hlow', hhigh', _, _, rfl⟩ := hy
  rw [mantissa_le_iff hlow hhigh hlow' hhigh', ← compare_then.1]
  change decide (x.toModel.unpack.le y.toModel.unpack = true) = true ↔ _
  rw [decide_eq_true_iff, hux, huy]
  rfl

lemma IsNormal.lt_iff {x y : Float} {p q : ℚ} (hx : IsNormal x p) (hy : IsNormal y q) :
    x < y ↔ p < q := by
  obtain ⟨m, e, hm, hux, hlow, hhigh, _, _, rfl⟩ := hx
  obtain ⟨m', e', hm', huy, hlow', hhigh', _, _, rfl⟩ := hy
  have hcompare : (m : ℚ) * 2 ^ e < m' * 2 ^ e' ↔ e < e' ∨ e = e' ∧ m < m' := by
    rw [← not_le, mantissa_le_iff hlow' hhigh' hlow hhigh]
    omega
  rw [hcompare, ← compare_then.2]
  change decide (x.toModel.unpack.lt y.toModel.unpack = true) = true ↔ _
  rw [decide_eq_true_iff, hux, huy]
  simp [UnpackedFloat.lt, UnpackedFloat.compare]

/-! ### Operations -/

/-- A normal number below `Y * 2 ^ c` has an exponent of at most `c`, and is below every mantissa
that is above the integers below `Y`. -/
lemma le_of_le_mantissa {a r : ℕ} {b c : ℤ} {Y : ℚ} (ha : 2 ^ 52 ≤ a) (ha' : a < 2 ^ 53)
    (hY : Y < 2 ^ 53) (h : (a : ℚ) * 2 ^ b ≤ Y * 2 ^ c) :
    b ≤ c ∧ (2 ^ 52 ≤ r → (∀ n : ℕ, (n : ℚ) ≤ Y → n ≤ r) → (a : ℚ) * 2 ^ b ≤ r * 2 ^ c) := by
  have hc : (0 : ℚ) < 2 ^ c := zpow_pos two_pos c
  have hb : (0 : ℚ) < 2 ^ b := zpow_pos two_pos b
  have haq : (2 ^ 52 : ℚ) ≤ a := by exact_mod_cast ha
  have haq' : (a : ℚ) < 2 ^ 53 := by exact_mod_cast ha'
  have hbc : b < c + 1 := by
    rw [← zpow_lt_zpow_iff_right₀ (by norm_num : (1 : ℚ) < 2), zpow_add_one₀ (by norm_num)]
    nlinarith
  refine ⟨by omega, fun hr hfloor => ?_⟩
  have hrq : (2 ^ 52 : ℚ) ≤ r := by exact_mod_cast hr
  rcases (Int.lt_add_one_iff.mp hbc).lt_or_eq with hlt | rfl
  · have hstep := zpow_le_zpow_right₀ (by norm_num : (1 : ℚ) ≤ 2) (by omega : b + 1 ≤ c)
    rw [zpow_add_one₀ (by norm_num)] at hstep
    nlinarith
  · have har : a ≤ r := hfloor a (le_of_mul_le_mul_right h hb)
    exact mul_le_mul_of_nonneg_right (by exact_mod_cast har) hb.le

/-- A normal number above `Y * 2 ^ c` has an exponent of at least `c`, and is above every mantissa
that is below the integers above `Y`. -/
lemma mantissa_le_of_le {a r : ℕ} {b c : ℤ} {Y : ℚ} (ha' : a < 2 ^ 53) (hY : 2 ^ 52 ≤ Y)
    (h : Y * 2 ^ c ≤ a * 2 ^ b) (hceil : ∀ n : ℕ, Y ≤ n → r ≤ n) :
    c ≤ b ∧ (r : ℚ) * 2 ^ c ≤ a * 2 ^ b := by
  have hc : (0 : ℚ) < 2 ^ c := zpow_pos two_pos c
  have hb : (0 : ℚ) < 2 ^ b := zpow_pos two_pos b
  have haq' : (a : ℚ) < 2 ^ 53 := by exact_mod_cast ha'
  have hcb : c < b + 1 := by
    rw [← zpow_lt_zpow_iff_right₀ (by norm_num : (1 : ℚ) < 2), zpow_add_one₀ (by norm_num)]
    nlinarith
  obtain ⟨d, rfl⟩ : ∃ d : ℕ, b = c + d := ⟨(b - c).toNat, by omega⟩
  rw [zpow_add₀ (by norm_num), zpow_natCast, mul_left_comm, mul_comm] at h ⊢
  have hYa : Y ≤ ((a * 2 ^ d : ℕ) : ℚ) := by
    push_cast
    exact le_of_mul_le_mul_left h hc
  refine ⟨by omega, mul_le_mul_of_nonneg_left ?_ hc.le⟩
  exact_mod_cast hceil _ hYa

/-- What is rounded stays between the normal numbers that the exact result lies between. -/
lemma isNormal_round {m : ℕ} {e : ℤ} {acc : Accuracy} {y : ℚ} {x lo hi : Float} {l h : ℚ}
    (hy : Encloses (.ofMantissaAndAccuracy m acc) y) (hm : 2 ^ 52 ≤ m)
    (hx : x = .ofModel (.pack (roundWithAccuracy Format.binary64 .positive m e acc)))
    (hlo : IsNormal lo l) (hhi : IsNormal hi h) (hl : l ≤ y * 2 ^ e) (hh : y * 2 ^ e ≤ h) :
    ∃ r, IsNormal x r ∧ l ≤ r ∧ r ≤ h := by
  obtain ⟨a, b, _, _, halow, hahigh, hb, _, rfl⟩ := hlo
  obtain ⟨a', b', _, _, halow', hahigh', _, hb', rfl⟩ := hhi
  obtain ⟨k, hk⟩ : ∃ k, m.log2 = 52 + k :=
    Nat.exists_eq_add_of_le ((Nat.le_log2 (by omega)).mpr hm)
  obtain ⟨hlow, hhigh⟩ := (Nat.log2_eq_iff (by omega)).mp hk
  -- the mantissa before rounding
  have hscale : y * 2 ^ e = y / 2 ^ k * 2 ^ (e + k) := by
    rw [zpow_add₀ (by norm_num), zpow_natCast]
    field_simp
  have hYlow : (2 ^ 52 : ℚ) ≤ y / 2 ^ k := by
    rw [le_div_iff₀ (by positivity), ← pow_add]
    have := hy.le
    rw [ofMantissaAndAccuracy_mantissa] at this
    exact le_trans (by exact_mod_cast hlow) this
  have hYhigh : y / 2 ^ k < 2 ^ 53 := by
    rw [div_lt_iff₀ (by positivity), ← pow_add, show 53 + k = 52 + k + 1 by omega]
    have := hy.lt
    rw [ofMantissaAndAccuracy_mantissa] at this
    exact lt_of_lt_of_le this (by exact_mod_cast hhigh)
  rw [hscale] at hl hh
  have hbk := (le_of_le_mantissa (r := 0) halow hahigh hYhigh hl).1
  obtain ⟨r, hround, hr, hr', hsmall, hcarry⟩ := roundWithAccuracy_eq (e := e) hy hk (by omega)
  have hlr := (le_of_le_mantissa halow hahigh hYhigh hl).2 hr fun n => (hround n).1
  obtain ⟨hkb, hrh⟩ := mantissa_le_of_le hahigh' hYlow hh fun n => (hround n).2
  refine ⟨r * 2 ^ (e + k), ?_, hlr, hrh⟩
  rcases hr'.lt_or_eq with hlt | heq
  · exact isNormal_of_eq (by omega) hr hlt (by omega) (by omega)
      (hx.trans (by rw [hsmall (by omega) hlt]))
  · -- the carry leaves the least mantissa of the next exponent
    have hval : ((r : ℕ) : ℚ) * 2 ^ (e + k) = ((2 ^ 52 : ℕ) : ℚ) * 2 ^ (e + k + 1) := by
      rw [heq, zpow_add_one₀ (by norm_num)]
      push_cast
      ring
    have hkb' : e + k + 1 ≤ b' := by
      rw [hval, mantissa_le_iff le_rfl (by norm_num) halow' hahigh'] at hrh
      omega
    rw [hval]
    exact isNormal_of_eq (by norm_num) le_rfl (by norm_num) (by omega) (by omega)
      (hx.trans (by rw [hcarry heq]))

lemma encloses_exact (m : ℕ) : Encloses (.ofMantissaAndAccuracy m .exact) m :=
  ⟨le_rfl, lt_add_one _, by simp [ExtendedMantissa.ofMantissaAndAccuracy]⟩

/-- A quotient of integers with its remainder. -/
lemma encloses_quotient {m d : ℕ} (hd : 0 < d) :
    Encloses (.ofMantissaAndAccuracy (m / d) (accuracyOfFraction (m % d) d)) (m / d : ℚ) := by
  have hdq : (0 : ℚ) < d := Nat.cast_pos.mpr hd
  have hdiv : (d : ℚ) * ((m / d : ℕ) : ℚ) + ((m % d : ℕ) : ℚ) = m := by
    exact_mod_cast Nat.div_add_mod m d
  have hmod : ((m % d : ℕ) : ℚ) < d := by exact_mod_cast Nat.mod_lt m hd
  have hmod0 : (0 : ℚ) ≤ ((m % d : ℕ) : ℚ) := Nat.cast_nonneg _
  refine ⟨?_, ?_, ?_⟩
  · rw [ofMantissaAndAccuracy_mantissa, le_div_iff₀ hdq]
    linarith
  · rw [ofMantissaAndAccuracy_mantissa, div_lt_iff₀ hdq]
    linarith
  · have hexact : (m / d : ℚ) = ((m / d : ℕ) : ℚ) ↔ m % d = 0 := by
      rw [div_eq_iff hdq.ne', ← Nat.cast_eq_zero (R := ℚ)]
      constructor <;> intro h <;> linarith
    rw [ofMantissaAndAccuracy_mantissa, hexact, accuracyOfFraction]
    split_ifs with h0
    · simp [ExtendedMantissa.ofMantissaAndAccuracy, h0]
    · rcases compare (2 * (m % d)) d with _ | _ | _ <;>
        simp [ExtendedMantissa.ofMantissaAndAccuracy, h0]

section

variable {x y lo hi : Float} {p q l h : ℚ}

theorem IsNormal.mul (hx : IsNormal x p) (hy : IsNormal y q) (hlo : IsNormal lo l)
    (hhi : IsNormal hi h) (hl : l ≤ p * q) (hh : p * q ≤ h) :
    ∃ r, IsNormal (x * y) r ∧ l ≤ r ∧ r ≤ h := by
  obtain ⟨m, e, hm, hux, hlow, _, _, _, rfl⟩ := hx
  obtain ⟨m', e', hm', huy, hlow', _, _, _, rfl⟩ := hy
  have hval : (m : ℚ) * 2 ^ e * (m' * 2 ^ e') = ((m * m' : ℕ) : ℚ) * 2 ^ (e + e') := by
    rw [zpow_add₀ (by norm_num)]
    push_cast
    ring
  rw [hval] at hl hh
  refine isNormal_round (encloses_exact (m * m')) (by nlinarith) ?_ hlo hhi hl hh
  change Float.ofModel (.pack (UnpackedFloat.mul _ x.toModel.unpack y.toModel.unpack)) = _
  rw [hux, huy]
  rfl

/-- A product that is a normal number is exact. -/
lemma IsNormal.mul_exact {z : Float} (hx : IsNormal x p) (hy : IsNormal y q)
    (hz : IsNormal z (p * q)) : IsNormal (x * y) (p * q) := by
  obtain ⟨r, hr, hle, hge⟩ := hx.mul hy hz hz le_rfl le_rfl
  rwa [le_antisymm hle hge]

/-- The quotient must not be so small that it could be subnormal. -/
theorem IsNormal.div (hx : IsNormal x p) (hy : IsNormal y q) (hlo : IsNormal lo l)
    (hhi : IsNormal hi h) (hl : l ≤ p / q) (hh : p / q ≤ h) (hsmall : (2 : ℚ) ^ (-1000 : ℤ) ≤ l) :
    ∃ r, IsNormal (x / y) r ∧ l ≤ r ∧ r ≤ h := by
  obtain ⟨m, e, hm, hux, hlow, hhigh, _, _, rfl⟩ := hx
  obtain ⟨m', e', hm', huy, hlow', hhigh', _, _, rfl⟩ := hy
  have hm'q : (0 : ℚ) < m' := Nat.cast_pos.mpr hm'
  have hlog : m.log2 = 52 := (Nat.log2_eq_iff (by omega)).mpr ⟨hlow, hhigh⟩
  have hlog' : m'.log2 = 52 := (Nat.log2_eq_iff (by omega)).mpr ⟨hlow', hhigh'⟩
  have hval : (m : ℚ) * (2 : ℚ) ^ e / ((m' : ℚ) * (2 : ℚ) ^ e') =
      ((m <<< 53 : ℕ) : ℚ) / (m' : ℚ) * (2 : ℚ) ^ (e - e' - 53) := by
    rw [Nat.shiftLeft_eq, zpow_sub₀ (by norm_num), zpow_sub₀ (by norm_num)]
    push_cast
    field_simp
  rw [hval] at hl hh
  -- mantissas differ by less than a factor of two
  have hexp : -1021 ≤ e - e' := by
    have hmq : (m : ℚ) < 2 ^ 53 := by exact_mod_cast hhigh
    have hmq' : (2 ^ 52 : ℚ) ≤ m' := by exact_mod_cast hlow'
    have hquot : ((m <<< 53 : ℕ) : ℚ) / m' < 2 ^ 54 := by
      rw [div_lt_iff₀ hm'q, Nat.shiftLeft_eq]
      push_cast
      linarith
    have hbound : (2 : ℚ) ^ (-1000 : ℤ) < 2 ^ (e - e' + 1) := by
      refine (hsmall.trans hl).trans_lt ?_
      rw [show e - e' + 1 = (54 : ℕ) + (e - e' - 53) by omega, zpow_add₀ (by norm_num),
        zpow_natCast]
      exact mul_lt_mul_of_pos_right hquot (zpow_pos two_pos _)
    have := (zpow_lt_zpow_iff_right₀ (by norm_num : (1 : ℚ) < 2)).mp hbound
    omega
  have hcore : divCore Format.binary64 m e m' e' =
      (m <<< 53 / m', e - e' - 53, accuracyOfFraction (m <<< 53 % m') m') := by
    have htarget : min (e - e') (Format.binary64.targetExponent
        (totalExponent m e - totalExponent m' e')) = e - e' - 53 := by
      simp only [Format.targetExponent, totalExponent, Format.mantissaBits, Format.minExponent,
        hlog, hlog']
      omega
    have hshift : (e - e' - (e - e' - 53)).toNat = 53 := by omega
    rw [divCore, htarget, hshift]
  have hquotient : 2 ^ 52 ≤ m <<< 53 / m' := by
    rw [Nat.le_div_iff_mul_le hm', Nat.shiftLeft_eq]
    nlinarith
  refine isNormal_round (encloses_quotient hm') hquotient ?_ hlo hhi hl hh
  change Float.ofModel (.pack (UnpackedFloat.div _ x.toModel.unpack y.toModel.unpack)) = _
  rw [hux, huy]
  simp only [UnpackedFloat.div, hcore]
  rfl

end

/-! ### Relative errors -/

/-- The normal numbers next to a rational are within one unit of the last place of it. -/
lemma exists_isNormal_near {t : ℚ} (hlow : (2 : ℚ) ^ (-100 : ℤ) ≤ t)
    (hhigh : t ≤ (2 : ℚ) ^ (100 : ℤ)) :
    ∃ lo hi l h, IsNormal lo l ∧ IsNormal hi h ∧ l ≤ t ∧ t ≤ h ∧
      t * (1 - 2 ^ (-52 : ℤ)) ≤ l ∧ h ≤ t * (1 + 2 ^ (-52 : ℤ)) := by
  have ht : 0 < t := lt_of_lt_of_le (zpow_pos two_pos _) hlow
  obtain ⟨e, he⟩ : ∃ e : ℤ, Int.log 2 t = e + 52 := ⟨Int.log 2 t - 52, by omega⟩
  have hlog := Int.zpow_log_le_self (b := 2) (by norm_num) ht
  have hlog' := Int.lt_zpow_succ_log_self (b := 2) (by norm_num) t
  rw [he, Nat.cast_ofNat] at hlog hlog'
  have hpos : (0 : ℚ) < 2 ^ e := zpow_pos two_pos e
  have h52 : (2 : ℚ) ^ (e + 52) = 2 ^ e * 2 ^ 52 := by
    rw [zpow_add₀ (by norm_num)]
    norm_num
  rw [zpow_add_one₀ (by norm_num), h52] at hlog'
  have hrange : -1074 ≤ e ∧ e + 1 ≤ 971 := by
    have htop : t < 2 ^ (e + 52 + 1) := by
      rw [zpow_add_one₀ (by norm_num), h52]
      exact hlog'
    have hlo := (zpow_lt_zpow_iff_right₀ (by norm_num : (1 : ℚ) < 2)).mp (hlow.trans_lt htop)
    have hhi := (zpow_le_zpow_iff_right₀ (by norm_num : (1 : ℚ) < 2)).mp (hlog.trans hhigh)
    omega
  rw [h52] at hlog
  -- the mantissa is the integral part
  have hfloor := Nat.floor_le (div_nonneg ht.le hpos.le)
  have hfloor' := Nat.lt_floor_add_one (t / 2 ^ e)
  have hmlow : 2 ^ 52 ≤ ⌊t / 2 ^ e⌋₊ := by
    apply Nat.le_floor
    rw [le_div_iff₀ hpos]
    push_cast
    linarith
  have hmhigh : ⌊t / 2 ^ e⌋₊ < 2 ^ 53 := by
    rw [Nat.floor_lt (div_nonneg ht.le hpos.le), div_lt_iff₀ hpos]
    push_cast
    linarith
  generalize ⌊t / 2 ^ e⌋₊ = m at hfloor hfloor' hmlow hmhigh
  rw [le_div_iff₀ hpos] at hfloor
  rw [div_lt_iff₀ hpos] at hfloor'
  have hunit : (2 : ℚ) ^ e ≤ t * 2 ^ (-52 : ℤ) := by
    rw [zpow_neg, ← div_eq_mul_inv, le_div_iff₀ (zpow_pos two_pos _)]
    norm_num at hlog ⊢
    linarith
  have hlo := isNormal_of_eq (by omega) hmlow hmhigh hrange.1 (by omega) rfl
  obtain ⟨hi, hhi⟩ : ∃ hi, IsNormal hi ((m + 1) * 2 ^ e) := by
    by_cases hm : m + 1 < 2 ^ 53
    · have := isNormal_of_eq (e := e) (by omega) (by omega) hm hrange.1 (by omega) rfl
      exact ⟨_, by exact_mod_cast this⟩
    · have hm' : m + 1 = 2 ^ 53 := by omega
      have := isNormal_of_eq (e := e + 1) (by norm_num) (le_refl (2 ^ 52)) (by norm_num) (by omega)
        hrange.2 rfl
      have hvalue : ((2 ^ 52 : ℕ) : ℚ) * 2 ^ (e + 1) = (m + 1) * 2 ^ e := by
        have hmq : (m : ℚ) + 1 = 2 ^ 53 := by exact_mod_cast hm'
        rw [hmq, zpow_add_one₀ (by norm_num)]
        push_cast
        ring
      exact ⟨_, hvalue ▸ this⟩
  refine ⟨_, hi, _, _, hlo, hhi, hfloor, ?_, ?_, ?_⟩ <;> linarith

/-- A product is exact up to one unit of the last place. -/
theorem IsNormal.mul_near {x y : Float} {p q : ℚ} (hx : IsNormal x p) (hy : IsNormal y q)
    (hlow : (2 : ℚ) ^ (-100 : ℤ) ≤ p * q) (hhigh : p * q ≤ (2 : ℚ) ^ (100 : ℤ)) :
    ∃ r, IsNormal (x * y) r ∧ p * q * (1 - 2 ^ (-52 : ℤ)) ≤ r ∧
      r ≤ p * q * (1 + 2 ^ (-52 : ℤ)) := by
  obtain ⟨lo, hi, l, h, hlo, hhi, hl, hh, hll, hhh⟩ := exists_isNormal_near hlow hhigh
  obtain ⟨r, hr, hlr, hrh⟩ := hx.mul hy hlo hhi hl hh
  exact ⟨r, hr, hll.trans hlr, hrh.trans hhh⟩

/-- A quotient is exact up to one unit of the last place. -/
theorem IsNormal.div_near {x y : Float} {p q : ℚ} (hx : IsNormal x p) (hy : IsNormal y q)
    (hlow : (2 : ℚ) ^ (-100 : ℤ) ≤ p / q) (hhigh : p / q ≤ (2 : ℚ) ^ (100 : ℤ)) :
    ∃ r, IsNormal (x / y) r ∧ p / q * (1 - 2 ^ (-52 : ℤ)) ≤ r ∧
      r ≤ p / q * (1 + 2 ^ (-52 : ℤ)) := by
  obtain ⟨lo, hi, l, h, hlo, hhi, hl, hh, hll, hhh⟩ := exists_isNormal_near hlow hhigh
  have hsmall : (2 : ℚ) ^ (-1000 : ℤ) ≤ (2 : ℚ) ^ (-101 : ℤ) :=
    zpow_le_zpow_right₀ (by norm_num) (by norm_num)
  have hll' : (2 : ℚ) ^ (-1000 : ℤ) ≤ l := by
    refine hsmall.trans (le_trans ?_ hll)
    norm_num at hlow ⊢
    linarith
  obtain ⟨r, hr, hlr, hrh⟩ := hx.div hy hlo hhi hl hh hll'
  exact ⟨r, hr, hll.trans hlr, hrh.trans hhh⟩

/-! ### Numbers -/

lemma isNormal_pow {x : Float} {e : ℤ} (he : -1074 ≤ e) (he' : e ≤ 971)
    (hx : x = .ofModel (.pack (.finite .positive (2 ^ 52) e (by norm_num)))) :
    IsNormal x (2 ^ (e + 52)) := by
  have h := isNormal_of_eq (by norm_num) le_rfl (by norm_num) he he' hx
  have hvalue : ((2 ^ 52 : ℕ) : ℚ) * 2 ^ e = 2 ^ (e + 52) := by
    rw [zpow_add₀ (by norm_num)]
    push_cast
    ring
  rwa [hvalue] at h

lemma isNormal_one : IsNormal 1.0 1 := by
  have h : IsNormal 1.0 (2 ^ (-52 + 52 : ℤ)) :=
    isNormal_pow (by norm_num) (by norm_num) (by decide +kernel)
  norm_num at h
  exact h

lemma isNormal_two : IsNormal 2.0 2 := by
  have h : IsNormal 2.0 (2 ^ (-51 + 52 : ℤ)) :=
    isNormal_pow (by norm_num) (by norm_num) (by decide +kernel)
  norm_num at h
  exact h

lemma isNormal_half : IsNormal 0.5 (1 / 2) := by
  have h : IsNormal 0.5 (2 ^ (-53 + 52 : ℤ)) :=
    isNormal_pow (by norm_num) (by norm_num) (by decide +kernel)
  norm_num at h
  exact h

/-- Doubling is exact. -/
theorem IsNormal.double {x : Float} {p : ℚ} (h : IsNormal x p) (hp : p ≤ 1) :
    IsNormal (x * 2.0) (p * 2) := by
  have h1 := hp
  obtain ⟨m, e, hm, hux, hlow, hhigh, he, he', rfl⟩ := id h
  have hle : ((2 ^ 52 : ℕ) : ℚ) * 2 ^ e ≤ (2 ^ 52 : ℕ) * 2 ^ (-52 : ℤ) := by
    refine le_trans (mul_le_mul_of_nonneg_right ?_ (zpow_pos two_pos e).le) (h1.trans ?_)
    · exact_mod_cast hlow
    · norm_num
  have he52 : e ≤ -52 := by
    rw [mantissa_le_iff le_rfl (by norm_num) le_rfl (by norm_num)] at hle
    omega
  have hz := isNormal_of_eq (e := e + 1) hm hlow hhigh (by omega) (by omega) rfl
  rw [zpow_add_one₀ (by norm_num), ← mul_assoc] at hz
  exact h.mul_exact isNormal_two hz

/-- Integers of up to 53 bits are exact. -/
theorem isNormal_ofNat {n : ℕ} (hn : 0 < n) (hn' : n < 2 ^ 53) : IsNormal (Float.ofNat n) n := by
  have hlog : n.log2 ≤ 52 := by
    have := (Nat.log2_lt (by omega)).mpr hn'
    omega
  obtain ⟨k, hk⟩ : ∃ k, n.log2 + k = 52 := ⟨52 - n.log2, by omega⟩
  obtain ⟨hlow, hhigh⟩ := (Nat.log2_eq_iff (n := n) (k := n.log2) (by omega)).mp rfl
  have hmlow : 2 ^ 52 ≤ n * 2 ^ k := by
    rw [← hk, pow_add]
    exact Nat.mul_le_mul_right _ hlow
  have hmhigh : n * 2 ^ k < 2 ^ 53 := by
    have := Nat.mul_lt_mul_of_pos_right hhigh (Nat.two_pow_pos k)
    rwa [← pow_add, show n.log2 + 1 + k = 53 by omega] at this
  have hvalue : ((n * 2 ^ k : ℕ) : ℚ) * 2 ^ (-(k : ℤ)) = n := by
    rw [zpow_neg, zpow_natCast]
    push_cast
    field_simp
  have hz := isNormal_of_eq (e := -(k : ℤ)) (by omega) hmlow hmhigh (by omega) (by omega) rfl
  have hround : Float.Model.ofUInt64 n.toUInt64 =
      .pack (roundWithAccuracy Format.binary64 .positive (n * 2 ^ k) (-(k : ℤ)) .exact) := by
    have hnat : n.toUInt64.toNat = n := UInt64.toNat_ofNat_of_lt' (by
      rw [UInt64.size]
      omega)
    have hcompare : compare (n : ℤ) 0 = .gt := compare_gt_iff_gt.mpr (by omega)
    have htarget : Format.binary64.targetExponent (totalExponent n 0) = -(k : ℤ) := by
      simp only [Format.targetExponent, totalExponent, Format.mantissaBits, Format.minExponent]
      omega
    have hshift : (0 - -(k : ℤ)).toNat = k := by omega
    rw [Float.Model.ofUInt64, UnpackedFloat.ofUInt64, hnat, UnpackedFloat.ofNat,
      UnpackedFloat.ofInt, UnpackedFloat.normalize, hcompare]
    dsimp only
    rw [Int.toNat_natCast, UnpackedFloat.round, htarget, decreaseExponent, hshift,
      Nat.shiftLeft_eq]
    simp
  have hconv : IsNormal n.toUInt64.toFloat n := by
    obtain ⟨r, hr, hle, hge⟩ := isNormal_round (encloses_exact (n * 2 ^ k)) hmlow
      (congrArg Float.ofModel hround) hz hz le_rfl le_rfl
    rw [hvalue] at hle hge
    rwa [le_antisymm hle hge]
  have hof : Float.ofNat n = n.toUInt64.toFloat * 1.0 := by
    change Float.ofScientific n false 0 = _
    rw [Float.ofScientific, dif_pos ⟨hn', by norm_num⟩]
    rw [if_neg (by simp)]
    congr 1
  rw [hof]
  have hmul := hconv.mul_exact isNormal_one (by rwa [mul_one])
  rwa [mul_one] at hmul

/-- No positive number is below zero. -/
lemma IsNormal.not_lt_zero {x : Float} {q : ℚ} (h : IsNormal x q) : ¬ x < Float.ofNat 0 := by
  obtain ⟨m, e, hm, hux, _⟩ := h
  have hzero : Float.ofNat 0 = .ofModel (.pack (.zero .positive)) := by decide +kernel
  have hunpack : (Float.Model.pack (.zero .positive)).unpack = .zero .positive := rfl
  change ¬ decide (x.toModel.unpack.lt (Float.ofNat 0).toModel.unpack = true) = true
  rw [hzero, hux, hunpack]
  simp [UnpackedFloat.lt, UnpackedFloat.compare]

/-- The components of a finite number are those of a normal or of a subnormal one. -/
lemma unpack_finite {x : Float.Model} {s : Sign} {m : ℕ} {e : ℤ} {hm : 0 < m}
    (h : x.unpack = .finite s m e hm) :
    (2 ^ 52 ≤ m ∧ m < 2 ^ 53 ∧ -1074 ≤ e ∧ e ≤ 971) ∨ (m < 2 ^ 52 ∧ e = -1074) := by
  rw [Float.Model.unpack, UnpackedFloat.unpack] at h
  dsimp only at h
  have hmant := (@unpackMantissa Format.binary64 x.toBits.toBitVec).isLt
  split_ifs at h with hones hzero hzero hzero'
  · cases h
    exact .inr ⟨hmant, by simp [hzero, Format.exponentBias]⟩
  · obtain ⟨-, rfl, rfl⟩ := UnpackedFloat.finite.inj h
    clear h
    have hbias : Format.binary64.exponentBias = 1023 := rfl
    generalize @unpackExponent Format.binary64 x.toBits.toBitVec = exponent at *
    generalize @unpackMantissa Format.binary64 x.toBits.toBitVec = mantissa at *
    have hexp : exponent.toNat < 2048 := exponent.isLt
    have hm' : (1#1 ++ mantissa).toNat = 2 ^ 52 + mantissa.toNat := by
      rw [BitVec.toNat_append, ← Nat.shiftLeft_add_eq_or_of_lt mantissa.isLt, Nat.shiftLeft_eq]
      rfl
    have hne : exponent.toNat ≠ 0 := fun h0 => hzero (BitVec.eq_of_toNat_eq h0)
    have hne' : exponent.toNat ≠ 2047 := fun h1 => hones (BitVec.eq_of_toNat_eq h1)
    change mantissa.toNat < 2 ^ 52 at hmant
    rw [hm', hbias]
    omega

/-- A number between two normal numbers is normal. -/
theorem isNormal_of_le {x lo hi : Float} {l h : ℚ} (hlo : IsNormal lo l) (hhi : IsNormal hi h)
    (hl : lo ≤ x) (hh : x ≤ hi) : ∃ q, IsNormal x q ∧ l ≤ q ∧ q ≤ h := by
  suffices hx : ∃ q, IsNormal x q by
    obtain ⟨q, hq⟩ := hx
    exact ⟨q, hq, (hlo.le_iff hq).mp hl, (hq.le_iff hhi).mp hh⟩
  obtain ⟨a, b, ha, hulo, halow, _, hb, _, _⟩ := hlo
  obtain ⟨a', b', ha', huhi, _⟩ := hhi
  change decide (lo.toModel.unpack.le x.toModel.unpack = true) = true at hl
  change decide (x.toModel.unpack.le hi.toModel.unpack = true) = true at hh
  rw [decide_eq_true_iff, hulo] at hl
  rw [decide_eq_true_iff, huhi] at hh
  rcases hux : x.toModel.unpack with s | _ | s | ⟨s, m, e, hm⟩
  · rw [hux] at hl hh
    cases s with
    | negative => simp [UnpackedFloat.le, UnpackedFloat.compare] at hl
    | positive => simp [UnpackedFloat.le, UnpackedFloat.compare] at hh
  · rw [hux] at hl
    simp [UnpackedFloat.le, UnpackedFloat.compare] at hl
  · rw [hux] at hl
    simp [UnpackedFloat.le, UnpackedFloat.compare] at hl
  · rw [hux] at hl
    cases s with
    | negative => simp [UnpackedFloat.le, UnpackedFloat.compare] at hl
    | positive =>
      have hcompare : b < e ∨ b = e ∧ a ≤ m := compare_then.1.mp hl
      rcases unpack_finite hux with ⟨hlow, hhigh, he, he'⟩ | ⟨hsub, he⟩
      · exact ⟨_, m, e, hm, hux, hlow, hhigh, he, he', rfl⟩
      · omega

lemma floor_mul_zpow (m k : ℕ) : ⌊(m : ℚ) * 2 ^ (-(k : ℤ))⌋₊ = m / 2 ^ k := by
  have h := Nat.floor_div_eq_div (K := ℚ) m (2 ^ k)
  rwa [Nat.cast_pow, Nat.cast_ofNat, div_eq_mul_inv, ← zpow_natCast, ← zpow_neg] at h

/-- Conversion to a 32-bit word truncates. -/
theorem IsNormal.toUInt32 {x : Float} {q : ℚ} (h : IsNormal x q) (hq : q < 2 ^ 32) :
    x.toUInt32.toNat = ⌊q⌋₊ := by
  obtain ⟨m, e, hm, hux, hlow, hhigh, he, he', rfl⟩ := h
  have hneg : e < 0 := by
    have hbound : ((m : ℚ) * 2 ^ e) < (2 ^ 52 : ℕ) * 2 ^ (-20 : ℤ) := hq.trans_eq (by norm_num)
    rw [← not_le, mantissa_le_iff le_rfl (by norm_num) hlow hhigh] at hbound
    omega
  obtain ⟨k, rfl⟩ : ∃ k : ℕ, e = -(k : ℤ) := ⟨(-e).toNat, by omega⟩
  have htoInt : x.toModel.unpack.toInt 0 (UInt32.size - 1) = (m / 2 ^ k : ℕ) := by
    have hdecrease : (-(k : ℤ) - 0).toNat = 0 := by omega
    have hshift : (0 - -(k : ℤ)).toNat = k := by omega
    rw [hux, UnpackedFloat.toInt, roundToInt, decreaseExponent, hdecrease]
    simp only [Nat.shiftLeft_zero, Nat.cast_zero, sub_zero, shiftToExponent, hshift,
      shiftRight_mantissa, ofMantissaAndAccuracy_mantissa]
    rfl
  have hfloor : (m / 2 ^ k : ℕ) < 2 ^ 32 := by
    rw [← floor_mul_zpow, Nat.floor_lt (mul_pos (Nat.cast_pos.mpr hm) (zpow_pos two_pos _)).le]
    exact_mod_cast hq
  rw [floor_mul_zpow]
  change (UInt32.ofNatClamp (x.toModel.unpack.toInt 0 (UInt32.size - 1)).toNat).toNat = _
  rw [htoInt, Int.toNat_natCast, UInt32.ofNatClamp, dif_pos (by exact hfloor)]
  rfl

end Core.Binary64
