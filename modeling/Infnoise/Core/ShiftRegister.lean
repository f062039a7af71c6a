import Mathlib.Data.Int.CardIntervalMod
import Mathlib.Dynamics.PeriodicPts.Defs
import Mathlib.Tactic.IntervalCases
import Mathlib.Tactic.NormNum.Prime

/-!
# A maximal shift register

The register of 15 bits with the feedback polynomial `x ^ 15 + x ^ 14 + 1` runs through all its
non-zero states. So in its bit stream every non-zero word of 15 bits occurs once in a period of
`2 ^ 15 - 1` bits, and once at an even and once at an odd position in two periods.
-/

namespace Core.ShiftRegister

open Function

/-- Shift in the sum of the two highest bits. -/
def next (w : ℕ) : ℕ := (2 * w + (w / 16384 + w / 8192) % 2) % 32768

/-- The last 15 bits before bit `t`. The stream starts after a one and 14 zeros. -/
def window (t : ℕ) : ℕ := next^[t] 16384

/-- Bit `t` of the stream. -/
def bit (t : ℕ) : Bool := decide (window (t + 1) % 2 = 1)

lemma window_succ (t : ℕ) : window (t + 1) = next (window t) := iterate_succ_apply' next t 16384

lemma window_lt (t : ℕ) : window t < 32768 := by
  cases t with
  | zero => decide
  | succ t =>
    rw [window_succ]
    exact Nat.mod_lt _ (by norm_num)

/-- A window is the one before it, shifted, with a new bit. -/
lemma window_succ_eq (t : ℕ) :
    window (t + 1) = 2 * (window t % 16384) + (bit t).toNat := by
  have hlt := window_lt (t + 1)
  have hmod : window (t + 1) / 2 = window t % 16384 := by
    have hnew := Nat.mod_lt (window t / 16384 + window t / 8192) (by norm_num : 0 < 2)
    rw [window_succ, next]
    generalize (window t / 16384 + window t / 8192) % 2 = new at hnew
    omega
  have hbit : (bit t).toNat = window (t + 1) % 2 := by
    rw [bit]
    rcases Nat.mod_two_eq_zero_or_one (window (t + 1)) with h | h <;> simp [h]
  omega

/-! ### The period -/

/-- A period is minimal when its quotients by primes are no periods. -/
lemma minimalPeriod_eq_of_prime {α : Type*} {f : α → α} {x : α} {n : ℕ} (hx : IsPeriodicPt f n x)
    (hd : ∀ p, p.Prime → p ∣ n → ¬ IsPeriodicPt f (n / p) x) : minimalPeriod f x = n := by
  obtain ⟨k, hk⟩ := hx.minimalPeriod_dvd
  rcases eq_or_ne k 1 with rfl | hne
  · rw [hk, Nat.mul_one]
  · obtain ⟨p, hp, m, rfl⟩ := Nat.exists_prime_and_dvd hne
    have hn : n = p * (minimalPeriod f x * m) := hk.trans (Nat.mul_left_comm _ p m)
    have hquotient : n / p = minimalPeriod f x * m := by
      rw [hn, Nat.mul_div_cancel_left _ hp.pos]
    refine absurd ?_ (hd p hp ⟨_, hn⟩)
    rw [isPeriodicPt_iff_minimalPeriod_dvd, hquotient]
    exact Nat.dvd_mul_right _ m

/-- The register comes back after `2 ^ 15 - 1` steps, and after none of the divisors of that. -/
lemma minimalPeriod_next : minimalPeriod next 16384 = 32767 := by
  apply minimalPeriod_eq_of_prime
  · change next^[32767] 16384 = 16384
    decide +kernel
  · intro p hp hdvd
    have hfactors : p = 7 ∨ p = 31 ∨ p = 151 := by
      rw [show 32767 = 7 * 31 * 151 by norm_num, hp.dvd_mul, hp.dvd_mul,
        Nat.prime_dvd_prime_iff_eq hp (by norm_num), Nat.prime_dvd_prime_iff_eq hp (by norm_num),
        Nat.prime_dvd_prime_iff_eq hp (by norm_num), or_assoc] at hdvd
      exact hdvd
    rcases hfactors with rfl | rfl | rfl
    · change next^[4681] 16384 ≠ 16384
      decide +kernel
    · change next^[1057] 16384 ≠ 16384
      decide +kernel
    · change next^[217] 16384 ≠ 16384
      decide +kernel

lemma window_mod (t : ℕ) : window (t % 32767) = window t := by
  have := iterate_mod_minimalPeriod_eq (f := next) (x := 16384) (n := t)
  rwa [minimalPeriod_next] at this

/-- Two windows are equal when their distance is a multiple of the period. -/
lemma window_eq_iff (t u : ℕ) : window t = window u ↔ t ≡ u [MOD 32767] := by
  rw [← window_mod t, ← window_mod u]
  have hlt : ∀ n, n % 32767 < minimalPeriod next 16384 := fun n => by
    rw [minimalPeriod_next]
    exact Nat.mod_lt _ (by norm_num)
  exact iterate_eq_iterate_iff_of_lt_minimalPeriod (hlt t) (hlt u)

lemma window_ne_zero (t : ℕ) : window t ≠ 0 := by
  intro hzero
  have hfix : ∀ k, window (t + k) = 0 := by
    intro k
    induction k with
    | zero => exact hzero
    | succ k ih => rw [← Nat.add_assoc, window_succ, ih, next]
  have hback := hfix (32767 * t - t)
  rw [Nat.add_sub_cancel' (Nat.le_mul_of_pos_left t (by norm_num)),
    (window_eq_iff _ 0).mpr ((Nat.modEq_zero_iff_dvd).mpr (dvd_mul_right _ _))] at hback
  exact absurd hback (by decide)

/-- Every non-zero word is a window. -/
lemma exists_window {w : ℕ} (hw : 0 < w) (hlt : w < 32768) : ∃ t, window t = w := by
  have hinj : Set.InjOn window (Finset.range 32767) := by
    intro t ht u hu heq
    rw [Finset.coe_range, Set.mem_Iio] at ht hu
    exact Nat.ModEq.eq_of_lt_of_lt ((window_eq_iff t u).mp heq) ht hu
  have himage : (Finset.range 32767).image window = Finset.Ioo 0 32768 := by
    apply Finset.eq_of_subset_of_card_le
    · intro v hv
      obtain ⟨t, _, rfl⟩ := Finset.mem_image.mp hv
      exact Finset.mem_Ioo.mpr ⟨Nat.pos_of_ne_zero (window_ne_zero t), window_lt t⟩
    · rw [Finset.card_image_of_injOn hinj, Nat.card_Ioo, Finset.card_range]
  have hmem : w ∈ (Finset.range 32767).image window := by
    rw [himage]
    exact Finset.mem_Ioo.mpr ⟨hw, hlt⟩
  obtain ⟨t, _, ht⟩ := Finset.mem_image.mp hmem
  exact ⟨t, ht⟩

/-- The window whose last 14 bits are zero comes once in a period. -/
lemma window_mod_eq_zero_iff (t : ℕ) : window t % 16384 = 0 ↔ t % 32767 = 0 := by
  have hstart : window t % 16384 = 0 ↔ window t = window 0 := by
    have hlt := window_lt t
    have hne := window_ne_zero t
    change _ ↔ window t = 16384
    omega
  rw [hstart, window_eq_iff]
  exact Iff.rfl

/-! ### Occurrences -/

/-- How often the bits up to and including an even, or odd, position before `t` read `w`. -/
def occurrences (odd : Bool) (w t : ℕ) : ℕ :=
  Nat.count (fun u => decide (u % 2 = 1) = odd ∧ window (u + 1) = w) t

lemma occurrences_succ (odd : Bool) (w t : ℕ) :
    occurrences odd w (t + 1) =
      occurrences odd w t +
        if decide (t % 2 = 1) = odd ∧ window (t + 1) = w then 1 else 0 := Nat.count_succ _ t

/-- A word that occurs at `t` occurs at that parity every two periods. -/
lemma occurrences_of_window (t n : ℕ) :
    occurrences (decide (t % 2 = 1)) (window (t + 1)) n =
      n / 65534 + if t % 65534 < n % 65534 then 1 else 0 := by
  have hiff : ∀ u, (decide (u % 2 = 1) = decide (t % 2 = 1) ∧ window (u + 1) = window (t + 1)) ↔
      u ≡ t [MOD 65534] := by
    intro u
    have hparity : (u % 2 = 1 ↔ t % 2 = 1) ↔ u ≡ t [MOD 2] := by
      unfold Nat.ModEq
      omega
    have hperiod : u + 1 ≡ t + 1 [MOD 32767] ↔ u ≡ t [MOD 32767] :=
      ⟨Nat.ModEq.add_right_cancel' 1, Nat.ModEq.add_right 1⟩
    rw [decide_eq_decide, window_eq_iff, hparity, hperiod,
      Nat.modEq_and_modEq_iff_modEq_mul (by decide)]
  rw [← Nat.count_modEq_card n (by norm_num : 0 < 65534) t, occurrences,
    Nat.count_eq_card_filter_range, Nat.count_eq_card_filter_range]
  exact congrArg Finset.card (Finset.filter_congr fun u _ => hiff u)

/-- Before it occurs at `t`, a word has occurred at that parity once in every two periods. -/
lemma occurrences_self (t : ℕ) :
    occurrences (decide (t % 2 = 1)) (window (t + 1)) t = t / 65534 := by
  rw [occurrences_of_window, if_neg (lt_irrefl _), Nat.add_zero]

/-- Every non-zero word has occurred about as often. -/
lemma occurrences_bounds (odd : Bool) {w : ℕ} (hw : 0 < w) (hlt : w < 32768) (n : ℕ) :
    n / 65534 ≤ occurrences odd w n ∧ occurrences odd w n ≤ n / 65534 + 1 := by
  obtain ⟨t, rfl⟩ := exists_window hw hlt
  -- the window before position `t` ends at `t + 32766` or, at the other parity, a period later
  obtain ⟨u, hu, hparity⟩ : ∃ u, window (u + 1) = window t ∧ decide (u % 2 = 1) = odd := by
    by_cases hodd : decide ((t + 32766) % 2 = 1) = odd
    · refine ⟨t + 32766, (window_eq_iff _ _).mpr ?_, hodd⟩
      unfold Nat.ModEq
      omega
    · refine ⟨t + 65533, (window_eq_iff _ _).mpr ?_, ?_⟩
      · unfold Nat.ModEq
        omega
      · have hother : (t + 65533) % 2 = 1 ↔ ¬ (t + 32766) % 2 = 1 := by omega
        cases odd <;> simp [hother] at hodd ⊢ <;> omega
  rw [← hu, ← hparity, occurrences_of_window]
  split_ifs <;> omega

/-- The word of zeros never occurs. -/
lemma occurrences_zero (odd : Bool) (n : ℕ) : occurrences odd 0 n = 0 := by
  rw [occurrences, Nat.count_iff_forall_not]
  intro u _ hu
  exact window_ne_zero _ hu.2

/-- How often bit `t` has come at its parity after the 14 bits before it. -/
def same (t : ℕ) : ℕ :=
  occurrences (decide (t % 2 = 1)) (2 * (window t % 16384) + (bit t).toNat) t

/-- How often the other bit has. -/
def other (t : ℕ) : ℕ :=
  occurrences (decide (t % 2 = 1)) (2 * (window t % 16384) + (!bit t).toNat) t

lemma same_eq (t : ℕ) : same t = t / 65534 := by
  rw [same, ← window_succ_eq, occurrences_self]

/-- After 14 zeros only a one can come. -/
lemma other_eq_zero {t : ℕ} (ht : t % 32767 = 0) : other t = 0 := by
  have hzero := (window_mod_eq_zero_iff t).mpr ht
  have hbit : bit t = true := by
    have hsucc := window_succ_eq t
    rw [hzero, Nat.mul_zero, Nat.zero_add] at hsucc
    by_contra hbit
    rw [Bool.not_eq_true] at hbit
    exact window_ne_zero (t + 1) (by rw [hsucc, hbit, Bool.toNat_false])
  rw [other, hzero, hbit]
  exact occurrences_zero _ _

lemma other_bounds {t : ℕ} (ht : t % 32767 ≠ 0) :
    t / 65534 ≤ other t ∧ other t ≤ t / 65534 + 1 := by
  have hne : window t % 16384 ≠ 0 := fun hzero => ht ((window_mod_eq_zero_iff t).mp hzero)
  have hlt := Bool.toNat_lt (!bit t)
  exact occurrences_bounds _ (by omega) (by omega) t

/-- What there is to compare in the first six periods. -/
lemma frequency_cases {t : ℕ} (ht : t < 196602) :
    (t < 65534 ∧ same t = 0) ∨ (t % 32767 = 0 ∧ 0 < same t ∧ same t ≤ 2 ∧ other t = 0) ∨
      65534 ≤ t ∧ (same t = 1 ∧ other t = 1 ∨ same t = 1 ∧ other t = 2 ∨
        same t = 2 ∧ other t = 2 ∨ same t = 2 ∧ other t = 3) := by
  have hsame := same_eq t
  rcases Nat.lt_or_ge t 65534 with hlt | hge
  · exact .inl ⟨hlt, by omega⟩
  · right
    by_cases hmod : t % 32767 = 0
    · exact .inl ⟨hmod, by omega, by omega, other_eq_zero hmod⟩
    · obtain ⟨hle, hle'⟩ := other_bounds hmod
      exact .inr ⟨hge, by omega⟩

/-! ### Runs of equal bits -/

/-- The bits before bit `t` end in this many ones, and in this many zeros. -/
structure Runs (t ones zeros : ℕ) : Prop where
  ones_le : ones ≤ 15
  window_ones : window t % 2 ^ ones = 2 ^ ones - 1
  zeros_le : zeros ≤ 14
  window_zeros : window t % 2 ^ zeros = 0

lemma Runs.none (t : ℕ) : Runs t 0 0 :=
  ⟨Nat.zero_le _, Nat.mod_one _, Nat.zero_le _, Nat.mod_one _⟩

/-- A one makes a run of ones longer. There are never more than 15. -/
lemma Runs.one {t ones zeros : ℕ} (h : Runs t ones zeros) (hbit : bit t = true) :
    Runs (t + 1) (ones + 1) 0 := by
  obtain ⟨hle, hones, -, -⟩ := h
  have hlt := window_lt t
  have hne : ones ≠ 15 := by
    rintro rfl
    have hfull : window t = 32767 := by omega
    rw [bit, window_succ, hfull] at hbit
    exact absurd hbit (by decide)
  have hsucc := window_succ_eq t
  rw [hbit, Bool.toNat_true] at hsucc
  refine ⟨by omega, ?_, Nat.zero_le _, Nat.mod_one _⟩
  interval_cases ones <;> omega

/-- A zero makes a run of zeros longer. There are never more than 14. -/
lemma Runs.zero {t ones zeros : ℕ} (h : Runs t ones zeros) (hbit : bit t = false) :
    Runs (t + 1) 0 (zeros + 1) := by
  obtain ⟨-, -, hle, hzeros⟩ := h
  have hlt := window_lt t
  have hsucc := window_succ_eq t
  rw [hbit, Bool.toNat_false] at hsucc
  have hne : zeros ≠ 14 := by
    rintro rfl
    exact window_ne_zero (t + 1) (by omega)
  refine ⟨Nat.zero_le _, Nat.mod_one _, by omega, ?_⟩
  interval_cases zeros <;> omega

end Core.ShiftRegister
