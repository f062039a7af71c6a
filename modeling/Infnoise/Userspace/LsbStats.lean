import Infnoise.Core.Guessing
import Infnoise.Userspace.CounterBounds

/-!
# Guessing from fewer bits

Model of `checkLSBStats`, which the test of the health checker prints: how often the next bit is
guessed from the lowest bits of its context.
-/

namespace Userspace

open Core Finset

/-- The loop over the contexts with the low bits `i`: their zeros and ones. -/
def countLsb (hc : HealthState) (n i : ℕ) : ℕ × ℕ :=
  (List.range (1 <<< (hc.n - n))).foldl (fun counts j =>
    let pos := u32 (i + u32 (j * (1 <<< n)))
    (u32 (counts.1 + hc.zerosEven pos), u32 (counts.2 + hc.onesEven pos))) (0, 0)

/-- `checkLSBStatsForNBits`: how many guesses were right, and how many were made. Their quotient is
printed. -/
def checkLSBStatsForNBits (hc : HealthState) (n : ℕ) : ℕ × ℕ :=
  (List.range (1 <<< n)).foldl (fun totals i =>
    let (zeros, ones) := countLsb hc n i
    (u32 (totals.1 + if zeros ≥ ones then zeros else ones), u32 (totals.2 + u32 (zeros + ones))))
    (0, 0)

/-- `checkLSBStats`. -/
def checkLSBStats (hc : HealthState) : List (ℕ × ℕ) :=
  (List.range' 1 hc.n).map (checkLSBStatsForNBits hc)

/-- Two sums that are taken in one loop, in 32 bits. -/
lemma foldl_pair_eq {f g : ℕ → ℕ} {k : ℕ} (hf : ∑ j ∈ range k, f j < 4294967296)
    (hg : ∑ j ∈ range k, g j < 4294967296) :
    (List.range k).foldl (fun s j => (u32 (s.1 + f j), u32 (s.2 + g j))) (0, 0) =
      (∑ j ∈ range k, f j, ∑ j ∈ range k, g j) := by
  induction k with
  | zero => rfl
  | succ k ih =>
    rw [sum_range_succ] at hf hg
    rw [List.range_succ, List.foldl_append, ih (by omega) (by omega), sum_range_succ,
      sum_range_succ, List.foldl_cons, List.foldl_nil, u32_of_lt hf, u32_of_lt hg]

section

variable {n m : ℕ} {hc : HealthState}

/-- The observations in all contexts fit into 32 bits. -/
lemma HealthState.InRange.sum_lt (h : hc.InRange n) (hn : n ≤ 17) :
    ∑ a ∈ range (2 ^ n), (hc.zerosEven a + hc.onesEven a) < 4294967296 := by
  have hterm : ∀ a ∈ range (2 ^ n), hc.zerosEven a + hc.onesEven a ≤ 32766 := by
    intro a _
    have hzeros := h.table_lt true false a
    have hones := h.table_lt true true a
    simp only [HealthState.table, inmMaxCount] at hzeros hones
    omega
  have hpow : 2 ^ n ≤ 2 ^ 17 := Nat.pow_le_pow_right (by decide) hn
  have hsum := sum_le_card_nsmul _ _ _ hterm
  rw [card_range, smul_eq_mul] at hsum
  omega

/-- The contexts of a place, added up. -/
lemma HealthState.InRange.countLsb_eq (h : hc.InRange n) (hn : n ≤ 17) (hmn : m ≤ n) {i : ℕ}
    (hi : i < 2 ^ m) :
    countLsb hc m i =
      (seenIn (range (2 ^ n)) (fun a => a % 2 ^ m) hc.zerosEven i,
        seenIn (range (2 ^ n)) (fun a => a % 2 ^ m) hc.onesEven i) := by
  have hsum := h.sum_lt hn
  rw [sum_add_distrib] at hsum
  have hle : ∀ count : ℕ → ℕ, seenIn (range (2 ^ n)) (fun a => a % 2 ^ m) count i ≤
      ∑ a ∈ range (2 ^ n), count a := fun count => sum_le_sum_of_subset (filter_subset _ _)
  have hzeros := hle hc.zerosEven
  have hones := hle hc.onesEven
  rw [seenIn_mod hmn _ hi] at hzeros hones ⊢
  rw [seenIn_mod hmn _ hi, countLsb, h.n_eq, Nat.one_shiftLeft, Nat.one_shiftLeft,
    ← foldl_pair_eq (by omega) (by omega)]
  apply List.foldl_ext
  intro counts j hj
  -- the places are those of the table
  have hplace : i + j * 2 ^ m < 2 ^ n := by
    calc i + j * 2 ^ m < (j + 1) * 2 ^ m := by rw [Nat.add_mul]; omega
      _ ≤ 2 ^ (n - m) * 2 ^ m := Nat.mul_le_mul_right _ (List.mem_range.mp hj)
      _ = 2 ^ n := by rw [← pow_add, Nat.sub_add_cancel hmn]
  have hpow : 2 ^ n ≤ 2 ^ 17 := Nat.pow_le_pow_right (by decide) hn
  rw [u32_of_lt (by omega : j * 2 ^ m < 4294967296), u32_of_lt (by omega)]

/-- What is printed for `m` bits. -/
lemma HealthState.InRange.checkLSBStatsForNBits_eq (h : hc.InRange n) (hn : n ≤ 17)
    (hmn : m ≤ n) :
    checkLSBStatsForNBits hc m =
      (guessedRight (range (2 ^ n)) (range (2 ^ m)) (fun a => a % 2 ^ m) hc.zerosEven hc.onesEven,
        ∑ a ∈ range (2 ^ n), (hc.zerosEven a + hc.onesEven a)) := by
  have hcontext : ∀ a ∈ range (2 ^ n), a % 2 ^ m ∈ range (2 ^ m) :=
    fun a _ => mem_range.mpr (Nat.mod_lt a (Nat.two_pow_pos m))
  have hsum := h.sum_lt hn
  have hright : guessedRight (range (2 ^ n)) (range (2 ^ m)) (fun a => a % 2 ^ m) hc.zerosEven
      hc.onesEven ≤ ∑ a ∈ range (2 ^ n), (hc.zerosEven a + hc.onesEven a) :=
    guessedRight_le hcontext
  have hguesses : ∑ a ∈ range (2 ^ n), (hc.zerosEven a + hc.onesEven a) =
      ∑ i ∈ range (2 ^ m), (seenIn (range (2 ^ n)) (fun a => a % 2 ^ m) hc.zerosEven i +
        seenIn (range (2 ^ n)) (fun a => a % 2 ^ m) hc.onesEven i) := by
    rw [sum_add_distrib, sum_add_distrib, sum_seenIn hcontext, sum_seenIn hcontext]
  rw [guessedRight] at hright ⊢
  rw [hguesses] at hsum hright ⊢
  rw [checkLSBStatsForNBits, Nat.one_shiftLeft, ← foldl_pair_eq (by omega) hsum]
  apply List.foldl_ext
  intro totals i hi
  have hone := single_le_sum (f := fun i => seenIn (range (2 ^ n)) (fun a => a % 2 ^ m)
    hc.zerosEven i + seenIn (range (2 ^ n)) (fun a => a % 2 ^ m) hc.onesEven i)
    (fun _ _ => Nat.zero_le _) (mem_range.mpr (List.mem_range.mp hi))
  dsimp only at hone ⊢
  rw [h.countLsb_eq hn hmn (List.mem_range.mp hi), u32_of_lt (lt_of_le_of_lt hone hsum)]
  dsimp only
  congr 3
  split_ifs with hle
  · exact (max_eq_left hle).symm
  · exact (max_eq_right (Nat.le_of_not_le hle)).symm

end

/-- For up to 17 context bits, on any memory and whatever samples are given to the checker: the
guesses that `checkLSBStats` reports are as many for each number of bits, those from more bits are
right at least as often, and none are right less than half of the time. -/
theorem lsbStats_monotone (log : Float → Float) (memory : HealthState) (k : Float)
    (debug : Bool) {n : ℕ} (hpos : 1 ≤ n) (hle : n ≤ 17) (samples : List Kernel.Sample) :
    ∃ cs hc, Run HealthState.addBit (inmHealthCheckStart log memory n k debug true).2 cs hc ∧
      cs.map Call.input = samples ∧ (checkLSBStats hc).length = n ∧
      (checkLSBStats hc).Pairwise (fun p q => p.1 ≤ q.1 ∧ p.2 = q.2) ∧
      ∀ p ∈ checkLSBStats hc, p.1 ≤ p.2 ∧ p.2 ≤ 2 * p.1 := by
  have hreturns : ∀ hc x, HealthState.InRange n hc → ∃ r, hc.addBit x = some r ∧ r.2.InRange n :=
    fun _ x h => h.addBit hpos x
  have hstart := inmHealthCheckStart_inRange log memory k debug hpos (hle.trans (by decide))
  obtain ⟨cs, hc, hrun, hin⟩ := Run.exists_of_total hreturns hstart samples
  have hrange : hc.InRange n := Reachable.invariant_of_total hreturns ⟨cs, hrun⟩ hstart
  refine ⟨cs, hc, hrun, hin, ?_, ?_, fun p hp => ?_⟩
  · rw [checkLSBStats, List.length_map, List.length_range', hrange.n_eq]
  · rw [checkLSBStats, List.pairwise_map, hrange.n_eq]
    refine List.Pairwise.imp_of_mem (fun {a b} ha hb hab => ?_) List.pairwise_lt_range'
    rw [List.mem_range'_1] at ha hb
    rw [hrange.checkLSBStatsForNBits_eq hle (by omega),
      hrange.checkLSBStatsForNBits_eq hle (by omega)]
    exact ⟨guessedRight_mod_le hab.le _ _, rfl⟩
  · obtain ⟨m, hm, rfl⟩ := List.mem_map.mp hp
    rw [List.mem_range'_1, hrange.n_eq] at hm
    have hcontext : ∀ a ∈ range (2 ^ n), a % 2 ^ m ∈ range (2 ^ m) :=
      fun a _ => mem_range.mpr (Nat.mod_lt a (Nat.two_pow_pos m))
    rw [hrange.checkLSBStatsForNBits_eq hle (by omega)]
    exact ⟨guessedRight_le hcontext, le_guessedRight hcontext⟩

/-- The test has 16 context bits. -/
theorem lsbStats_monotone_sixteen :
    ∃ cs hc, Run HealthState.addBit
        (inmHealthCheckStart tableLog blankContext.health 16 designK false true).2 cs hc ∧
      cs.map Call.input = registerSamples 400000 ∧
      (checkLSBStats hc).length = 16 ∧
      (checkLSBStats hc).Pairwise (fun p q => p.1 ≤ q.1 ∧ p.2 = q.2) ∧
      ∀ p ∈ checkLSBStats hc, p.1 ≤ p.2 ∧ p.2 ≤ 2 * p.1 :=
  lsbStats_monotone tableLog blankContext.health designK false (by decide) (by decide) _

end Userspace
