import Infnoise.Kernel.Calls
import Mathlib.Algebra.BigOperators.Group.List.Basic
import Mathlib.Algebra.Order.BigOperators.GroupWithZero.List
import Mathlib.Algebra.Order.Field.Rat
import Mathlib.Data.Rat.Cast.Order
import Mathlib.Tactic.FieldSimp
import Mathlib.Tactic.GCongr
import Mathlib.Tactic.Linarith
import Mathlib.Tactic.Positivity

/-!
# The fixed-point estimator

The checker multiplies a 16-bit probability by frequencies and counts a bit each time it falls to
one half. Both the frequency and the product are rounded down, so the bits counted can exceed the
surprise of the bits seen, but in each call by no more than the rounding of that call.
-/

namespace Kernel

open Core

/-- The frequency of the bit of a sample in its context, as read from the table of its phase, or one
when it has not been observed there. -/
def Health.frequency (h : Health) (x : Sample) : ℚ :=
  let context := (h.observe x.evenBit x.oddBit x.even).prevBits
  let observed := h.table x.even x.bit context
  if observed = 0 then 1 else observed / (observed + h.table x.even (!x.bit) context)

/-- What a call can lose to rounding when it counts `k` bits. -/
def rounding (k : ℕ) : ℚ := 1 + 2 ^ k / 2 ^ 14

lemma Health.frequency_nonneg (h : Health) (x : Sample) : 0 ≤ h.frequency x := by
  simp only [frequency]
  split_ifs
  · exact zero_le_one
  · positivity

lemma rounding_pos (k : ℕ) : 0 < rounding k := by
  rw [rounding]
  positivity

/-! ### One call -/

/-- Two roundings lose less than two units. -/
lemma mul_frequency_lt {p c o : ℕ} (hp : p ≤ fpOne) (hc : 0 < c) (hc' : c < inmMaxCount)
    (ho : o < inmMaxCount) : (p * (c / (c + o)) : ℚ) < fpMul p (fpDiv c (c + o)) + 2 := by
  obtain ⟨hexact, _, hle⟩ := fpDiv_bounds hc hc' ho
  have htotal : (0 : ℚ) < c + o := by positivity
  have hp' : (p : ℚ) ≤ 65536 := by exact_mod_cast hp
  have hp0 : (0 : ℚ) ≤ p := Nat.cast_nonneg p
  rw [fpMul_eq (fpMulExact_of_le hp hle), fpDiv_eq (by omega) hexact]
  have hdiv : (c * 65536 : ℚ) < ((c * 65536 / (c + o) : ℕ) + 1) * (c + o) := by
    have := Nat.lt_div_mul_add (a := c * 65536) (b := c + o) (by omega)
    have : c * 65536 < (c * 65536 / (c + o) + 1) * (c + o) := by
      rw [Nat.add_mul, Nat.one_mul]
      exact this
    exact_mod_cast this
  generalize c * 65536 / (c + o) = f at hdiv
  have hmul : (p * f : ℚ) < ((p * f / 65536 : ℕ) + 1) * 65536 := by
    have := Nat.lt_div_mul_add (a := p * f) (b := 65536) (by norm_num)
    have : p * f < (p * f / 65536 + 1) * 65536 := by omega
    exact_mod_cast this
  have hfreq : (c / (c + o) : ℚ) < (f + 1) / 65536 := by
    rw [div_lt_div_iff₀ htotal (by norm_num)]
    exact hdiv
  rcases hp0.eq_or_lt with hzero | hpos
  · rw [← hzero, zero_mul]
    positivity
  · have := mul_lt_mul_of_pos_left hfreq hpos
    linarith

/-- A call multiplies the probability by the frequency and by a factor of two for each bit it
counts, up to rounding. -/
lemma Health.Passed.bound {h h' : Health} {x : Sample} (hp : h.Passed x h') (hinv : h.Inv) :
    2 ^ h.bitsCounted x * (h.currentProb * h.frequency x) ≤
      h'.currentProb * rounding (h.bitsCounted x) := by
  have hgt := hp.inv.currentProb_gt
  obtain ⟨e, he⟩ : ∃ e, ((h.check x).2.updateProb x.bit x.even).currentProb = e := ⟨_, rfl⟩
  have heq := hp.prob_eq
  rw [he] at heq
  have hlt : (h.currentProb * h.frequency x : ℚ) < e + 2 := by
    rw [hinv.prediction_eq x (h.observe_prevBits x.evenBit x.oddBit x.even).symm rfl rfl] at he
    have hc := hinv.table_lt x.even x.bit (h.observe x.evenBit x.oddBit x.even).prevBits
    have ho := hinv.table_lt x.even (!x.bit) (h.observe x.evenBit x.oddBit x.even).prevBits
    simp only [Health.frequency]
    split_ifs with hzero
    · rw [if_pos hzero] at he
      rw [← he, mul_one]
      linarith
    · rw [if_neg hzero] at he
      rw [← he]
      exact mul_frequency_lt hinv.currentProb_le (Nat.pos_of_ne_zero hzero) hc ho
  have hgt' : (2 ^ 15 : ℚ) ≤ h'.currentProb := by
    have : 2 ^ 15 ≤ h'.currentProb := by simp only [fpHalf] at hgt; omega
    exact_mod_cast this
  have heq' : (h'.currentProb : ℚ) = e * 2 ^ h.bitsCounted x := by
    rw [heq]
    push_cast
    ring
  calc (2 : ℚ) ^ h.bitsCounted x * (h.currentProb * h.frequency x)
      ≤ 2 ^ h.bitsCounted x * (e + 2) := by gcongr
    _ = h'.currentProb + 2 ^ 15 * (2 ^ h.bitsCounted x / 2 ^ 14) := by rw [heq']; ring
    _ ≤ h'.currentProb + h'.currentProb * (2 ^ h.bitsCounted x / 2 ^ 14) := by gcongr
    _ = h'.currentProb * rounding (h.bitsCounted x) := by rw [rounding]; ring

/-! ### A run of calls -/

/-- As long as the window is not full, a run of calls that return `true` counts no more than the
surprise of its bits, the change of the probability and the roundings. -/
lemma run_bound {h h' : Health} {cs : List (Call Health Sample Bool)}
    (hrun : Run Health.addBit h cs h') (hinv : h.Inv) (htrue : ∀ c ∈ cs, c.output = true)
    (hlen : h.numBitsSampled + cs.length < 80000) :
    2 ^ h'.numBitsOfEntropy * (cs.map fun c => c.before.frequency c.input).prod * h.currentProb ≤
      2 ^ h.numBitsOfEntropy * h'.currentProb *
        (cs.map fun c => rounding (c.before.bitsCounted c.input)).prod := by
  induction hrun with
  | nil h => simp
  | @cons h h₁ h' x ok cs hadd hrun ih =>
    rw [List.length_cons] at hlen
    obtain rfl : ok = true := htrue _ List.mem_cons_self
    rcases Health.addBit_outcome hinv hadd with ⟨hfalse, _⟩ | ⟨_, hp⟩
    · cases hfalse
    obtain ⟨_, _, hsam, hent⟩ := hp.counters hinv
    rw [if_neg (by omega)] at hsam hent
    have hrest := ih hp.inv (fun c hc => htrue c (List.mem_cons_of_mem _ hc)) (by omega)
    have hcall := hp.bound hinv
    rw [hent] at hrest
    simp only [List.map_cons, List.prod_cons]
    have hround := (rounding_pos (h.bitsCounted x)).le
    have hfreqs : (0 : ℚ) ≤ (cs.map fun c => c.before.frequency c.input).prod :=
      List.prod_nonneg fun f hf => by
        obtain ⟨c, -, rfl⟩ := List.mem_map.mp hf
        exact c.before.frequency_nonneg c.input
    generalize (cs.map fun c => c.before.frequency c.input).prod = freqs at hrest hfreqs ⊢
    generalize (cs.map fun c => rounding (c.before.bitsCounted c.input)).prod = rounds at hrest ⊢
    refine le_of_mul_le_mul_left ?_ (by positivity : (0 : ℚ) < 2 ^ h.bitsCounted x)
    calc (2 : ℚ) ^ h.bitsCounted x *
          (2 ^ h'.numBitsOfEntropy * (h.frequency x * freqs) * h.currentProb)
        = 2 ^ h'.numBitsOfEntropy * freqs *
            (2 ^ h.bitsCounted x * (h.currentProb * h.frequency x)) := by ring
      _ ≤ 2 ^ h'.numBitsOfEntropy * freqs *
            (h₁.currentProb * rounding (h.bitsCounted x)) := by gcongr
      _ = 2 ^ h'.numBitsOfEntropy * freqs * h₁.currentProb * rounding (h.bitsCounted x) := by ring
      _ ≤ 2 ^ (h.numBitsOfEntropy + h.bitsCounted x) * h'.currentProb * rounds *
            rounding (h.bitsCounted x) := by gcongr
      _ = 2 ^ h.bitsCounted x * (2 ^ h.numBitsOfEntropy * h'.currentProb *
            (rounding (h.bitsCounted x) * rounds)) := by rw [pow_add]; ring

/-- In every sequence of calls that return `true`, short enough that the window does not fill, the
bits counted exceed the surprise of the bits seen by the roundings at most. -/
theorem estimate_bounded {h : Health} {cs : List (Call Health Sample Bool)}
    (hrun : Run Health.addBit infnoiseHealthInit cs h) (htrue : ∀ c ∈ cs, c.output = true)
    (hlen : cs.length < 80000) :
    2 ^ h.numBitsOfEntropy * (cs.map fun c => c.before.frequency c.input).prod ≤
      (cs.map fun c => rounding (c.before.bitsCounted c.input)).prod := by
  have hbound := run_bound hrun infnoiseHealthInit_inv htrue (by
    change 0 + cs.length < 80000
    omega)
  have hreturns : ∀ h x, Health.Inv h → ∃ r, Health.addBit h x = some r ∧ Health.Inv r.2 :=
    fun _ x hinv => Health.addBit_returns hinv x
  have hstep : ∀ s x o s', Health.addBit s x = some (o, s') → s.Inv → s'.Inv := by
    intro s x o s' hadd hs
    obtain ⟨r, hr, hinv⟩ := hreturns s x hs
    rw [hadd] at hr
    cases hr
    exact hinv
  have hle : (h.currentProb : ℚ) ≤ 65536 := by
    exact_mod_cast (hrun.invariant hstep infnoiseHealthInit_inv).2.currentProb_le
  have hround : (0 : ℚ) ≤ (cs.map fun c => rounding (c.before.bitsCounted c.input)).prod :=
    List.prod_nonneg fun r hr => by
      obtain ⟨c, -, rfl⟩ := List.mem_map.mp hr
      exact (rounding_pos _).le
  have hstart : (infnoiseHealthInit.currentProb : ℚ) = 65536 := by norm_num [infnoiseHealthInit]
  have hzero : infnoiseHealthInit.numBitsOfEntropy = 0 := rfl
  rw [hstart, hzero, pow_zero, one_mul] at hbound
  refine le_of_mul_le_mul_right (hbound.trans ?_) (by norm_num : (0 : ℚ) < 65536)
  rw [mul_comm]
  gcongr

/-! ### A sequence that is over-counted -/

/-- The bits counted and the product of the frequencies over calls that all return `true`. -/
def tally : Health → ℚ → List Sample → Option (ℕ × ℚ)
  | h, f, [] => some (h.numBitsOfEntropy, f)
  | h, f, x :: xs =>
    match h.addBit x with
    | some (true, h') => tally h' (f * h.frequency x) xs
    | _ => none

lemma run_of_tally {h : Health} {f f' : ℚ} {xs : List Sample} {n : ℕ}
    (ht : tally h f xs = some (n, f')) :
    ∃ cs h', Run Health.addBit h cs h' ∧ cs.map Call.input = xs ∧
      (∀ c ∈ cs, c.output = true) ∧ h'.numBitsOfEntropy = n ∧
      f' = f * (cs.map fun c => c.before.frequency c.input).prod := by
  induction xs generalizing h f with
  | nil =>
    obtain ⟨rfl, rfl⟩ := Prod.mk.inj (Option.some.inj ht)
    exact ⟨[], h, .nil h, rfl, by simp, rfl, by simp⟩
  | cons x xs ih =>
    rw [tally] at ht
    split at ht
    · rename_i h₁ hadd
      obtain ⟨cs, h', hrun, hin, htrue, hn, hf⟩ := ih ht
      refine ⟨_, h', .cons hadd hrun, by rw [List.map_cons, hin], ?_, hn, ?_⟩
      · intro c hc
        rcases List.mem_cons.mp hc with rfl | hc
        · rfl
        · exact htrue c hc
      · rw [hf, List.map_cons, List.prod_cons, mul_assoc]
    · cases ht

/-- Two ones among zeros: the frequencies multiply to 11 / 703, and six bits are counted. -/
def overcounted : List Sample :=
  List.replicate 22 ⟨false, false, false⟩ ++ [⟨false, true, false⟩] ++
    List.replicate 29 ⟨false, false, false⟩ ++ [⟨false, true, false⟩]

lemma tally_overcounted : tally infnoiseHealthInit 1 overcounted = some (6, 11 / 703) := by
  decide +kernel

theorem estimate_exceeds : ∃ cs h, Run Health.addBit infnoiseHealthInit cs h ∧
    (∀ c ∈ cs, c.output = true) ∧ cs.length < 80000 ∧
    1 < 2 ^ h.numBitsOfEntropy * (cs.map fun c => c.before.frequency c.input).prod := by
  obtain ⟨cs, h, hrun, hin, htrue, hn, hf⟩ := run_of_tally tally_overcounted
  have hlen : cs.length = overcounted.length := by rw [← hin, List.length_map]
  refine ⟨cs, h, hrun, htrue, by rw [hlen]; decide, ?_⟩
  rw [one_mul] at hf
  rw [hn, ← hf]
  norm_num

/-- The bound on that sequence. -/
theorem estimate_bounded_overcounted : ∃ cs h, Run Health.addBit infnoiseHealthInit cs h ∧
    cs.map Call.input = overcounted ∧
    704 / 703 ≤ (cs.map fun c => rounding (c.before.bitsCounted c.input)).prod := by
  obtain ⟨cs, h, hrun, hin, htrue, hn, hf⟩ := run_of_tally tally_overcounted
  have hlen : cs.length = overcounted.length := by rw [← hin, List.length_map]
  refine ⟨cs, h, hrun, hin, ?_⟩
  have hbound := estimate_bounded hrun htrue (by rw [hlen]; decide)
  rw [one_mul] at hf
  rw [hn, ← hf] at hbound
  exact le_trans (by norm_num) hbound

end Kernel
