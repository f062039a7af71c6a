import Infnoise.Core.Binary64
import Infnoise.Core.Machine
import Mathlib.Analysis.Convex.SpecificFunctions.Basic
import Mathlib.Analysis.SpecialFunctions.Log.Base

/-!
# Measuring surprise

The surprise of an outcome of frequency `f` is `-log₂ f`. A gauge adds up what is given to it, and
forgets one half of it whenever its window is full. A count of bits follows a gauge of surprise when
it goes with a probability between one half and one: the probability is multiplied by the
frequencies, and a bit is counted for each doubling that brings it back. What the multiplications
lose is forgotten together with the surprise, so the errors of a window are all that there is.
-/

namespace Core

/-- The surprise of an outcome, in bits. -/
noncomputable def surprise (f : ℝ) : ℝ := -Real.logb 2 f

lemma surprise_one : surprise 1 = 0 := by simp [surprise]

lemma surprise_mul {f g : ℝ} (hf : 0 < f) (hg : 0 < g) :
    surprise (f * g) = surprise f + surprise g := by
  rw [surprise, surprise, surprise, Real.logb_mul hf.ne' hg.ne']
  ring

lemma surprise_two_pow (k : ℕ) : surprise (2 ^ k) = -k := by
  rw [surprise, Real.logb_pow, Real.logb_self_eq_one one_lt_two, mul_one]

/-- A probability that is multiplied, and doubled. -/
lemma surprise_mul_two_pow {p f : ℝ} (hp : 0 < p) (hf : 0 < f) (k : ℕ) :
    surprise (p * f * 2 ^ k) = surprise p + surprise f - k := by
  rw [surprise_mul (mul_pos hp hf) (by positivity), surprise_mul hp hf, surprise_two_pow]
  ring

lemma surprise_prod_map {α : Type*} {f : α → ℝ} (hf : ∀ a, 0 < f a) (as : List α) :
    surprise (as.map f).prod = (as.map fun a => surprise (f a)).sum := by
  induction as with
  | nil => simp [surprise_one]
  | cons a as ih =>
    have hpos : 0 < (as.map f).prod := List.prod_pos (List.forall_mem_map.mpr fun a _ => hf a)
    rw [List.map_cons, List.prod_cons, surprise_mul (hf a) hpos, ih, List.map_cons, List.sum_cons]

lemma surprise_le_of_le {f g : ℝ} (hf : 0 < f) (h : f ≤ g) : surprise g ≤ surprise f :=
  neg_le_neg (Real.logb_le_logb_of_le one_lt_two hf h)

/-- The surprise of a probability that is more than one half is less than one bit. -/
lemma surprise_mem {p : ℝ} (hhalf : 1 / 2 < p) (hone : p ≤ 1) :
    0 ≤ surprise p ∧ surprise p < 1 := by
  have hpos : 0 < p := by linarith
  constructor
  · have hle := surprise_le_of_le hpos hone
    rwa [surprise_one] at hle
  · have hlt := Real.logb_lt_logb one_lt_two (by norm_num) hhalf
    rw [one_div, Real.logb_inv, Real.logb_self_eq_one one_lt_two] at hlt
    rw [surprise]
    linarith

/-- A surprise of `n` bits is a probability below `2 ^ -n`. -/
lemma le_of_le_surprise {p : ℝ} {n : ℕ} (hp : 0 < p) (h : n ≤ surprise p) : p ≤ 1 / 2 ^ n := by
  have hlog : Real.logb 2 p ≤ Real.logb 2 (1 / 2 ^ n) := by
    rw [one_div, Real.logb_inv, Real.logb_pow, Real.logb_self_eq_one one_lt_two, mul_one]
    rw [surprise] at h
    linarith
  exact (Real.logb_le_logb one_lt_two hp (by positivity)).mp hlog

lemma le_surprise_of_le {p : ℝ} {n : ℕ} (hp : 0 < p) (h : p ≤ 1 / 2 ^ n) : n ≤ surprise p := by
  have hle := surprise_le_of_le hp h
  rw [surprise, one_div, Real.logb_inv, Real.logb_pow, Real.logb_self_eq_one one_lt_two, mul_one,
    neg_neg] at hle
  exact hle

/-- A factor that is a little less than one adds little surprise. -/
lemma surprise_one_sub_le {u : ℝ} (h0 : 0 ≤ u) (hhalf : u ≤ 1 / 2) :
    surprise (1 - u) ≤ 2 * u := by
  have hbase : (0 : ℝ) < 1 / 2 := by norm_num
  -- `log₂` is concave, so `log₂ (1 - u)` is above the chord from one to one half
  have hconcave : (1 - 2 * u) • Real.log 1 + (2 * u) • Real.log (1 / 2) ≤
      Real.log ((1 - 2 * u) • 1 + (2 * u) • (1 / 2)) :=
    strictConcaveOn_log_Ioi.concaveOn.2 (Set.mem_Ioi.mpr one_pos) (Set.mem_Ioi.mpr hbase)
      (by linarith) (by linarith) (by ring)
  simp only [smul_eq_mul, Real.log_one, mul_zero, zero_add] at hconcave
  rw [show (1 - 2 * u) * 1 + 2 * u * (1 / 2) = 1 - u by ring, one_div, Real.log_inv] at hconcave
  have hlog2 := Real.log_pos one_lt_two
  rw [surprise, Real.logb, ← neg_div, div_le_iff₀ hlog2]
  linarith

/-! ### Gauges -/

/-- The samples in the window, and what they add up to. -/
structure Gauge where
  samples : ℕ
  total : ℝ

namespace Gauge

variable {α : Type*} {window : ℕ}

/-- One more sample. -/
noncomputable def add (window : ℕ) (g : Gauge) (x : ℝ) : Gauge :=
  if g.samples + 1 = window then ⟨(g.samples + 1) / 2, (g.total + x) / 2⟩
  else ⟨g.samples + 1, g.total + x⟩

/-- The gauge after these samples. -/
noncomputable def of (window : ℕ) (xs : List ℝ) : Gauge := xs.foldl (add window) ⟨0, 0⟩

@[simp] lemma of_nil : of window [] = ⟨0, 0⟩ := rfl

@[simp] lemma of_append_singleton (xs : List ℝ) (x : ℝ) :
    of window (xs ++ [x]) = (of window xs).add window x := by
  simp [of]

lemma add_samples {g g' : Gauge} (h : g.samples = g'.samples) (x y : ℝ) :
    (g.add window x).samples = (g'.add window y).samples := by
  rw [add, add, h]
  split_ifs <;> rfl

lemma samples_lt (hwindow : 1 < window) (xs : List ℝ) : (of window xs).samples < window := by
  induction xs using List.reverseRecOn with
  | nil => exact Nat.zero_lt_of_lt hwindow
  | append_singleton xs x ih =>
    rw [of_append_singleton, add]
    split_ifs with hfull
    · dsimp only
      omega
    · dsimp only
      omega

/-- Equal samples add up to their number in the window. -/
lemma total_const (hwindow : 2 ∣ window) (c : ℝ) (as : List α) :
    (of window (as.map fun _ => c)).total = c * (of window (as.map fun _ => c)).samples := by
  induction as using List.reverseRecOn with
  | nil => simp
  | append_singleton as a ih =>
    rw [List.map_append, List.map_singleton, of_append_singleton, add]
    split_ifs with hfull
    · obtain ⟨k, rfl⟩ := hwindow
      dsimp only
      have hcast : ((of (2 * k) (as.map fun _ => c)).samples : ℝ) + 1 = 2 * k := by
        exact_mod_cast hfull
      rw [ih, hfull, Nat.mul_div_cancel_left k two_pos]
      linear_combination c / 2 * hcast
    · dsimp only
      rw [ih]
      push_cast
      ring

end Gauge

/-! ### Counts that follow a gauge -/

/-- The count, and the surprise of the probability that goes with it, are a gauge reading up to one
bit and the errors `lo` and `hi`. -/
structure Follows (lo hi total : ℝ) (count : ℕ) (p : ℝ) : Prop where
  half_lt : 1 / 2 < p
  le_one : p ≤ 1
  lower : total + lo - 1 ≤ count + surprise p
  upper : count + surprise p ≤ total + hi + 1

namespace Follows

variable {lo hi total p : ℝ} {count : ℕ}

lemma start : Follows 0 0 0 0 1 := by
  constructor <;> norm_num [surprise_one]

/-- A sample whose surprise is `x`, up to errors, and `k` doublings. -/
lemma sample (h : Follows lo hi total count p) {x lo' hi' f p' : ℝ} {k : ℕ} (hf : 0 < f)
    (hlo : x + lo' ≤ surprise f) (hhi : surprise f ≤ x + hi') (hp : p' = p * f * 2 ^ k)
    (hhalf : 1 / 2 < p') (hone : p' ≤ 1) :
    Follows (lo + lo') (hi + hi') (total + x) (count + k) p' := by
  have hsurprise : surprise p' = surprise p + surprise f - k :=
    hp ▸ surprise_mul_two_pow (lt_trans (by norm_num) h.half_lt) hf k
  have hlower := h.lower
  have hupper := h.upper
  refine ⟨hhalf, hone, ?_, ?_⟩
  · rw [hsurprise]
    push_cast
    linarith
  · rw [hsurprise]
    push_cast
    linarith

/-- Halving the count loses half a bit at most. -/
lemma halve (h : Follows lo hi total count p) :
    Follows (lo / 2) (hi / 2) (total / 2) (count / 2) p := by
  obtain ⟨hnonneg, hlt⟩ := surprise_mem h.half_lt h.le_one
  have hlower := h.lower
  have hupper := h.upper
  have hcount : count ≤ 2 * (count / 2) + 1 ∧ 2 * (count / 2) ≤ count := by omega
  have hlow : (count : ℝ) ≤ 2 * (count / 2 : ℕ) + 1 := by exact_mod_cast hcount.1
  have hhigh : 2 * ((count / 2 : ℕ) : ℝ) ≤ count := by exact_mod_cast hcount.2
  refine ⟨h.half_lt, h.le_one, ?_, ?_⟩
  · linarith
  · linarith

/-- The count is the gauge reading, up to two bits and the errors. -/
lemma count_bounds (h : Follows lo hi total count p) :
    total + lo - 2 < count ∧ count ≤ total + hi + 1 := by
  obtain ⟨hnonneg, hlt⟩ := surprise_mem h.half_lt h.le_one
  have hlower := h.lower
  have hupper := h.upper
  constructor <;> linarith

end Follows

/-- What is read off an implementation: the samples in its window, its count and its
probability. -/
structure Reading where
  samples : ℕ
  count : ℕ
  prob : ℝ

/-- A sample of surprise `x` has been counted, with an error between `lo` and `hi`. -/
structure Reading.Counts (window : ℕ) (x lo hi : ℝ) (r r' : Reading) : Prop where
  half_lt : 1 / 2 < r'.prob
  le_one : r'.prob ≤ 1
  counted : ∃ (f : ℝ) (k : ℕ), 0 < f ∧ x + lo ≤ surprise f ∧ surprise f ≤ x + hi ∧
    r'.prob = r.prob * f * 2 ^ k ∧
      if r.samples + 1 = window then r'.samples = (r.samples + 1) / 2 ∧ r'.count = (r.count + k) / 2
      else r'.samples = r.samples + 1 ∧ r'.count = r.count + k

/-- The gauges of surprise and of the errors, and the count that follows them. -/
structure Reading.Measures (window : ℕ) (gauge lo hi : Gauge) (r : Reading) : Prop where
  samples_eq : r.samples = gauge.samples
  lo_samples : lo.samples = gauge.samples
  hi_samples : hi.samples = gauge.samples
  follows : Follows lo.total hi.total gauge.total r.count r.prob

/-- One sample, counted. -/
lemma Reading.Measures.add {window : ℕ} {gauge glo ghi : Gauge} {r r' : Reading} {x lo hi : ℝ}
    (h : r.Measures window gauge glo ghi) (hcounts : r.Counts window x lo hi r') :
    r'.Measures window (gauge.add window x) (glo.add window lo) (ghi.add window hi) := by
  obtain ⟨hhalf, hone, f, k, hf, hlo, hhi, hprob, hcount⟩ := hcounts
  have hsample := h.follows.sample hf hlo hhi hprob hhalf hone
  rw [h.samples_eq] at hcount
  refine ⟨?_, Gauge.add_samples h.lo_samples _ _, Gauge.add_samples h.hi_samples _ _, ?_⟩
  · rw [Gauge.add]
    split_ifs at hcount ⊢ with hfull
    · exact hcount.1
    · exact hcount.1
  · rw [Gauge.add, Gauge.add, Gauge.add, h.lo_samples, h.hi_samples]
    split_ifs at hcount ⊢ with hfull
    · rw [hcount.2]
      exact hsample.halve
    · rw [hcount.2]
      exact hsample

/-- When the errors of each sample are at most `c`, those of a count are at most the ones of a full
window. -/
lemma Reading.Measures.count_bounds {α : Type*} {window : ℕ} {gauge : Gauge} {r : Reading} {c : ℝ}
    {as : List α} (h : r.Measures window gauge (Gauge.of window (as.map fun _ => -c))
      (Gauge.of window (as.map fun _ => c)))
    (hwindow : 2 ∣ window) (hlarge : 1 < window) (hc : 0 ≤ c) :
    gauge.total - 2 - c * window < r.count ∧ r.count ≤ gauge.total + 1 + c * window := by
  have hcast : ∀ x : ℝ, ((Gauge.of window (as.map fun _ => x)).samples : ℝ) ≤ window :=
    fun x => Nat.cast_le.mpr (Gauge.samples_lt hlarge _).le
  obtain ⟨hlower, hupper⟩ := h.follows.count_bounds
  rw [Gauge.total_const hwindow] at hlower hupper
  have hlo := mul_le_mul_of_nonneg_left (hcast (-c)) hc
  have hhi := mul_le_mul_of_nonneg_left (hcast c) hc
  constructor
  · linarith
  · linarith

/-- Run rule: a machine some of whose calls count a sample, while the others leave the reading as it
is, measures the surprise of the calls that count. -/
lemma Run.measures {σ ι ο : Type*} {step : σ → ι → Option (ο × σ)} (window : ℕ)
    (read : σ → Reading) (counts : Call σ ι ο → Bool) (x lo hi : Call σ ι ο → ℝ) {I : σ → Prop}
    (hstep : ∀ c : Call σ ι ο, step c.before c.input = some (c.output, c.after) → I c.before →
      I c.after ∧ (counts c = false → read c.after = read c.before) ∧
        (counts c = true → (read c.before).Counts window (x c) (lo c) (hi c) (read c.after)))
    {s s' : σ} {cs : List (Call σ ι ο)} (h : Run step s cs s') (hI : I s)
    (hread : read s = ⟨0, 0, 1⟩) :
    (read s').Measures window (Gauge.of window ((cs.filter counts).map x))
      (Gauge.of window ((cs.filter counts).map lo)) (Gauge.of window ((cs.filter counts).map hi)) := by
  have hinv := h.history (I := fun cs s => I s ∧ (read s).Measures window
      (Gauge.of window ((cs.filter counts).map x)) (Gauge.of window ((cs.filter counts).map lo))
      (Gauge.of window ((cs.filter counts).map hi))) ?_ ?_
  · exact hinv.2
  · rintro cs c - hcall ⟨hIc, hmeasures⟩
    obtain ⟨hI', hidle, hcounts⟩ := hstep c hcall hIc
    refine ⟨hI', ?_⟩
    rcases hc : counts c with _ | _
    · rw [List.filter_append, List.filter_cons_of_neg (by simp [hc]), List.filter_nil,
        List.append_nil, hidle hc]
      exact hmeasures
    · rw [List.filter_append, List.filter_cons_of_pos (by simp [hc]), List.filter_nil]
      simp only [List.map_append, List.map_singleton, Gauge.of_append_singleton]
      exact hmeasures.add (hcounts hc)
  · refine ⟨hI, ?_⟩
    rw [hread]
    exact ⟨rfl, rfl, rfl, Follows.start⟩

/-! ### The probability of a run -/

section Level

variable {σ ι ο : Type*} {step : σ → ι → Option (ο × σ)} {s s' : σ} {cs : List (Call σ ι ο)}

/-- Run rule: what every call raises by `x` at most, a run raises by their sum. -/
lemma Run.le_add_sum {q : σ → ℝ} {x : Call σ ι ο → ℝ} (h : Run step s cs s')
    (hstep : ∀ c ∈ cs, q c.after ≤ q c.before + x c) : q s' ≤ q s + (cs.map x).sum := by
  induction h with
  | nil => simp
  | @cons s s' s'' i o cs h _ ih =>
    have hc := hstep ⟨s, i, o, s'⟩ List.mem_cons_self
    have hcs := ih fun c hc => hstep c (List.mem_cons_of_mem _ hc)
    rw [List.map_cons, List.sum_cons]
    dsimp only at hc
    linarith

/-- Run rule: the probability of a run, when the level that goes up with a probability follows the
surprise of each call, up to `ε`. -/
lemma Run.lt_surprise (level prob : σ → ℝ) {f : Call σ ι ο → ℝ} {ε : ℝ} (h : Run step s cs s')
    (hf : ∀ c, 0 < f c) (hs : 1 / 2 < prob s ∧ prob s ≤ 1) (hs' : 1 / 2 < prob s' ∧ prob s' ≤ 1)
    (hstep : ∀ c ∈ cs, level c.after + surprise (prob c.after) ≤
      level c.before + surprise (prob c.before) + (surprise (f c) + ε)) :
    level s' - level s - 1 - ε * cs.length < surprise (cs.map f).prod := by
  have hsum := h.le_add_sum (q := fun s => level s + surprise (prob s)) hstep
  rw [List.sum_map_add, ← surprise_prod_map hf, List.map_const', List.sum_replicate, nsmul_eq_mul] at hsum
  have hstart := surprise_mem hs.1 hs.2
  have hend := surprise_mem hs'.1 hs'.2
  linarith [hstart.2, hend.1]

/-- Run rule: the other direction. -/
lemma Run.surprise_lt (level prob : σ → ℝ) {f : Call σ ι ο → ℝ} (h : Run step s cs s')
    (hf : ∀ c, 0 < f c) (hs : 1 / 2 < prob s ∧ prob s ≤ 1) (hs' : 1 / 2 < prob s' ∧ prob s' ≤ 1)
    (hstep : ∀ c ∈ cs, level c.before + surprise (prob c.before) + surprise (f c) ≤
      level c.after + surprise (prob c.after)) :
    surprise (cs.map f).prod < level s' - level s + 1 := by
  have hsum := h.le_add_sum (q := fun s => -(level s + surprise (prob s)))
    (x := fun c => -surprise (f c)) fun c hc => by linarith only [hstep c hc]
  have hneg : (cs.map fun c => -surprise (f c)).sum = -surprise (cs.map f).prod := by
    rw [surprise_prod_map hf, List.sum_neg, List.map_map]
    rfl
  rw [hneg] at hsum
  have hstart := surprise_mem hs.1 hs.2
  have hend := surprise_mem hs'.1 hs'.2
  linarith [hstart.1, hend.2]

end Level

/-! ### Frequencies -/

/-- The frequency of an outcome that was seen `count` times, and any other one `other` times; one
for an outcome that was never seen. -/
noncomputable def frequency (count other : ℕ) : ℝ :=
  if count = 0 then 1 else count / (count + other)

lemma frequency_zero (other : ℕ) : frequency 0 other = 1 := if_pos rfl

lemma frequency_pos (count other : ℕ) : 0 < frequency count other := by
  rw [frequency]
  split_ifs with hzero
  · exact one_pos
  · have hcount : (0 : ℝ) < count := Nat.cast_pos.mpr (Nat.pos_of_ne_zero hzero)
    positivity

/-! ### Doubles -/

section Doubles

open Binary64

lemma Binary64.IsNormal.unique {x : Float} {p q : ℚ} (hp : IsNormal x p) (hq : IsNormal x q) :
    p = q :=
  le_antisymm ((hp.le_iff hq).mp ((hp.le_iff hp).mpr le_rfl))
    ((hq.le_iff hp).mp ((hp.le_iff hp).mpr le_rfl))

open Classical in
/-- The value of a normal number. -/
noncomputable def floatValue (x : Float) : ℝ :=
  if h : ∃ q, IsNormal x q then (h.choose : ℚ) else 0

lemma Binary64.IsNormal.floatValue_eq {x : Float} {q : ℚ} (h : IsNormal x q) :
    floatValue x = q := by
  have hex : ∃ q, IsNormal x q := ⟨q, h⟩
  rw [floatValue, dif_pos hex, hex.choose_spec.unique h]

/-- The surprise of a number that is another one up to a factor between `(1 - δ) ^ 2` and
`(1 + δ) ^ 2`. -/
lemma surprise_near {f g δ : ℝ} (hg : 0 < g) (hδ : 0 ≤ δ) (hδ' : δ ≤ 1 / 2)
    (hlow : g * ((1 - δ) * (1 - δ)) ≤ f) (hhigh : f ≤ g * ((1 + δ) * (1 + δ))) :
    surprise g - 4 * δ ≤ surprise f ∧ surprise f ≤ surprise g + 4 * δ := by
  have hsub : 0 < 1 - δ := by linarith
  have hadd : 0 < 1 + δ := by linarith
  have hless := surprise_one_sub_le hδ hδ'
  -- the factors above one gain no more than those below it lose
  have hmore : -surprise (1 - δ) ≤ surprise (1 + δ) := by
    have hle : surprise 1 ≤ surprise ((1 + δ) * (1 - δ)) :=
      surprise_le_of_le (mul_pos hadd hsub) (by nlinarith)
    rw [surprise_one, surprise_mul hadd hsub] at hle
    linarith
  have hbelow := surprise_le_of_le (by positivity) hlow
  have habove := surprise_le_of_le (lt_of_lt_of_le (by positivity) hlow) hhigh
  rw [surprise_mul hg (by positivity), surprise_mul hsub hsub] at hbelow
  rw [surprise_mul hg (by positivity), surprise_mul hadd hadd] at habove
  constructor
  · linarith
  · linarith

/-- A double that is multiplied by a frequency, in double arithmetic: the surprise of the factor is
that of the frequency, up to `2 ^ -50` bits. -/
lemma Binary64.IsNormal.mul_frequency {x : Float} {p : ℚ} (hp : IsNormal x p) (hhalf : 1 / 2 < p)
    (hone : p ≤ 1) {count other : ℕ} (hpos : 0 < count) (hcount : count < 16384)
    (hother : other < 16384) :
    ∃ (r : ℚ) (f : ℝ), IsNormal (x * (Float.ofNat count / Float.ofNat (count + other))) r ∧ 0 < f ∧
      (r : ℝ) = p * f ∧ surprise (frequency count other) - 2 ^ (-50 : ℤ) ≤ surprise f ∧
        surprise f ≤ surprise (frequency count other) + 2 ^ (-50 : ℤ) := by
  have hcountq : (0 : ℚ) < count := Nat.cast_pos.mpr hpos
  have hsum : (0 : ℚ) < (count + other : ℕ) := Nat.cast_pos.mpr (by omega)
  have hlarge : ((count + other : ℕ) : ℚ) ≤ count * 32768 := by
    exact_mod_cast (by omega : count + other ≤ count * 32768)
  have hlow : (1 : ℚ) / 32768 ≤ count / (count + other : ℕ) := by
    rw [le_div_iff₀ hsum]
    linarith
  have hhigh : (count : ℚ) / (count + other : ℕ) ≤ 1 := by
    rw [div_le_one hsum]
    exact_mod_cast Nat.le_add_right count other
  obtain ⟨g, hg, hglow, hghigh⟩ := (isNormal_ofNat hpos (by omega)).div_near
    (isNormal_ofNat (by omega : 0 < count + other) (by omega)) (le_trans (by norm_num) hlow)
    (hhigh.trans (by norm_num))
  set F : ℚ := count / (count + other : ℕ) with hF
  have hFpos : 0 < F := lt_of_lt_of_le (by norm_num) hlow
  have hg0 : (1 : ℚ) / 65536 ≤ g := by
    refine le_trans ?_ hglow
    norm_num at hlow ⊢
    linarith
  have hg2 : g ≤ 2 := by
    refine hghigh.trans ?_
    norm_num at hhigh ⊢
    linarith
  obtain ⟨r, hr, hrlow, hrhigh⟩ := hp.mul_near hg
    (by norm_num at hg0 ⊢; nlinarith) (by norm_num; nlinarith)
  have hp0 : (0 : ℝ) < p := by
    exact_mod_cast lt_trans (by norm_num) hhalf
  have hfreq : frequency count other = (F : ℝ) := by
    rw [frequency, if_neg hpos.ne', hF]
    push_cast
    rfl
  have hglow' : (F : ℝ) * (1 - 2 ^ (-52 : ℤ)) ≤ g := by
    simpa using (Rat.cast_le (K := ℝ)).mpr hglow
  have hghigh' : (g : ℝ) ≤ F * (1 + 2 ^ (-52 : ℤ)) := by
    simpa using (Rat.cast_le (K := ℝ)).mpr hghigh
  have hrlow' : (p : ℝ) * g * (1 - 2 ^ (-52 : ℤ)) ≤ r := by
    simpa using (Rat.cast_le (K := ℝ)).mpr hrlow
  have hrhigh' : (r : ℝ) ≤ p * g * (1 + 2 ^ (-52 : ℤ)) := by
    simpa using (Rat.cast_le (K := ℝ)).mpr hrhigh
  have hδ : (0 : ℝ) ≤ 1 - 2 ^ (-52 : ℤ) ∧ (0 : ℝ) ≤ 1 + 2 ^ (-52 : ℤ) := by norm_num
  have hlower : (F : ℝ) * ((1 - 2 ^ (-52 : ℤ)) * (1 - 2 ^ (-52 : ℤ))) ≤ r / p := by
    rw [le_div_iff₀ hp0]
    calc (F : ℝ) * ((1 - 2 ^ (-52 : ℤ)) * (1 - 2 ^ (-52 : ℤ))) * p
        = p * (F * (1 - 2 ^ (-52 : ℤ))) * (1 - 2 ^ (-52 : ℤ)) := by ring
      _ ≤ p * g * (1 - 2 ^ (-52 : ℤ)) :=
        mul_le_mul_of_nonneg_right (mul_le_mul_of_nonneg_left hglow' hp0.le) hδ.1
      _ ≤ r := hrlow'
  have hupper : (r : ℝ) / p ≤ F * ((1 + 2 ^ (-52 : ℤ)) * (1 + 2 ^ (-52 : ℤ))) := by
    rw [div_le_iff₀ hp0]
    calc (r : ℝ) ≤ p * g * (1 + 2 ^ (-52 : ℤ)) := hrhigh'
      _ ≤ p * (F * (1 + 2 ^ (-52 : ℤ))) * (1 + 2 ^ (-52 : ℤ)) :=
        mul_le_mul_of_nonneg_right (mul_le_mul_of_nonneg_left hghigh' hp0.le) hδ.2
      _ = F * ((1 + 2 ^ (-52 : ℤ)) * (1 + 2 ^ (-52 : ℤ))) * p := by ring
  obtain ⟨hbelow, habove⟩ := surprise_near (by exact_mod_cast hFpos) (by positivity) (by norm_num)
    hlower hupper
  refine ⟨r, r / p, hr, div_pos (by exact_mod_cast hr.pos) hp0,
    (mul_div_cancel₀ _ hp0.ne').symm, ?_, ?_⟩
  · rw [hfreq]
    norm_num at hbelow ⊢
    linarith
  · rw [hfreq]
    norm_num at habove ⊢
    linarith

end Doubles

end Core
