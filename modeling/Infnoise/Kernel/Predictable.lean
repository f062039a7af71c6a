import Infnoise.Kernel.Estimate
import Infnoise.Kernel.Fed
import Mathlib.Algebra.BigOperators.Intervals
import Mathlib.Algebra.Order.BigOperators.Ring.Finset

/-!
# A source that turns predictable

A shift register is accepted at some point of its first six periods. When its bits alternate from
any point on, the tables soon say so, and 5000 of these bits count next to no entropy.
-/

namespace Kernel

open Core Core.ShiftRegister Core.Meter

/-! ### The bits -/

/-- Bit `k` after the register has stopped. The phase changes when the register has left the
context. -/
def alternating (k : ℕ) : Sample := ⟨decide (k % 2 = 0), decide (k % 2 = 0), decide (14 ≤ k)⟩

@[simp] lemma alternating_bit (k : ℕ) : (alternating k).bit = decide (k % 2 = 0) := by
  rw [Sample.bit, alternating, selectBit, ite_self]

/-- The last 15 bits after `k` of these. -/
def word (t : ℕ) : ℕ → ℕ
  | 0 => window t
  | k + 1 => (2 * word t k + (alternating k).bit.toNat) % 32768

lemma word_succ (t k : ℕ) :
    word t (k + 1) = (2 * word t k + (decide (k % 2 = 0)).toNat) % 32768 := by
  rw [word, alternating_bit]

lemma word_lt (t k : ℕ) : word t k < 32768 := by
  cases k with
  | zero => exact window_lt t
  | succ k =>
    rw [word_succ]
    exact Nat.mod_lt _ (by norm_num)

/-- Two bits. -/
lemma word_add_two (t i : ℕ) : word t (2 * i + 2) = (4 * word t (2 * i) + 2) % 32768 := by
  rw [word_succ, word_succ, show (2 * i) % 2 = 0 by omega, show (2 * i + 1) % 2 = 1 by omega]
  simp only [decide_true, Nat.one_ne_zero, decide_false, Bool.toNat_true, Bool.toNat_false]
  omega

/-- A one is among the last bits. -/
lemma word_pos (t k : ℕ) : 0 < word t (k + 1) := by
  have hodd : ∀ i, word t (2 * i + 1) % 2 = 1 := by
    intro i
    rw [word_succ, show (2 * i) % 2 = 0 by omega]
    simp only [decide_true, Bool.toNat_true]
    omega
  rcases Nat.even_or_odd' k with ⟨i, rfl | rfl⟩
  · have := hodd i
    omega
  · have hi := hodd i
    rw [word_succ, show (2 * i + 1) % 2 = 1 by omega]
    simp only [Nat.one_ne_zero, decide_false, Bool.toNat_false]
    omega

/-- After 14 bits the context is that of the alternating bits. -/
lemma word_context (t i : ℕ) : word t (2 * (7 + i)) % 16384 = 10922 := by
  induction i with
  | zero =>
    have h₁ := word_add_two t 0
    have h₂ := word_add_two t 1
    have h₃ := word_add_two t 2
    have h₄ := word_add_two t 3
    have h₅ := word_add_two t 4
    have h₆ := word_add_two t 5
    have h₇ := word_add_two t 6
    norm_num at *
    omega
  | succ i ih =>
    rw [← Nat.add_assoc, Nat.mul_succ, word_add_two]
    omega

/-! ### What is counted in their contexts -/

/-- How often the first `k` of these bits come in a phase and make the last 15 bits read `w`. -/
def visits (t : ℕ) (even : Bool) (w k : ℕ) : ℕ :=
  Nat.count (fun i => (alternating i).even = even ∧ word t (i + 1) = w) k

lemma visits_succ (t : ℕ) (even : Bool) (w k : ℕ) :
    visits t even w (k + 1) = visits t even w k +
      if (alternating k).even = even ∧ word t (k + 1) = w then 1 else 0 := Nat.count_succ _ k

lemma visits_le (t : ℕ) (even : Bool) (w k : ℕ) : visits t even w k ≤ k := Nat.count_le _

/-- In the even phase the bits are the same every time. -/
lemma visits_even (t w v : ℕ) :
    visits t true w (2 * (7 + v)) = if w = 21845 ∨ w = 10922 then v else 0 := by
  induction v with
  | zero =>
    rw [ite_self, visits, Nat.count_iff_forall_not]
    intro i hi hvisit
    have hphase : 14 ≤ i := of_decide_eq_true hvisit.1
    omega
  | succ v ih =>
    have hcontext := word_context t v
    have hone : word t (2 * (7 + v) + 1) = 21845 := by
      rw [word_succ, show 2 * (7 + v) % 2 = 0 by omega]
      simp only [decide_true, Bool.toNat_true]
      omega
    have htwo : word t (2 * (7 + v) + 2) = 10922 := by
      rw [word_add_two]
      omega
    have hphase : ∀ k, 14 ≤ k → (alternating k).even = true := fun k hk => decide_eq_true hk
    rw [← Nat.add_assoc, Nat.mul_succ, visits_succ, visits_succ, ih, hone, htwo,
      hphase _ (by omega), hphase _ (by omega)]
    simp only [true_and]
    split_ifs <;> omega

/-! ### The checker -/

/-- The checker `k` bits after the register has stopped at bit `t`. -/
structure Health.Alternating (t k : ℕ) (h : Health) : Prop where
  inv : h.Inv
  table_eq : ∀ even bit, ∀ i < 16384, h.table even bit i =
    occurrences even (2 * i + bit.toNat) t + visits t even (2 * i + bit.toNat) k
  context_eq : (2 * h.prevBits + h.prevBit.toNat) % 16384 = word t k % 16384
  sampled : 40000 ≤ h.numBitsSampled
  ones_le : k % 2 = 0 → h.seqOnes ≤ 15
  zeros_le : k % 2 = 1 → h.seqZeros ≤ 15

lemma Health.Fed.alternating {t : ℕ} {h : Health} (hfed : h.Fed t) (ht : 80000 ≤ t) :
    h.Alternating t 0 where
  inv := hfed.inv
  table_eq := hfed.table_eq
  context_eq := hfed.context_eq
  sampled := by
    rw [hfed.numBitsSampled_eq]
    exact le_samples ht
  ones_le _ := hfed.runs.ones_le
  zeros_le hodd := by cases hodd

/-- No run of these bits is too long. -/
lemma Health.Alternating.check {t k : ℕ} {h : Health} (ha : h.Alternating t k) :
    (h.check (alternating k)).1 = false ∧
      ((k + 1) % 2 = 0 → (h.check (alternating k)).2.seqOnes ≤ 15) ∧
      ((k + 1) % 2 = 1 → (h.check (alternating k)).2.seqZeros ≤ 15) := by
  have hsampled := ha.sampled
  have hsam : (h.observe (alternating k).evenBit (alternating k).oddBit
    (alternating k).even).numBitsSampled = h.numBitsSampled := rfl
  rw [Health.check, Health.checkStuck, alternating_bit, hsam,
    if_pos (by simp only [inmMinSampleSize]; omega)]
  rcases Nat.mod_two_eq_zero_or_one k with hk | hk
  · have hones := ha.ones_le hk
    have hu : u32 (h.seqOnes + 1) = h.seqOnes + 1 := u32_of_lt (by omega)
    rw [decide_eq_true hk]
    refine ⟨decide_eq_false ?_, (fun _ => by omega), fun _ => Nat.zero_le _⟩
    change ¬ u32 (h.seqOnes + 1) > 20
    omega
  · have hzeros := ha.zeros_le hk
    have hu : u32 (h.seqZeros + 1) = h.seqZeros + 1 := u32_of_lt (by omega)
    rw [decide_eq_false (by omega)]
    refine ⟨decide_eq_false ?_, (fun _ => Nat.zero_le _), fun hodd => by omega⟩
    change ¬ u32 (h.seqZeros + 1) > 20
    omega

/-- The word a call counts. -/
lemma word_succ_eq (t k : ℕ) :
    word t (k + 1) = 2 * (word t k % 16384) + (decide (k % 2 = 0)).toNat := by
  have hbit := Bool.toNat_lt (decide (k % 2 = 0))
  rw [word_succ]
  omega

/-- A call for one of these bits. -/
lemma Health.Alternating.addBit {t k : ℕ} {h : Health} (ha : h.Alternating t k)
    (ht : t < 196602) (hk : k < 5000) :
    ∃ h', h.addBit (alternating k) = some (true, h') ∧ h.Passed (alternating k) h' ∧
      h'.Alternating t (k + 1) := by
  obtain ⟨⟨ok, h'⟩, hadd, -⟩ := Health.addBit_returns ha.inv (alternating k)
  obtain ⟨hpass, hones, hzeros⟩ := ha.check
  rcases Health.addBit_outcome ha.inv hadd with ⟨rfl, hfault, -⟩ | ⟨rfl, hp⟩
  · rw [hpass] at hfault
    cases hfault
  refine ⟨h', hadd, hp, ?_⟩
  have hlt : word t k % 16384 < 16384 := Nat.mod_lt _ (by norm_num)
  have hword := word_succ_eq t k
  have hcount : h.table (alternating k).even (alternating k).bit (word t k % 16384) + 1 < 16384 := by
    have hvisits := visits_le t (alternating k).even (word t (k + 1)) k
    have hpos := word_pos t k
    have hocc := (occurrences_bounds (alternating k).even hpos (word_lt t (k + 1)) t).2
    rw [ha.table_eq _ _ _ hlt, alternating_bit, ← hword]
    omega
  obtain ⟨hprevBits, hprevBit, htable⟩ := hp.frame ha.context_eq hcount
  obtain ⟨hones', hzeros', hsam, -⟩ := hp.counters ha.inv
  have hsampled := ha.sampled
  exact
    { inv := hp.inv
      table_eq := fun e b i hi => by
        rw [htable, visits_succ, ← Nat.add_assoc, ← ha.table_eq e b i hi]
        by_cases heb : e = (alternating k).even ∧ b = (alternating k).bit
        · obtain ⟨rfl, rfl⟩ := heb
          rw [if_pos ⟨rfl, rfl⟩, Function.update_apply]
          by_cases hi' : i = word t k % 16384
          · rw [if_pos hi', if_pos ⟨rfl, by rw [hword, hi', alternating_bit]⟩, hi']
          · rw [if_neg hi', if_neg, Nat.add_zero]
            rintro ⟨-, hsame⟩
            rw [hword, alternating_bit] at hsame
            omega
        · rw [if_neg heb, if_neg, Nat.add_zero]
          rintro ⟨heven, hsame⟩
          refine heb ⟨heven.symm, ?_⟩
          rw [alternating_bit]
          rcases b with _ | _ <;> rcases hbit : decide (k % 2 = 0) with _ | _ <;>
            simp only [hword, hbit, Bool.toNat_false, Bool.toNat_true] at hsame ⊢ <;> omega
      context_eq := by
        rw [hprevBits, hprevBit, alternating_bit, ← hword]
      sampled := by
        rw [hsam]
        split_ifs <;> omega
      ones_le := fun hmod => hones' ▸ hones hmod
      zeros_le := fun hmod => hzeros' ▸ hzeros hmod }

/-! ### How predictable they are -/

/-- A bound of the frequency of bit `k`, when every word has been seen `q` times before. -/
def rate (q k : ℕ) : ℚ :=
  if k < 14 then q / (q + (q + 1 + k : ℕ))
  else (q + (k - 14) / 2 : ℕ) / ((q + (k - 14) / 2 : ℕ) + (q + 1 : ℕ))

lemma div_add_le_div_add {a b c o : ℕ} (ha : 0 < a) (hc : a ≤ c) (ho : o ≤ b) :
    (a / (a + b) : ℚ) ≤ c / (c + o) := by
  have ha' : (0 : ℚ) < a := by exact_mod_cast ha
  have hc' : (0 : ℚ) < c := by exact_mod_cast ha.trans_le hc
  rw [div_le_div_iff₀ (by positivity) (by positivity)]
  have hmul : a * (c + o) ≤ c * (a + b) := by
    have := Nat.mul_le_mul hc ho
    rw [Nat.mul_add, Nat.mul_add, Nat.mul_comm c a]
    omega
  exact_mod_cast hmul

lemma Health.Alternating.rate_le {t k : ℕ} {h : Health} (ha : h.Alternating t k)
    (ht : 65534 ≤ t) (ht' : t < 196602) : rate (t / 65534) k ≤ h.frequency (alternating k) := by
  have hlt : word t k % 16384 < 16384 := Nat.mod_lt _ (by norm_num)
  have hword := word_succ_eq t k
  have hbits := Bool.toNat_lt (decide (k % 2 = 0))
  have hobserved := ha.table_eq (alternating k).even (alternating k).bit _ hlt
  have hother := ha.table_eq (alternating k).even (!(alternating k).bit) _ hlt
  obtain ⟨hlow, _⟩ :=
    occurrences_bounds (alternating k).even (word_pos t k) (word_lt t (k + 1)) t
  have hhigh : occurrences (alternating k).even
      (2 * (word t k % 16384) + (!(alternating k).bit).toNat) t ≤ t / 65534 + 1 := by
    rcases Nat.eq_zero_or_pos (2 * (word t k % 16384) + (!(alternating k).bit).toNat) with h0 | h0
    · rw [h0, occurrences_zero]
      exact Nat.zero_le _
    · have hbit := Bool.toNat_lt (!(alternating k).bit)
      exact (occurrences_bounds _ h0 (by omega) t).2
  rw [alternating_bit, ← hword] at hobserved
  rw [Health.frequency]
  simp only [h.observe_prevBits, ha.context_eq, alternating_bit] at hother hhigh ⊢
  rw [if_neg (by omega), rate]
  split_ifs with hk
  · have hvisits := visits_le t (alternating k).even
      (2 * (word t k % 16384) + (!decide (k % 2 = 0)).toNat) k
    exact div_add_le_div_add (by omega) (by omega) (by omega)
  · -- both bits of the even phase have been counted, the others have not
    obtain ⟨v, hv⟩ : ∃ v, k = 2 * (7 + v) ∨ k = 2 * (7 + v) + 1 := ⟨(k - 14) / 2, by omega⟩
    have hcontext := word_context t v
    have heven : (alternating k).even = true := decide_eq_true (by omega)
    have hcounts : visits t true (word t (k + 1)) k = v ∧
        visits t true (2 * (word t k % 16384) + (!decide (k % 2 = 0)).toNat) k = 0 := by
      rcases hv with rfl | rfl
      · rw [hword, hcontext, show 2 * (7 + v) % 2 = 0 by omega, visits_even, visits_even]
        exact ⟨rfl, rfl⟩
      · have hone : word t (2 * (7 + v) + 1) = 21845 := by
          rw [word_succ_eq, hcontext, show 2 * (7 + v) % 2 = 0 by omega]
          rfl
        rw [hword, hone, show (2 * (7 + v) + 1) % 2 = 1 by omega, visits_succ, visits_succ,
          visits_even, visits_even, hone]
        exact ⟨by simp, by simp⟩
    rw [heven] at hobserved hother hlow hhigh
    rw [hcounts.1] at hobserved
    rw [hcounts.2] at hother
    rw [heven]
    exact div_add_le_div_add (by omega) (by omega) (by omega)

/-! ### A run of them -/

/-- What call `k` can lose to rounding. -/
def loss (k : ℕ) : ℚ := rounding (if k < 14 then 5 else 2)

/-- A call whose bit is frequent counts few bits, and loses little to rounding. -/
lemma Health.Passed.bound_of_le {h h' : Health} {x : Sample} (hp : h.Passed x h') (hinv : h.Inv)
    {g : ℚ} {n : ℕ} (hg : g ≤ h.frequency x) (hn : 2 < 2 ^ (n + 1) * (g - 1 / 2 ^ 13)) :
    2 ^ h.bitsCounted x * (g * h.currentProb) ≤ h'.currentProb * rounding n := by
  have hbound := hp.bound hinv
  have hgt : (2 ^ 15 : ℚ) ≤ h.currentProb := by
    have : 2 ^ 15 ≤ h.currentProb := by
      have := hinv.currentProb_gt
      simp only [fpHalf] at this
      omega
    exact_mod_cast this
  have hle : (h'.currentProb : ℚ) ≤ 2 ^ 16 := by
    have : h'.currentProb ≤ 2 ^ 16 := hp.inv.currentProb_le
    exact_mod_cast this
  have hg0 : 0 < g - 1 / 2 ^ 13 := by
    by_contra hneg
    have : (2 : ℚ) ^ (n + 1) * (g - 1 / 2 ^ 13) ≤ 0 :=
      mul_nonpos_of_nonneg_of_nonpos (by positivity) (not_lt.mp hneg)
    linarith
  have hfew : h.bitsCounted x ≤ n := by
    by_contra hmany
    have hpow : (2 : ℚ) ^ (n + 1) ≤ 2 ^ h.bitsCounted x :=
      pow_le_pow_right₀ (by norm_num) (Nat.succ_le_of_lt (not_le.mp hmany))
    have hmul := mul_le_mul_of_nonneg_right hpow hg0.le
    have : (2 : ℚ) ^ h.bitsCounted x * (2 ^ 15 * g) ≤ 2 ^ 16 * rounding (h.bitsCounted x) :=
      calc (2 : ℚ) ^ h.bitsCounted x * (2 ^ 15 * g)
          ≤ 2 ^ h.bitsCounted x * (h.currentProb * h.frequency x) := by
            have : 0 < g := by linarith
            gcongr
        _ ≤ h'.currentProb * rounding (h.bitsCounted x) := hbound
        _ ≤ 2 ^ 16 * rounding (h.bitsCounted x) := by
            have := rounding_pos (h.bitsCounted x)
            gcongr
    rw [rounding] at this
    linarith
  calc 2 ^ h.bitsCounted x * (g * h.currentProb)
      ≤ 2 ^ h.bitsCounted x * (h.currentProb * h.frequency x) := by
        rw [mul_comm g]
        gcongr
    _ ≤ h'.currentProb * rounding (h.bitsCounted x) := hbound
    _ ≤ h'.currentProb * rounding n := by
        rw [rounding, rounding]
        gcongr
        norm_num

lemma Health.Alternating.bound {t k : ℕ} {h h' : Health} (ha : h.Alternating t k)
    (hp : h.Passed (alternating k) h') (ht : 65534 ≤ t) (ht' : t < 196602) :
    2 ^ h.bitsCounted (alternating k) * (rate (t / 65534) k * h.currentProb) ≤
      h'.currentProb * loss k := by
  refine hp.bound_of_le ha.inv (ha.rate_le ht ht') ?_
  obtain hq | hq : t / 65534 = 1 ∨ t / 65534 = 2 := by omega
  · rw [hq, rate]
    split_ifs with hk
    · have h16 := div_add_le_div_add (a := 1) (b := 15) (c := 1) (o := 1 + 1 + k) (by norm_num)
        le_rfl (by omega)
      norm_num at h16 ⊢
      linarith
    · have h3 := div_add_le_div_add (a := 1) (b := 2) (c := 1 + (k - 14) / 2) (o := 1 + 1)
        (by norm_num) (Nat.le_add_right _ _) le_rfl
      norm_num at h3 ⊢
      linarith
  · rw [hq, rate]
    split_ifs with hk
    · have h9 := div_add_le_div_add (a := 2) (b := 16) (c := 2) (o := 2 + 1 + k) (by norm_num)
        le_rfl (by omega)
      norm_num at h9 ⊢
      linarith
    · have h5 := div_add_le_div_add (a := 2) (b := 3) (c := 2 + (k - 14) / 2) (o := 2 + 1)
        (by norm_num) (Nat.le_add_right _ _) le_rfl
      norm_num at h5 ⊢
      linarith

lemma bitsOfRun_append (cs ds : List (Call Health Sample Bool)) :
    bitsOfRun (cs ++ ds) = bitsOfRun cs + bitsOfRun ds := by
  rw [bitsOfRun, List.map_append, List.sum_append, bitsOfRun, bitsOfRun]

/-- The bits counted are few for the product of the rates. -/
lemma Health.Alternating.run {t n : ℕ} {h : Health} (ha : h.Alternating t 0) (ht : 65534 ≤ t)
    (ht' : t < 196602) (hn : n ≤ 5000) :
    ∃ cs h', Run Health.addBit h cs h' ∧ cs.length = n ∧ (∀ c ∈ cs, c.output = true) ∧
      h'.Alternating t n ∧
      2 ^ bitsOfRun cs * (∏ k ∈ Finset.range n, rate (t / 65534) k) * h.currentProb ≤
        h'.currentProb * ∏ k ∈ Finset.range n, loss k := by
  induction n with
  | zero => exact ⟨[], h, .nil h, rfl, by simp, ha, by simp [bitsOfRun]⟩
  | succ n ih =>
    obtain ⟨cs, h₁, hrun, hlen, htrue, ha₁, hbound⟩ := ih (by omega)
    obtain ⟨h₂, hadd, hp, ha₂⟩ := ha₁.addBit ht' (by omega)
    have hcall := ha₁.bound hp ht ht'
    refine ⟨_, h₂, hrun.append (.single hadd), by rw [List.length_append, hlen]; rfl, ?_, ha₂, ?_⟩
    · intro c hc
      rcases List.mem_append.mp hc with hc | hc
      · exact htrue c hc
      · rw [List.mem_singleton.mp hc]
    · have hlast : bitsOfRun [⟨h₁, alternating n, true, h₂⟩] = h₁.bitsCounted (alternating n) :=
        Nat.add_zero _
      have hrate : 0 ≤ rate (t / 65534) n := by
        rw [rate]
        split_ifs <;> positivity
      have hloss : 0 ≤ ∏ k ∈ Finset.range n, loss k :=
        Finset.prod_nonneg fun k _ => (rounding_pos _).le
      rw [bitsOfRun_append, hlast, Finset.prod_range_succ, Finset.prod_range_succ]
      generalize ∏ k ∈ Finset.range n, rate (t / 65534) k = rates at hbound ⊢
      generalize ∏ k ∈ Finset.range n, loss k = losses at hbound hloss ⊢
      calc (2 : ℚ) ^ (bitsOfRun cs + h₁.bitsCounted (alternating n)) *
            (rates * rate (t / 65534) n) * h.currentProb
          = 2 ^ h₁.bitsCounted (alternating n) * rate (t / 65534) n *
              (2 ^ bitsOfRun cs * rates * h.currentProb) := by rw [pow_add]; ring
        _ ≤ 2 ^ h₁.bitsCounted (alternating n) * rate (t / 65534) n *
              (h₁.currentProb * losses) := by gcongr
        _ = losses * (2 ^ h₁.bitsCounted (alternating n) *
              (rate (t / 65534) n * h₁.currentProb)) := by ring
        _ ≤ losses * (h₂.currentProb * loss n) := by gcongr
        _ = h₂.currentProb * (losses * loss n) := by ring

/-! ### The bounds -/

/-- In the even phase each rate comes twice. -/
lemma prod_rate (q V : ℕ) : ∏ k ∈ Finset.range (2 * (7 + V)), rate q k =
    (∏ k ∈ Finset.range 14, rate q k) *
      (∏ v ∈ Finset.range V, ((q + v : ℕ) / ((q + v : ℕ) + (q + 1 : ℕ)) : ℚ)) ^ 2 := by
  induction V with
  | zero => simp
  | succ V ih =>
    have hrate : ∀ k, k = 2 * (7 + V) ∨ k = 2 * (7 + V) + 1 →
        rate q k = (q + V : ℕ) / ((q + V : ℕ) + (q + 1 : ℕ)) := by
      intro k hk
      rw [rate, if_neg (by omega), show (k - 14) / 2 = V by omega]
    rw [← Nat.add_assoc, Nat.mul_succ, Finset.prod_range_succ _ (2 * (7 + V) + 1),
      Finset.prod_range_succ _ (2 * (7 + V)), ih, hrate _ (.inl rfl), hrate _ (.inr rfl),
      Finset.prod_range_succ _ V]
    generalize ∏ k ∈ Finset.range 14, rate q k = first
    ring

lemma prod_rate_one (V : ℕ) :
    ∏ v ∈ Finset.range V, ((1 + v : ℕ) / ((1 + v : ℕ) + (1 + 1 : ℕ)) : ℚ) =
      2 / ((V + 1) * (V + 2)) := by
  induction V with
  | zero => norm_num
  | succ V ih =>
    rw [Finset.prod_range_succ, ih]
    push_cast
    field_simp
    ring

lemma prod_rate_two (V : ℕ) :
    ∏ v ∈ Finset.range V, ((2 + v : ℕ) / ((2 + v : ℕ) + (2 + 1 : ℕ)) : ℚ) =
      24 / ((V + 2) * (V + 3) * (V + 4)) := by
  induction V with
  | zero => norm_num
  | succ V ih =>
    rw [Finset.prod_range_succ, ih]
    push_cast
    field_simp
    ring

lemma le_prod_rate {q : ℕ} (hq : q = 1 ∨ q = 2) :
    (1 / 2 ^ 94 : ℚ) ≤ ∏ k ∈ Finset.range 5000, rate q k := by
  rw [show 5000 = 2 * (7 + 2493) by norm_num, prod_rate]
  rcases hq with rfl | rfl
  · rw [prod_rate_one]
    norm_num [Finset.prod_range_succ, rate]
  · rw [prod_rate_two]
    norm_num [Finset.prod_range_succ, rate]

lemma prod_loss_le : ∏ k ∈ Finset.range 5000, loss k ≤ 4 := by
  have hfirst : ∏ k ∈ Finset.range 14, loss k = rounding 5 ^ 14 := by
    rw [Finset.prod_congr rfl fun k hk => by rw [loss, if_pos (Finset.mem_range.mp hk)]]
    simp
  have hrest : ∏ k ∈ Finset.range 4986, loss (14 + k) = rounding 2 ^ 4986 := by
    rw [Finset.prod_congr rfl fun k _ => by rw [loss, if_neg (by omega)]]
    simp
  have hpow : rounding 2 ^ 4986 ≤ (3417 / 1000 : ℚ) :=
    calc rounding 2 ^ 4986 ≤ rounding 2 ^ (128 * 39) :=
          pow_le_pow_right₀ (by norm_num [rounding]) (by norm_num)
      _ = (rounding 2 ^ 128) ^ 39 := pow_mul _ _ _
      _ ≤ (1032 / 1000) ^ 39 :=
          pow_le_pow_left₀ (by norm_num [rounding]) (by norm_num [rounding]) 39
      _ ≤ 3417 / 1000 := by norm_num
  have hfirst' : rounding 5 ^ 14 ≤ 11 / 10 := by norm_num [rounding]
  have hfirst0 : 0 ≤ rounding 5 ^ 14 := by norm_num [rounding]
  rw [show 5000 = 14 + 4986 by norm_num, Finset.prod_range_add, hfirst, hrest]
  generalize rounding 2 ^ 4986 = rest at hpow
  generalize rounding 5 ^ 14 = first at hfirst' hfirst0
  calc first * rest ≤ first * (3417 / 1000) := mul_le_mul_of_nonneg_left hpow hfirst0
    _ ≤ (11 / 10) * (3417 / 1000) := mul_le_mul_of_nonneg_right hfirst' (by norm_num)
    _ ≤ 4 := by norm_num

/-- From any point of the first six periods on at which the tables are filled, 5000 alternating bits
all pass, and count at most 100 bits of entropy. -/
theorem Health.Fed.alternating_bits {t : ℕ} {h : Health} (hfed : h.Fed t) (ht : 80000 ≤ t)
    (ht' : t < 196602) : ∃ cs h', Run Health.addBit h cs h' ∧ cs.length = 5000 ∧
      (∀ c ∈ cs, c.output = true) ∧ bitsOfRun cs ≤ 100 := by
  obtain ⟨cs, h', hrun, hlen, htrue, ha, hbound⟩ :=
    (hfed.alternating ht).run (by omega) ht' le_rfl
  refine ⟨cs, h', hrun, hlen, htrue, ?_⟩
  by_contra hmany
  have hpow : (2 : ℚ) ^ 101 ≤ 2 ^ bitsOfRun cs :=
    pow_le_pow_right₀ (by norm_num) (by omega)
  have hgt : (2 ^ 15 : ℚ) ≤ h.currentProb := by
    have : 2 ^ 15 ≤ h.currentProb := by
      have := hfed.inv.currentProb_gt
      simp only [fpHalf] at this
      omega
    exact_mod_cast this
  have hle : (h'.currentProb : ℚ) ≤ 2 ^ 16 := by
    have : h'.currentProb ≤ 2 ^ 16 := ha.inv.currentProb_le
    exact_mod_cast this
  have hrate := le_prod_rate (q := t / 65534) (by omega)
  have hloss := prod_loss_le
  have hloss0 : 0 ≤ ∏ k ∈ Finset.range 5000, loss k :=
    Finset.prod_nonneg fun k _ => (rounding_pos _).le
  generalize ∏ k ∈ Finset.range 5000, rate (t / 65534) k = rates at hbound hrate
  generalize ∏ k ∈ Finset.range 5000, loss k = losses at hbound hloss hloss0
  have : (2 : ℚ) ^ 101 * (1 / 2 ^ 94) * 2 ^ 15 ≤ 2 ^ 16 * 4 :=
    calc (2 : ℚ) ^ 101 * (1 / 2 ^ 94) * 2 ^ 15
        ≤ 2 ^ bitsOfRun cs * rates * h.currentProb := by gcongr
      _ ≤ h'.currentProb * losses := hbound
      _ ≤ 2 ^ 16 * 4 := by gcongr
  norm_num at this

/-! ### Where the register is accepted -/

/-- The register leads to the checker after its first bits. -/
lemma exists_run_fedBits {n : ℕ} (hn : n ≤ 190976) :
    ∃ cs, Run Health.addBit infnoiseHealthInit cs (fedBits 0 infnoiseHealthInit n) := by
  induction n with
  | zero => exact ⟨[], .nil _⟩
  | succ n ih =>
    obtain ⟨cs, hrun⟩ := ih (by omega)
    obtain ⟨hfed, hlevel⟩ := infnoiseHealthInit_fed.bits rfl (k := n) (by omega)
    obtain ⟨hadd, -, -⟩ := hfed.addBit (by omega) (by omega)
    have hstep : Health.addBit (fedBits 0 infnoiseHealthInit n)
        ⟨bit (0 + n), bit (0 + n), decide ((0 + n) % 2 = 1)⟩ =
          some (true, fedBits 0 infnoiseHealthInit (n + 1)) := hadd
    exact ⟨_, hrun.append (.single hstep)⟩

/-- At some point of the first six periods the verdict holds. -/
lemma exists_accepted : ∃ t, 80000 ≤ t ∧ t < 190976 ∧
    infnoiseHealthOk (fedBits 0 infnoiseHealthInit t) = true := by
  by_contra hnone
  have hfed : ∀ t ≤ 190976, (fedBits 0 infnoiseHealthInit t).Fed t := by
    intro t ht
    have := (infnoiseHealthInit_fed.bits rfl (k := t) (by omega)).1
    rwa [Nat.zero_add] at this
  have hlow : ∀ i ≤ 109952, excess okRate (80000 + i)
      (fedBits 0 infnoiseHealthInit (80000 + i)).numBitsOfEntropy < 0 := by
    intro i
    induction i with
    | zero =>
      intro _
      have hle := (hfed 80000 (by norm_num)).bounds.start le_rfl (by norm_num)
      have hle' : ((fedBits 0 infnoiseHealthInit 80000).numBitsOfEntropy : ℚ) ≤ 14466 := by
        exact_mod_cast hle
      have hsamples : (samples 80000 : ℚ) = 40000 := by norm_num [samples]
      rw [Nat.add_zero, excess, hsamples, okRate]
      linarith
    | succ i ih =>
      intro hi
      have hneg := ih (by omega)
      have hnow := hfed (80000 + i) (by omega)
      have hnext := hfed (80000 + i + 1) (by omega)
      obtain ⟨_, hlevel⟩ := infnoiseHealthInit_fed.bits rfl (k := 80000 + i) (by omega)
      obtain ⟨_, _, gain, hcounts⟩ := hnow.addBit (by omega) (by omega)
      have hentropy : (fedBits 0 infnoiseHealthInit (80000 + i + 1)).numBitsOfEntropy =
          entropyAfter (80000 + i)
            (fedBits 0 infnoiseHealthInit (80000 + i)).numBitsOfEntropy gain := by
        rw [fedBits, Nat.zero_add]
        exact hcounts.entropy_eq
      have hgain : (gain : ℚ) ≤ 2 := by exact_mod_cast hcounts.gain_of.le_two (by omega)
      by_contra hpos
      rw [not_lt, ← Nat.add_assoc] at hpos
      have hsmall : excess okRate (80000 + i + 1)
          (fedBits 0 infnoiseHealthInit (80000 + i + 1)).numBitsOfEntropy ≤ 1300 := by
        rw [hentropy]
        by_cases hfull : samples (80000 + i) + 1 = 80000
        · have := (@excess_succ_of_full okRate _
            (fedBits 0 infnoiseHealthInit (80000 + i)).numBitsOfEntropy gain hfull).2
          rw [okRate] at *
          linarith
        · rw [excess_succ hfull, okRate] at *
          linarith
      exact hnone ⟨80000 + i + 1, by omega, by omega,
        hnext.ok_of_excess (by omega) hpos hsmall⟩
  have hhigh := (hfed (512 * 371) (by norm_num)).bounds.lt_excess (c := okRate) (by norm_num [okRate])
  have := hlow 109952 le_rfl
  norm_num at this hhigh
  linarith

end Kernel
