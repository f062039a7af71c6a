import Infnoise.Core.Meter
import Infnoise.Core.ShiftRegister
import Infnoise.Kernel.Calls

/-!
# The kernel health checker on the shift register

A source whose bits are those of a maximal shift register passes the health check. No bit of it is
ever stuck, the tables count what the register counts, and the frequencies of the first six periods
are so simple that the entropy follows the meter.
-/

namespace Kernel

open Core Core.ShiftRegister Core.Meter

/-- The bits of entropy per sample from which on `infnoise_health_ok` holds. -/
def okRate : ℚ := 55991 / 65536

/-- The checker after the first `t` bits of the register. -/
structure Health.Fed (t : ℕ) (h : Health) : Prop where
  inv : h.Inv
  table_eq : ∀ even bit, ∀ i < 16384, h.table even bit i = occurrences even (2 * i + bit.toNat) t
  context_eq : (2 * h.prevBits + h.prevBit.toNat) % 16384 = window t % 16384
  numBitsSampled_eq : h.numBitsSampled = samples t
  bounds : Bounds t h.numBitsOfEntropy
  totalBits_eq : h.totalBits = t
  okToUse_eq : h.okToUse = infnoiseHealthOk h
  unused : t ≤ 101 → h.seqOnes = 0 ∧ h.seqZeros = 0
  runs : Runs t h.seqOnes h.seqZeros

lemma infnoiseHealthInit_fed : infnoiseHealthInit.Fed 0 where
  inv := infnoiseHealthInit_inv
  table_eq even bit i _ := by cases even <;> cases bit <;> exact (Nat.count_zero _).symm
  context_eq := rfl
  numBitsSampled_eq := rfl
  bounds := bounds_zero
  totalBits_eq := rfl
  okToUse_eq := rfl
  unused _ := ⟨rfl, rfl⟩
  runs := .none 0

lemma Health.Fed.clearEntropy {t : ℕ} {h : Health} (hfed : h.Fed t) :
    (infnoiseHealthClearEntropy h).Fed t where
  inv := infnoiseHealthClearEntropy_inv hfed.inv
  table_eq even bit i hi := by
    have := hfed.table_eq even bit i hi
    cases even <;> cases bit <;> exact this
  context_eq := hfed.context_eq
  numBitsSampled_eq := hfed.numBitsSampled_eq
  bounds := hfed.bounds
  totalBits_eq := hfed.totalBits_eq
  okToUse_eq := hfed.okToUse_eq
  unused := hfed.unused
  runs := hfed.runs

/-! ### The verdict -/

lemma Health.Fed.ok_iff {t : ℕ} {h : Health} (hfed : h.Fed t) (ht : 80000 ≤ t) :
    infnoiseHealthOk h = true ↔ 55991 * samples t ≤ h.numBitsOfEntropy * 65536 ∧
      h.numBitsOfEntropy * 65536 < 59402 * samples t := by
  have hsamples := le_samples ht
  rw [hfed.inv.ok_iff (by rw [hfed.numBitsSampled_eq]; omega), hfed.totalBits_eq,
    hfed.numBitsSampled_eq, and_iff_right ht]

/-- Up to the upper bound, which is far away, the verdict is the comparison with the rate. -/
lemma Health.Fed.ok_of_excess {t : ℕ} {h : Health} (hfed : h.Fed t) (ht : 80000 ≤ t)
    (hlow : 0 ≤ excess okRate t h.numBitsOfEntropy)
    (hhigh : excess okRate t h.numBitsOfEntropy ≤ 1300) : infnoiseHealthOk h = true := by
  have hsamples := le_samples ht
  rw [excess, okRate] at hlow hhigh
  have hlow' : 55991 * samples t ≤ h.numBitsOfEntropy * 65536 := by
    have : (55991 * samples t : ℚ) ≤ h.numBitsOfEntropy * 65536 := by linarith
    exact_mod_cast this
  have hhigh' : h.numBitsOfEntropy * 65536 ≤ 55991 * samples t + 65536 * 1300 := by
    have : (h.numBitsOfEntropy * 65536 : ℚ) ≤ 55991 * samples t + 65536 * 1300 := by linarith
    exact_mod_cast this
  exact (hfed.ok_iff ht).mpr ⟨hlow', by omega⟩

lemma Health.Fed.excess_of_ok {t : ℕ} {h : Health} (hfed : h.Fed t)
    (hok : infnoiseHealthOk h = true) :
    80000 ≤ t ∧ 0 ≤ excess okRate t h.numBitsOfEntropy := by
  have ht : 80000 ≤ t := by
    have htotal := ((hfed.inv.ok_iff (infnoiseHealthOk_sampled hok)).mp hok).1
    rwa [hfed.totalBits_eq] at htotal
  refine ⟨ht, ?_⟩
  have hle := ((hfed.ok_iff ht).mp hok).1
  have hle' : (55991 * samples t : ℚ) ≤ h.numBitsOfEntropy * 65536 := by exact_mod_cast hle
  rw [excess, okRate]
  linarith

/-! ### The parts of a call -/

section

variable {t : ℕ} {h : Health} (hfed : h.Fed t)
include hfed

/-- The context of bit `t` is made of the 14 bits before it. -/
lemma Health.Fed.observe_prevBits (evenBit oddBit even : Bool) :
    (h.observe evenBit oddBit even).prevBits = window t % 16384 := by
  rw [Health.observe_prevBits, hfed.context_eq]

/-- No run of equal bits is too long. -/
lemma Health.Fed.checkStuck (evenBit oddBit even : Bool) :
    ∃ ones zeros sOnes sZeros, (h.observe evenBit oddBit even).checkStuck (bit t) =
        (false, { h.observe evenBit oddBit even with
          totalOnes := ones, totalZeros := zeros, seqOnes := sOnes, seqZeros := sZeros }) ∧
      (t + 1 ≤ 101 → sOnes = 0 ∧ sZeros = 0) ∧ Runs (t + 1) sOnes sZeros := by
  have hsamples : (h.observe evenBit oddBit even).numBitsSampled = samples t :=
    hfed.numBitsSampled_eq
  rw [Health.checkStuck]
  by_cases ht : (h.observe evenBit oddBit even).numBitsSampled > inmMinSampleSize
  · have ht' : ¬ t + 1 ≤ 101 := by
      rw [hsamples, samples] at ht
      simp only [inmMinSampleSize] at ht
      split_ifs at ht <;> omega
    rw [if_pos ht]
    rcases hbit : bit t with _ | _
    · have hruns := hfed.runs.zero hbit
      have hle := hruns.zeros_le
      have hu : u32 (h.seqZeros + 1) = h.seqZeros + 1 := u32_of_lt (by omega)
      refine ⟨_, _, 0, u32 (h.seqZeros + 1), Prod.ext (decide_eq_false ?_) rfl,
        (fun hle => absurd hle ht'), hu.symm ▸ hruns⟩
      change ¬ u32 (h.seqZeros + 1) > 20
      omega
    · have hruns := hfed.runs.one hbit
      have hle := hruns.ones_le
      have hu : u32 (h.seqOnes + 1) = h.seqOnes + 1 := u32_of_lt (by omega)
      refine ⟨_, _, u32 (h.seqOnes + 1), 0, Prod.ext (decide_eq_false ?_) rfl,
        (fun hle => absurd hle ht'), hu.symm ▸ hruns⟩
      change ¬ u32 (h.seqOnes + 1) > 20
      omega
  · have ht' : t ≤ 101 := by
      rw [hsamples, samples] at ht
      simp only [inmMinSampleSize] at ht
      split_ifs at ht <;> omega
    obtain ⟨hones, hzeros⟩ := hfed.unused ht'
    rw [if_neg ht]
    refine ⟨_, _, h.seqOnes, h.seqZeros, rfl, (fun _ => ⟨hones, hzeros⟩), ?_⟩
    rw [hones, hzeros]
    exact .none _

end

/-- The probability with which the doubling loop is entered. -/
def enteringProb (t p : ℕ) : ℕ :=
  if 0 < same t then fpMul p (fpDiv (same t) (same t + other t)) else p

/-- In the first two periods, and after 14 zeros, it has not changed; later it has been divided by
two up to three, and one or two doublings make up for that. -/
lemma exists_gain {t p : ℕ} (ht : t < 196602) (hp : fpHalf < p) (hp' : p ≤ fpOne) :
    ∃ gain ≤ 2, Gain t gain ∧ (∀ i < gain, enteringProb t p * 2 ^ i ≤ fpHalf) ∧
      fpHalf < enteringProb t p * 2 ^ gain := by
  simp only [fpHalf, fpOne] at hp hp' ⊢
  have hone : fpMul p 65536 = p := by
    rw [fpMul_eq (fpMulExact_of_le hp' (by decide)), Nat.mul_div_cancel _ (by norm_num)]
  rcases frequency_cases ht with ⟨hlt, hsame⟩ | ⟨hmod, hpos, hle, hother⟩ | ⟨hge, hcases⟩
  · refine ⟨0, Nat.zero_le _, ⟨fun _ => rfl, fun _ => Nat.zero_le _, by omega⟩, by simp, ?_⟩
    rw [enteringProb, hsame, if_neg (lt_irrefl 0)]
    simpa using hp
  · refine ⟨0, Nat.zero_le _, ⟨fun _ => rfl, fun _ => Nat.zero_le _, by omega⟩, by simp, ?_⟩
    have hdiv : fpDiv (same t) (same t) = 65536 := by
      interval_cases same t <;> decide
    rw [enteringProb, if_pos hpos, hother, Nat.add_zero, hdiv, hone]
    simpa using hp
  · have hgain : ∀ gain, 1 ≤ gain → gain ≤ 2 → Gain t gain := fun gain hpos hle =>
      ⟨by omega, fun _ => hle, fun _ _ _ => hpos⟩
    -- between a quarter and a half one doubling is enough
    have hloop : ∀ q, 8192 < q → q ≤ 32768 → enteringProb t p = q →
        ∃ gain ≤ 2, Gain t gain ∧ (∀ i < gain, enteringProb t p * 2 ^ i ≤ 32768) ∧
          32768 < enteringProb t p * 2 ^ gain := by
      intro q hq hq' heq
      rw [heq]
      rcases Nat.lt_or_ge 16384 q with hlt | hge
      · refine ⟨1, by norm_num, hgain 1 le_rfl (by norm_num), fun i hi => ?_, by omega⟩
        obtain rfl : i = 0 := by omega
        omega
      · refine ⟨2, le_rfl, hgain 2 (by norm_num) le_rfl, fun i hi => ?_, by omega⟩
        interval_cases i <;> omega
    obtain ⟨f, hf, hf', heq⟩ : ∃ f, 21845 ≤ f ∧ f ≤ 32768 ∧ enteringProb t p = fpMul p f := by
      rcases hcases with ⟨h, h'⟩ | ⟨h, h'⟩ | ⟨h, h'⟩ | ⟨h, h'⟩
      · exact ⟨fpDiv 1 2, by decide, by decide, by rw [enteringProb, h, h']; rfl⟩
      · exact ⟨fpDiv 1 3, by decide, by decide, by rw [enteringProb, h, h']; rfl⟩
      · exact ⟨fpDiv 2 4, by decide, by decide, by rw [enteringProb, h, h']; rfl⟩
      · exact ⟨fpDiv 2 5, by decide, by decide, by rw [enteringProb, h, h']; rfl⟩
    have hlow : 32769 * 21845 ≤ p * f := Nat.mul_le_mul hp hf
    have hhigh : p * f ≤ 65536 * 32768 := Nat.mul_le_mul hp' hf'
    rw [fpMul_eq (fpMulExact_of_le hp' (by simp only [fpOne]; omega))] at heq
    exact hloop _ (by omega) (by omega) heq

/-! ### One bit -/

/-- What the call for bit `t` has done to `h` by the doubling loop, and what the loop leaves. -/
structure Health.Observed (t : ℕ) (h e : Health) : Prop where
  table_eq : e.table = h.table
  prevBits_eq : e.prevBits = window t % 16384
  prevBit_eq : e.prevBit = bit t
  totalBits_eq : e.totalBits = t + 1
  numBitsSampled_eq : e.numBitsSampled = samples t
  okToUse_eq : e.okToUse = h.okToUse
  unused : t + 1 ≤ 101 → e.seqOnes = 0 ∧ e.seqZeros = 0
  runs : Runs (t + 1) e.seqOnes e.seqZeros

lemma Health.Observed.countBit {t : ℕ} {h e : Health} (he : Observed t h e) (k : ℕ) :
    Observed t h (Health.countBit^[k] e) := by
  rw [e.countBit_iterate]
  exact
    { table_eq := by
        rw [← he.table_eq]
        funext e' b
        cases e' <;> cases b <;> rfl
      prevBits_eq := he.prevBits_eq
      prevBit_eq := he.prevBit_eq
      totalBits_eq := he.totalBits_eq
      numBitsSampled_eq := he.numBitsSampled_eq
      okToUse_eq := he.okToUse_eq
      unused := he.unused
      runs := he.runs }

/-- The counts in the context of bit `t`. -/
lemma Health.Fed.counts_eq {t : ℕ} {h : Health} (hfed : h.Fed t) :
    h.table (decide (t % 2 = 1)) (bit t) (window t % 16384) = same t ∧
      h.table (decide (t % 2 = 1)) (!bit t) (window t % 16384) = other t :=
  have hlt : window t % 16384 < 16384 := Nat.mod_lt _ (by norm_num)
  ⟨hfed.table_eq _ _ _ hlt, hfed.table_eq _ _ _ hlt⟩

/-- The probability becomes the product with the frequency of the bit. -/
lemma Health.updateProb_of_counts {s : Health} {bit even : Bool} {c o : ℕ}
    (hc : s.table even bit s.prevBits = c) (ho : s.table even (!bit) s.prevBits = o)
    (hlt : c + o < 4294967296) :
    s.updateProb bit even = { s with
      currentProb := if 0 < c then fpMul s.currentProb (fpDiv c (c + o)) else s.currentProb } := by
  rw [Health.updateProb_eq, hc, ho, u32_of_lt hlt]
  by_cases hpos : 0 < c
  · rw [if_pos ⟨by omega, hpos⟩, if_pos hpos]
  · rw [if_neg fun hand => hpos hand.2, if_neg hpos]

lemma Health.Fed.enterLoop {t : ℕ} {h e : Health} (hfed : h.Fed t) (ht : t < 190976)
    (he : h.enterLoop (bit t) (bit t) (decide (t % 2 = 1)) = e) :
    Observed t h e ∧ e.currentProb = enteringProb t h.currentProb ∧
      e.numBitsOfEntropy = h.numBitsOfEntropy ∧ e.entropyLevel = h.entropyLevel ∧
      ((h.observe (bit t) (bit t) (decide (t % 2 = 1))).checkStuck (bit t)).1 = false := by
  have hselect : selectBit (bit t) (bit t) (decide (t % 2 = 1)) = bit t := by
    rw [selectBit, ite_self]
  obtain ⟨ones, zeros, sOnes, sZeros, hstuck, hunused, hruns⟩ :=
    hfed.checkStuck (bit t) (bit t) (decide (t % 2 = 1))
  obtain ⟨s, hs⟩ : ∃ s, s = { h.observe (bit t) (bit t) (decide (t % 2 = 1)) with
      totalOnes := ones, totalZeros := zeros, seqOnes := sOnes, seqZeros := sZeros } := ⟨_, rfl⟩
  rw [← hs] at hstuck
  have htable : s.table = h.table := by
    subst hs
    funext e b
    cases e <;> cases b <;> rfl
  have hprev : s.prevBits = window t % 16384 := by
    subst hs
    exact hfed.observe_prevBits (bit t) (bit t) (decide (t % 2 = 1))
  have hsmall : same t + other t < 4294967296 := by
    have h1 := hfed.inv.table_lt (decide (t % 2 = 1)) (bit t) (window t % 16384)
    have h2 := hfed.inv.table_lt (decide (t % 2 = 1)) (!bit t) (window t % 16384)
    obtain ⟨hsame, hother⟩ := hfed.counts_eq
    simp only [inmMaxCount] at h1 h2
    omega
  have hsame : s.table (decide (t % 2 = 1)) (bit t) s.prevBits = same t := by
    rw [htable, hprev, hfed.counts_eq.1]
  have hother : s.table (decide (t % 2 = 1)) (!bit t) s.prevBits = other t := by
    rw [htable, hprev, hfed.counts_eq.2]
  have hprob := Health.updateProb_of_counts hsame hother hsmall
  rw [Health.enterLoop, hselect, hstuck, hprob, hs] at he
  subst he
  refine ⟨?_, rfl, rfl, rfl, by rw [hstuck]⟩
  exact
    { table_eq := by
        funext e b
        cases e <;> cases b <;> rfl
      prevBits_eq := hfed.observe_prevBits (bit t) (bit t) (decide (t % 2 = 1))
      prevBit_eq := hselect
      totalBits_eq := by
        change u64 (h.totalBits + 1) = t + 1
        rw [hfed.totalBits_eq, u64_of_lt (by omega)]
      numBitsSampled_eq := hfed.numBitsSampled_eq
      okToUse_eq := rfl
      unused := hunused
      runs := hruns }

/-- The checker after bit `t`. -/
def fedBit (t : ℕ) (h : Health) : Health :=
  ((infnoiseHealthAddBit h (bit t) (bit t) (decide (t % 2 = 1))).map Prod.snd).getD h

/-- The end of the call for bit `t`, after `gain` doublings. -/
lemma Health.Observed.finish {t gain : ℕ} {h g : Health} (hg : Observed t h g) (hfed : h.Fed t)
    (ht : t < 190976) (hgain : Gain t gain)
    (hentropy : g.numBitsOfEntropy = h.numBitsOfEntropy + gain)
    (hinv : (g.finishBit (bit t) (decide (t % 2 = 1))).Inv) :
    (g.finishBit (bit t) (decide (t % 2 = 1))).Fed (t + 1) ∧
      (g.finishBit (bit t) (decide (t % 2 = 1))).numBitsOfEntropy =
        entropyAfter t h.numBitsOfEntropy gain ∧
      (g.finishBit (bit t) (decide (t % 2 = 1))).entropyLevel = g.entropyLevel := by
  obtain ⟨hsame, -⟩ := hfed.counts_eq
  have hcount : g.table (decide (t % 2 = 1)) (bit t) g.prevBits = same t := by
    rw [hg.table_eq, hg.prevBits_eq, hsame]
  have hsmall := same_eq t
  have hlt := samples_lt t
  have hfin := Health.finishBit_finished (by rw [hg.numBitsSampled_eq]; exact hlt) (bit t)
    (decide (t % 2 = 1))
  have hafter : (g.finishBit (bit t) (decide (t % 2 = 1))).numBitsOfEntropy =
      entropyAfter t h.numBitsOfEntropy gain := by
    rw [hfin.numBitsOfEntropy_eq, hentropy, hg.numBitsSampled_eq, entropyAfter]
  refine ⟨?_, hafter, hfin.entropyLevel_eq⟩
  exact
    { inv := hinv
      table_eq := fun e b i hi => by
        have hword := window_succ_eq t
        have hlt' : window t % 16384 < 16384 := Nat.mod_lt _ (by norm_num)
        rw [Health.finishBit_table (by omega), occurrences_succ, hg.table_eq, hg.prevBits_eq, hsame,
          ← hfed.table_eq e b i hi]
        by_cases heb : e = decide (t % 2 = 1) ∧ b = bit t
        · obtain ⟨rfl, rfl⟩ := heb
          rw [if_pos ⟨rfl, rfl⟩, Function.update_apply]
          by_cases hi' : i = window t % 16384
          · subst hi'
            rw [if_pos rfl, if_pos ⟨rfl, hword⟩, hsame]
          · rw [if_neg hi', if_neg fun hand => hi' (by omega), Nat.add_zero]
        · rw [if_neg heb, if_neg, Nat.add_zero]
          rintro ⟨rfl, hword'⟩
          refine heb ⟨rfl, ?_⟩
          rcases b with _ | _ <;> rcases hbit : bit t with _ | _ <;>
            simp only [hbit, Bool.toNat_false, Bool.toNat_true] at hword hword' ⊢ <;> omega
      context_eq := by
        rw [hfin.prevBits_eq, hfin.prevBit_eq, hg.prevBits_eq, hg.prevBit_eq, window_succ_eq]
      numBitsSampled_eq := by
        rw [hfin.numBitsSampled_eq, hg.numBitsSampled_eq, samples_succ]
      bounds := by
        rw [hafter]
        exact hfed.bounds.step hgain ht
      totalBits_eq := hfin.totalBits_eq.trans hg.totalBits_eq
      okToUse_eq := hfin.okToUse_eq
      unused := by
        rw [hfin.seqOnes_eq, hfin.seqZeros_eq]
        exact hg.unused
      runs := by
        rw [hfin.seqOnes_eq, hfin.seqZeros_eq]
        exact hg.runs }

/-- A bit of the register passes, and moves the meter. -/
lemma Health.Fed.addBit {t : ℕ} {h : Health} (hfed : h.Fed t) (ht : t < 190976)
    (hlevel : h.entropyLevel < 4294967000) :
    infnoiseHealthAddBit h (bit t) (bit t) (decide (t % 2 = 1)) = some (true, fedBit t h) ∧
      (fedBit t h).Fed (t + 1) ∧
      ∃ gain, Counts okRate t h.numBitsOfEntropy h.entropyLevel (fedBit t h).numBitsOfEntropy
        (fedBit t h).entropyLevel gain := by
  have hselect : selectBit (bit t) (bit t) (decide (t % 2 = 1)) = bit t := by
    rw [selectBit, ite_self]
  obtain ⟨e, he⟩ : ∃ e, h.enterLoop (bit t) (bit t) (decide (t % 2 = 1)) = e := ⟨_, rfl⟩
  obtain ⟨hobs, hprob, hentropy, hlevel₀, hstuck⟩ := hfed.enterLoop ht he
  obtain ⟨gain, hle, hgain, hlo, hhi⟩ := exists_gain (t := t) (by omega) hfed.inv.currentProb_gt
    hfed.inv.currentProb_le
  rw [← hprob] at hlo hhi
  have hiterate : ∀ i ≤ gain, (Health.countBit^[i] e).currentProb = e.currentProb * 2 ^ i :=
    fun i hi => e.countBit_iterate_prob fun j hj => hlo j (by omega)
  have hloop : doublingLoop 15 e = some (Health.countBit^[gain] e) :=
    doublingLoop_eq e (by omega) (fun i hi => by rw [hiterate i hi.le]; exact hlo i hi)
      (by rw [hiterate gain le_rfl]; exact hhi)
  rcases infnoiseHealthAddBit_cases hfed.inv (bit t) (bit t) (decide (t % 2 = 1)) with
    ⟨hstuck', _⟩ | ⟨_, k, _, hloop', hadd, hinv⟩
  · rw [hselect, hstuck] at hstuck'
    cases hstuck'
  · rw [he, hloop, Option.some.injEq] at hloop'
    rw [he, hselect, ← hloop'] at hadd hinv
    have hfed' : fedBit t h =
        (Health.countBit^[gain] e).finishBit (bit t) (decide (t % 2 = 1)) := by
      rw [fedBit, hadd]
      rfl
    have hsampled := samples_lt t
    have hsmall := hfed.inv.numBitsOfEntropy_le
    rw [hfed.numBitsSampled_eq] at hsmall
    obtain ⟨hnext, hafter, hkept⟩ := (hobs.countBit gain).finish hfed ht hgain
      (by rw [e.countBit_iterate_entropy _ (by omega), hentropy]) hinv
    rw [e.countBit_iterate_level _ (by omega), hlevel₀, hobs.okToUse_eq] at hkept
    rw [← hfed'] at hadd hnext hafter hkept
    refine ⟨hadd, hnext, gain, hgain, hafter, ?_, ?_, ?_⟩
    · rw [hkept]
      exact Nat.le_add_right _ _
    · rw [hkept]
      split <;> omega
    · intro ht' hlow hhigh
      have hok : infnoiseHealthOk h = true := hfed.ok_of_excess ht'
        (le_trans (by norm_num) hlow) hhigh
      rw [hkept, hfed.okToUse_eq, hok]
      rfl

/-! ### Many bits -/

/-- The checker after `k` bits of the register from bit `t` on. -/
def fedBits (t : ℕ) (h : Health) : ℕ → Health
  | 0 => h
  | k + 1 => fedBit (t + k) (fedBits t h k)

@[simp] lemma fedBits_zero (t : ℕ) (h : Health) : fedBits t h 0 = h := rfl

lemma Health.Fed.bits {t : ℕ} {h : Health} (hfed : h.Fed t) (hlevel : h.entropyLevel = 0) {k : ℕ}
    (hk : t + k ≤ 190976) : (fedBits t h k).Fed (t + k) ∧ (fedBits t h k).entropyLevel ≤ 2 * k := by
  induction k with
  | zero => exact ⟨hfed, hlevel.le⟩
  | succ k ih =>
    obtain ⟨hfed', hle⟩ := ih (by omega)
    obtain ⟨_, hnext, gain, hcounts⟩ := hfed'.addBit (by omega) (by omega)
    have hgain := hcounts.gain_of.le_two (by omega)
    have hle' := hcounts.level_le_add
    exact ⟨hnext, by rw [fedBits]; omega⟩

/-- A block moves the meter. -/
lemma Health.Fed.path {j : ℕ} {h : Health} (hfed : h.Fed (512 * j)) (hlevel : h.entropyLevel = 0)
    (hj : j < 373) : Path okRate j (fun k => (fedBits (512 * j) h k).numBitsOfEntropy)
      fun k => (fedBits (512 * j) h k).entropyLevel := by
  intro k hk
  obtain ⟨hfed', hle⟩ := hfed.bits hlevel (k := k) (by omega)
  exact (hfed'.addBit (by omega) (by omega)).2.2

end Kernel
