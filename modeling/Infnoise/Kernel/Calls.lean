import Infnoise.Kernel.HealthSafety
import Mathlib.Algebra.BigOperators.Group.List.Basic

/-!
# What a call of the health checker leaves

A call of `infnoise_health_add_bit` that returns `false` leaves the state of its stuck-at check.
One that returns `true` goes through the doubling loop, and the rounds of the loop are the bits of
entropy that the call counts.
-/

namespace Kernel

open Core

/-! ### The end of a call -/

/-- What follows the doubling loop, but for the tables. -/
structure Health.Finished (h h' : Health) : Prop where
  prevBits_eq : h'.prevBits = h.prevBits
  prevBit_eq : h'.prevBit = h.prevBit
  totalBits_eq : h'.totalBits = h.totalBits
  seqOnes_eq : h'.seqOnes = h.seqOnes
  seqZeros_eq : h'.seqZeros = h.seqZeros
  entropyLevel_eq : h'.entropyLevel = h.entropyLevel
  numBitsSampled_eq : h'.numBitsSampled =
    if h.numBitsSampled + 1 = 80000 then 40000 else h.numBitsSampled + 1
  numBitsOfEntropy_eq : h'.numBitsOfEntropy =
    if h.numBitsSampled + 1 = 80000 then h.numBitsOfEntropy / 2 else h.numBitsOfEntropy
  okToUse_eq : h'.okToUse = infnoiseHealthOk h'

lemma scaleEntropy_eq (h : Health) (hs : h.numBitsSampled ≤ 80000) :
    ∃ em om, scaleEntropy h = { h with
      numBitsSampled := if h.numBitsSampled = 80000 then 40000 else h.numBitsSampled
      numBitsOfEntropy := if h.numBitsSampled = 80000 then h.numBitsOfEntropy / 2
        else h.numBitsOfEntropy
      evenMisfires := em, oddMisfires := om } := by
  rw [scaleEntropy]
  by_cases hfull : h.numBitsSampled = 80000
  · rw [if_pos (by simp only [inmMinData]; omega), if_pos hfull, if_pos hfull, hfull,
      Nat.shiftRight_eq_div_pow, Nat.shiftRight_eq_div_pow]
    exact ⟨_, _, rfl⟩
  · rw [if_neg (by simp only [inmMinData]; omega), if_neg hfull, if_neg hfull]
    exact ⟨_, _, rfl⟩

lemma Health.finishBit_finished {h : Health} (hs : h.numBitsSampled < 80000) (bit even : Bool) :
    h.Finished (h.finishBit bit even) := by
  have hus : u32 (h.numBitsSampled + 1) = h.numBitsSampled + 1 := u32_of_lt (by omega)
  obtain ⟨oe, ze, oo, zo, hframe⟩ := h.countSample.updateTables_frame bit even
  obtain ⟨em, om, hscale⟩ := scaleEntropy_eq (h.countSample.updateTables bit even) (by
    rw [hframe]
    change u32 (h.numBitsSampled + 1) ≤ 80000
    omega)
  obtain ⟨z, o, hcounts⟩ := scaleZeroOneCounts_frame
    (scaleEntropy (h.countSample.updateTables bit even))
  rw [Health.finishBit, hcounts, hscale, hframe]
  exact
    { prevBits_eq := rfl
      prevBit_eq := rfl
      totalBits_eq := rfl
      seqOnes_eq := rfl
      seqZeros_eq := rfl
      entropyLevel_eq := rfl
      numBitsSampled_eq := by rw [← hus]; rfl
      numBitsOfEntropy_eq := by rw [← hus]; rfl
      okToUse_eq := rfl }

lemma Health.finishBit_prob (h : Health) (bit even : Bool) :
    (h.finishBit bit even).currentProb = h.currentProb := by
  obtain ⟨_, _, _, _, hframe⟩ := h.countSample.updateTables_frame bit even
  obtain ⟨_, _, _, _, hscale⟩ := scaleEntropy_frame (h.countSample.updateTables bit even)
  obtain ⟨_, _, hcounts⟩ := scaleZeroOneCounts_frame
    (scaleEntropy (h.countSample.updateTables bit even))
  rw [finishBit, hcounts, hscale, hframe]
  rfl

/-- Below the bound no table is scaled. -/
lemma Health.finishBit_table {h : Health} {bit even : Bool}
    (hcount : h.table even bit h.prevBits + 1 < 16384) (e b : Bool) :
    (h.finishBit bit even).table e b = if e = even ∧ b = bit then
      Function.update (h.table even bit) h.prevBits (h.table even bit h.prevBits + 1)
      else h.table e b := by
  have hu : u32 (h.table even bit h.prevBits + 1) = h.table even bit h.prevBits + 1 :=
    u32_of_lt (by omega)
  rw [Health.finishBit_table_eq, Tables.count, if_neg, Tables.bump, hu]
  rw [hu]
  exact not_le.mpr hcount

/-! ### The bits a call counts -/

/-- The bit a sample contributes. -/
def Sample.bit (x : Sample) : Bool := selectBit x.evenBit x.oddBit x.even

/-- The verdict of the stuck-at check of a call, and the state the check leaves. -/
def Health.check (h : Health) (x : Sample) : Bool × Health :=
  (h.observe x.evenBit x.oddBit x.even).checkStuck x.bit

/-- The rounds that the doubling loop makes. -/
def doublings : ℕ → Health → ℕ
  | 0, _ => 0
  | fuel + 1, h => if h.currentProb ≤ fpHalf then doublings fuel h.countBit + 1 else 0

/-- The bits of entropy that a call counts: the rounds of its doubling loop, which a call that
reports a fault does not reach. -/
def Health.bitsCounted (h : Health) (x : Sample) : ℕ :=
  if (h.check x).1 then 0 else doublings doublingFuel (h.enterLoop x.evenBit x.oddBit x.even)

/-- The loop makes this many rounds. -/
lemma doublingLoop_doublings {fuel : ℕ} {h h' : Health} (hloop : doublingLoop fuel h = some h') :
    h' = Health.countBit^[doublings fuel h] h := by
  induction fuel generalizing h with
  | zero =>
    simp only [doublingLoop] at hloop
    split at hloop
    · cases hloop
    · exact (Option.some.inj hloop).symm
  | succ fuel ih =>
    simp only [doublingLoop] at hloop
    rw [doublings]
    split at hloop
    · rename_i hle
      rw [if_pos hle, Function.iterate_succ_apply]
      exact ih hloop
    · rename_i hgt
      rw [if_neg hgt]
      exact (Option.some.inj hloop).symm

/-- The loop counts as many bits as it takes to pass one half. -/
lemma doublings_eq {fuel k : ℕ} {h : Health} (hfuel : k ≤ fuel)
    (hlo : ∀ i < k, (Health.countBit^[i] h).currentProb ≤ fpHalf)
    (hhi : fpHalf < (Health.countBit^[k] h).currentProb) : doublings fuel h = k := by
  induction k generalizing h fuel with
  | zero =>
    have hnot : ¬ h.currentProb ≤ fpHalf := Nat.not_le.mpr hhi
    cases fuel with
    | zero => rfl
    | succ fuel => rw [doublings, if_neg hnot]
  | succ k ih =>
    obtain ⟨fuel, rfl⟩ : ∃ n, fuel = n + 1 := ⟨fuel - 1, by omega⟩
    have h0 : h.currentProb ≤ fpHalf := hlo 0 (Nat.succ_pos k)
    rw [doublings, if_pos h0]
    congr 1
    apply ih (by omega)
    · intro i hi
      have := hlo (i + 1) (by omega)
      rwa [Function.iterate_succ_apply] at this
    · rwa [Function.iterate_succ_apply] at hhi

lemma Health.countBit_iterate_level (h : Health) (k : ℕ)
    (hk : h.entropyLevel + k < 4294967296) :
    (Health.countBit^[k] h).entropyLevel = h.entropyLevel + if h.okToUse then k else 0 := by
  induction k with
  | zero => simp
  | succ k ih =>
    have hok : (Health.countBit^[k] h).okToUse = h.okToUse := by rw [h.countBit_iterate]
    rw [Function.iterate_succ_apply', Health.countBit, ih (by omega)]
    dsimp only
    rw [hok]
    rcases h.okToUse with _ | _
    · rfl
    · exact u32_of_lt (by simp only [if_true]; omega)

/-! ### The two outcomes -/

/-- What a call that returns `true` has done. -/
structure Health.Passed (h : Health) (x : Sample) (h' : Health) : Prop where
  check_eq : (h.check x).1 = false
  eq_finishBit : h' = (Health.countBit^[h.bitsCounted x]
    ((h.check x).2.updateProb x.bit x.even)).finishBit x.bit x.even
  bitsCounted_le : h.bitsCounted x ≤ 15
  prob_le : ∀ i < h.bitsCounted x,
    ((h.check x).2.updateProb x.bit x.even).currentProb * 2 ^ i ≤ fpHalf
  prob_eq : h'.currentProb =
    ((h.check x).2.updateProb x.bit x.even).currentProb * 2 ^ h.bitsCounted x
  inv : h'.Inv

/-- A call that returns `false` stops at the stuck-at check, one that returns `true` passes it. -/
theorem Health.addBit_outcome {h h' : Health} (hinv : h.Inv) {x : Sample} {ok : Bool}
    (hadd : h.addBit x = some (ok, h')) :
    (ok = false ∧ (h.check x).1 = true ∧ h' = (h.check x).2) ∨ (ok = true ∧ h.Passed x h') := by
  rw [Health.addBit] at hadd
  rcases infnoiseHealthAddBit_cases hinv x.evenBit x.oddBit x.even with
    ⟨hfault, heq⟩ | ⟨hok, _, _, hloop, heq, hinv'⟩
  · rw [heq] at hadd
    cases hadd
    exact .inl ⟨rfl, hfault, rfl⟩
  · obtain ⟨_, _, _, _, hlo, hhi⟩ := Health.enterLoop_bounds hinv x.evenBit x.oddBit x.even
    obtain ⟨k, hk, hdouble, hhalf, _⟩ := exists_doublings hlo hhi
    have hprob : ∀ i ≤ k,
        (Health.countBit^[i] (h.enterLoop x.evenBit x.oddBit x.even)).currentProb
          = (h.enterLoop x.evenBit x.oddBit x.even).currentProb * 2 ^ i := fun i hi =>
      Health.countBit_iterate_prob _ fun j hj => hdouble j (by omega)
    have hle : ∀ i < k,
        (Health.countBit^[i] (h.enterLoop x.evenBit x.oddBit x.even)).currentProb ≤ fpHalf :=
      fun i hi => (hprob i hi.le).trans_le (hdouble i hi)
    have hgt : fpHalf <
        (Health.countBit^[k] (h.enterLoop x.evenBit x.oddBit x.even)).currentProb := by
      rwa [hprob k le_rfl]
    have hcount : h.bitsCounted x = k := by
      rw [Health.bitsCounted, if_neg (by rw [Health.check, Sample.bit, hok]; simp)]
      exact doublings_eq (by simp only [doublingFuel]; omega) hle hgt
    rw [doublingLoop_eq _ hk hle hgt, Option.some.injEq] at hloop
    rw [heq, ← hloop] at hadd
    cases hadd
    rw [← hloop] at hinv'
    exact .inr ⟨rfl,
      { check_eq := hok
        eq_finishBit := by rw [hcount]; rfl
        bitsCounted_le := hcount ▸ hk
        prob_le := hcount ▸ hdouble
        prob_eq := by
          rw [hcount]
          refine Eq.trans ?_ (hprob k le_rfl)
          exact Health.finishBit_prob _ _ _
        inv := hinv' }⟩

/-- The stuck-at check works on the recorded sample, and changes the totals and the run lengths. -/
lemma Health.check_eq (h : Health) (x : Sample) :
    ∃ ones zeros sOnes sZeros, (h.check x).2 = { h.observe x.evenBit x.oddBit x.even with
      totalOnes := ones, totalZeros := zeros, seqOnes := sOnes, seqZeros := sZeros } :=
  Health.checkStuck_eq _ _

/-- The run lengths are those of the stuck-at check, and the two counters of the estimate go up, or
are halved at the end of a window. -/
lemma Health.Passed.counters {h h' : Health} {x : Sample} (hp : h.Passed x h') (hinv : h.Inv) :
    h'.seqOnes = (h.check x).2.seqOnes ∧ h'.seqZeros = (h.check x).2.seqZeros ∧
      h'.numBitsSampled =
        (if h.numBitsSampled + 1 = 80000 then 40000 else h.numBitsSampled + 1) ∧
      h'.numBitsOfEntropy =
        (if h.numBitsSampled + 1 = 80000 then (h.numBitsOfEntropy + h.bitsCounted x) / 2
          else h.numBitsOfEntropy + h.bitsCounted x) := by
  have hs := hinv.numBitsSampled_lt
  have he := hinv.numBitsOfEntropy_le
  have hk := hp.bitsCounted_le
  simp only [inmMinData] at hs
  obtain ⟨_, _, _, _, hcheck⟩ := h.check_eq x
  obtain ⟨e, hupdate⟩ : ∃ e, (h.check x).2.updateProb x.bit x.even = e := ⟨_, rfl⟩
  have hprob := (h.check x).2.updateProb_eq x.bit x.even
  have hsam : e.numBitsSampled = h.numBitsSampled := by
    rw [← hupdate, hprob, hcheck]
    rfl
  have hent : e.numBitsOfEntropy = h.numBitsOfEntropy := by
    rw [← hupdate, hprob, hcheck]
    rfl
  have hit := e.countBit_iterate (h.bitsCounted x)
  have hsam' : (Health.countBit^[h.bitsCounted x] e).numBitsSampled = h.numBitsSampled := by
    rw [hit]
    exact hsam
  have hent' : (Health.countBit^[h.bitsCounted x] e).numBitsOfEntropy
      = h.numBitsOfEntropy + h.bitsCounted x := by
    rw [e.countBit_iterate_entropy _ (by omega), hent]
  have hfin := Health.finishBit_finished (h := Health.countBit^[h.bitsCounted x] e)
    (by omega) x.bit x.even
  rw [← hupdate, ← hp.eq_finishBit, hupdate] at hfin
  refine ⟨?_, ?_, ?_, ?_⟩
  · rw [hfin.seqOnes_eq, hit, ← hupdate, hprob]
  · rw [hfin.seqZeros_eq, hit, ← hupdate, hprob]
  · rw [hfin.numBitsSampled_eq, hsam']
  · rw [hfin.numBitsOfEntropy_eq, hsam', hent']

/-- Each call that passes counts one bit, and ends with the verdict. -/
lemma Health.Passed.verdict {h h' : Health} {x : Sample} (hp : h.Passed x h') (hinv : h.Inv) :
    h'.totalBits = u64 (h.totalBits + 1) ∧ h'.okToUse = infnoiseHealthOk h' := by
  have hs := hinv.numBitsSampled_lt
  simp only [inmMinData] at hs
  obtain ⟨_, _, _, _, hcheck⟩ := h.check_eq x
  obtain ⟨e, he⟩ :
      ∃ e, Health.countBit^[h.bitsCounted x] ((h.check x).2.updateProb x.bit x.even) = e := ⟨_, rfl⟩
  have hframe : e.numBitsSampled = h.numBitsSampled ∧ e.totalBits = u64 (h.totalBits + 1) := by
    rw [← he, Health.countBit_iterate, Health.updateProb_eq, hcheck]
    exact ⟨rfl, rfl⟩
  have hfin := Health.finishBit_finished (h := e) (by omega) x.bit x.even
  rw [hp.eq_finishBit, he]
  exact ⟨hfin.totalBits_eq.trans hframe.2, hfin.okToUse_eq⟩

/-- The probability with which the doubling loop is entered: the frequency of the bit in its
context, unless the bit has not been seen there, goes into it. -/
lemma Health.Inv.prediction_eq {h : Health} (hinv : h.Inv) (x : Sample) {context c o : ℕ}
    (hcontext : (2 * h.prevBits + h.prevBit.toNat) % 16384 = context)
    (hc : h.table x.even x.bit context = c) (ho : h.table x.even (!x.bit) context = o) :
    ((h.check x).2.updateProb x.bit x.even).currentProb =
      if c = 0 then h.currentProb else fpMul h.currentProb (fpDiv c (c + o)) := by
  obtain ⟨_, _, _, _, hcheck⟩ := h.check_eq x
  have hprob : (h.check x).2.currentProb = h.currentProb := by
    rw [hcheck]
    rfl
  have hprev : (h.check x).2.prevBits = context := by
    rw [hcheck, ← hcontext]
    exact h.observe_prevBits x.evenBit x.oddBit x.even
  have htable : (h.check x).2.table = h.table := by
    rw [hcheck, ← h.observe_table x.evenBit x.oddBit x.even]
    funext e b
    cases e <;> cases b <;> rfl
  have hc' := hinv.table_lt x.even x.bit context
  have ho' := hinv.table_lt x.even (!x.bit) context
  simp only [inmMaxCount, hc, ho] at hc' ho'
  rw [Health.updateProb_eq, hprob, hprev, htable, hc, ho]
  dsimp only
  rw [u32_of_lt (by omega)]
  split_ifs with hpos hzero hzero
  · omega
  · rfl
  · rfl
  · omega

/-- The context of the next call ends with the bit of this one, whose count goes up. -/
lemma Health.Passed.frame {h h' : Health} {x : Sample} (hp : h.Passed x h') {context : ℕ}
    (hcontext : (2 * h.prevBits + h.prevBit.toNat) % 16384 = context)
    (hcount : h.table x.even x.bit context + 1 < 16384) :
    h'.prevBits = context ∧ h'.prevBit = x.bit ∧
      ∀ e b, h'.table e b = if e = x.even ∧ b = x.bit then
        Function.update (h.table x.even x.bit) context (h.table x.even x.bit context + 1)
        else h.table e b := by
  obtain ⟨_, _, _, _, hcheck⟩ := h.check_eq x
  obtain ⟨e, he⟩ :
      ∃ e, Health.countBit^[h.bitsCounted x] ((h.check x).2.updateProb x.bit x.even) = e := ⟨_, rfl⟩
  have hobs := h.observe_prevBits x.evenBit x.oddBit x.even
  rw [hcontext] at hobs
  have hframe : e.prevBits = context ∧ e.prevBit = x.bit ∧ e.table = h.table := by
    rw [← he, Health.countBit_iterate, Health.updateProb_eq, hcheck]
    refine ⟨hobs, rfl, ?_⟩
    rw [← h.observe_table x.evenBit x.oddBit x.even]
    funext e b
    cases e <;> cases b <;> rfl
  obtain ⟨hprevBits, hprevBit, htable⟩ := hframe
  obtain ⟨_, _, hfin⟩ :=
    scaleZeroOneCounts_frame (scaleEntropy (e.countSample.updateTables x.bit x.even))
  obtain ⟨_, _, _, _, hscale⟩ := scaleEntropy_frame (e.countSample.updateTables x.bit x.even)
  obtain ⟨_, _, _, _, hupdate⟩ := e.countSample.updateTables_frame x.bit x.even
  rw [hp.eq_finishBit, he]
  refine ⟨?_, ?_, fun a b => ?_⟩
  · rw [Health.finishBit, hfin, hscale, hupdate]
    exact hprevBits
  · rw [Health.finishBit, hfin, hscale, hupdate]
    exact hprevBit
  · rw [Health.finishBit_table (by rw [htable, hprevBits]; exact hcount), htable, hprevBits]

/-- The bits of entropy that the calls of a run count. -/
def bitsOfRun (cs : List (Call Health Sample Bool)) : ℕ :=
  (cs.map fun c => c.before.bitsCounted c.input).sum

/-! ### The verdict -/

lemma Health.Inv.estimate_eq {h : Health} (hinv : h.Inv) (hpos : 0 < h.numBitsSampled) :
    infnoiseHealthEstimateEntropyPerBit h = h.numBitsOfEntropy * 65536 / h.numBitsSampled := by
  have hs := hinv.numBitsSampled_lt
  have he := hinv.numBitsOfEntropy_le
  simp only [inmMinData] at hs
  rw [infnoiseHealthEstimateEntropyPerBit, if_neg (by omega), fpDiv_eq (by omega)]
  exact fpDivExact_of_le (by omega) he (by norm_num)

/-- The verdict holds when there is enough data and the estimate is between its two bounds. -/
lemma Health.Inv.ok_iff {h : Health} (hinv : h.Inv) (hpos : 0 < h.numBitsSampled) :
    infnoiseHealthOk h = true ↔ 80000 ≤ h.totalBits ∧
      55991 * h.numBitsSampled ≤ h.numBitsOfEntropy * 65536 ∧
      h.numBitsOfEntropy * 65536 < 59402 * h.numBitsSampled := by
  have hbound : fpDiv inmExpectedEntropyFp inmAccuracyFp = 55991 := by decide
  have hbound' : fpMul inmExpectedEntropyFp inmAccuracyFp = 59401 := by decide
  rw [infnoiseHealthOk]
  by_cases htotal : h.totalBits < inmMinData
  · rw [if_pos htotal]
    simp only [inmMinData] at htotal
    constructor
    · intro hf
      cases hf
    · intro hand
      omega
  · rw [if_neg htotal]
    simp only [inmMinData] at htotal
    simp only [hbound, hbound', hinv.estimate_eq hpos, Bool.and_eq_true, decide_eq_true_iff,
      ge_iff_le]
    rw [Nat.le_div_iff_mul_le hpos, Nat.div_le_iff_le_mul hpos]
    constructor
    · rintro ⟨hlow, hhigh⟩
      exact ⟨by omega, hlow, by omega⟩
    · rintro ⟨_, hlow, hhigh⟩
      exact ⟨hlow, by omega⟩

lemma infnoiseHealthOk_sampled {h : Health} (hok : infnoiseHealthOk h = true) :
    0 < h.numBitsSampled := by
  by_contra hzero
  have hestimate : infnoiseHealthEstimateEntropyPerBit h = 0 := by
    rw [infnoiseHealthEstimateEntropyPerBit, if_pos (by omega)]
  have hbound : fpDiv inmExpectedEntropyFp inmAccuracyFp = 55991 := by decide
  rw [infnoiseHealthOk] at hok
  split at hok
  · cases hok
  · simp only [hestimate, hbound] at hok
    cases hok

end Kernel
