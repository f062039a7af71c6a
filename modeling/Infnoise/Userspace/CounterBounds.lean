import Infnoise.Core.ShiftRegister
import Infnoise.Userspace.HealthAgreement
import Infnoise.Userspace.Warmup

/-!
# The counters of the userspace health checker

Every scaling is triggered by equality with a limit. A report of a run that is too long returns
before the totals are scaled, so a total that reaches its limit there is not halved; it passes the
limit when the next sample repeats the bit, and nothing scales it from then on.

`Counters` is the part of the state that decides this. It depends on the bits selected alone.
-/

namespace Userspace

open Core Core.Binary64
open Kernel (selectBit)

/-! ### The counters -/

/-- The samples counted, and for each bit how often it came and how long it has been coming. -/
@[ext] structure Counters where
  sampled : ℕ
  total : Bool → ℕ
  sequential : Bool → ℕ

def HealthState.counters (hc : HealthState) : Counters where
  sampled := hc.numBitsSampled
  total b := if b then hc.totalOnes else hc.totalZeros
  sequential b := if b then hc.numSequentialOnes else hc.numSequentialZeros

namespace Counters

/-- One more `bit` is too many. -/
def Stuck (c : Counters) (bit : Bool) : Prop :=
  100 < c.sampled ∧ inmMaxSequence < u32 (c.sequential bit + 1)

instance (c : Counters) (bit : Bool) : Decidable (c.Stuck bit) := by
  unfold Stuck
  infer_instance

/-- The stuck-at check counts a bit. -/
def count (c : Counters) (bit : Bool) : Counters :=
  if 100 < c.sampled then
    { c with
      total := fun b => if b = bit then u32 (c.total b + 1) else c.total b
      sequential := fun b => if b = bit ∧ ¬c.Stuck bit then u32 (c.sequential b + 1) else 0 }
  else c

/-- The end of a call counts the sample, and halves what has reached its limit. -/
def finish (c : Counters) : Counters where
  sampled :=
    if u32 (c.sampled + 1) = inmMinData then u32 (c.sampled + 1) >>> 1 else u32 (c.sampled + 1)
  total b := if max (c.total false) (c.total true) = inmMinData then c.total b >>> 1 else c.total b
  sequential := c.sequential

def addBit (c : Counters) (bit : Bool) : Counters :=
  if c.Stuck bit then c.count bit else (c.count bit).finish

/-- What holds at every call boundary, while no total has passed its limit. A total is at its limit
only right after a run was reported. -/
structure Valid (c : Counters) : Prop where
  sampled_lt : c.sampled < inmMinData
  total_le : ∀ b, c.total b ≤ inmMinData
  sequential_le : ∀ b, c.sequential b ≤ inmMaxSequence
  of_full : ∀ b, c.total b = inmMinData →
    100 < c.sampled ∧ c.sequential b = 0 ∧ c.sequential (!b) = 0 ∧ c.total (!b) < inmMinData

/-- The report of a run of `bit` leaves its total at the limit. -/
def Fills (c : Counters) (bit : Bool) : Prop := c.Stuck bit ∧ c.total bit + 1 = inmMinData

variable {c : Counters} {bit : Bool}

lemma max_total (c : Counters) (bit : Bool) :
    max (c.total false) (c.total true) = max (c.total bit) (c.total (!bit)) := by
  cases bit
  · rfl
  · exact max_comm _ _

lemma finish_total (c : Counters) (bit b : Bool) :
    c.finish.total b =
      if max (c.total bit) (c.total (!bit)) = inmMinData then c.total b >>> 1 else c.total b := by
  rw [← c.max_total]
  rfl

lemma count_of_lt (h : 100 < c.sampled) (bit : Bool) :
    c.count bit = { c with
      total := fun b => if b = bit then u32 (c.total b + 1) else c.total b
      sequential := fun b => if b = bit ∧ ¬c.Stuck bit then u32 (c.sequential b + 1) else 0 } :=
  if_pos h

lemma Valid.total_lt_of_le (hv : c.Valid) (h : c.sampled ≤ 100) (b : Bool) :
    c.total b < inmMinData := by
  refine lt_of_le_of_ne (hv.total_le b) fun hfull => ?_
  have := (hv.of_full b hfull).1
  omega

lemma Valid.stuck_iff (hv : c.Valid) (bit : Bool) :
    c.Stuck bit ↔ 100 < c.sampled ∧ c.sequential bit = inmMaxSequence := by
  have hseq := hv.sequential_le bit
  simp only [inmMaxSequence] at hseq
  rw [Stuck, u32_of_lt (by omega)]
  simp only [inmMaxSequence]
  omega

/-- The first samples are only counted. -/
lemma Valid.addBit_warm (hv : c.Valid) (h : c.sampled ≤ 100) (bit : Bool) :
    c.addBit bit = { c with sampled := c.sampled + 1 } := by
  have hstuck : ¬c.Stuck bit := fun hs => absurd hs.1 (by omega)
  have htrue := hv.total_lt_of_le h true
  have hfalse := hv.total_lt_of_le h false
  have hcount : c.count bit = c := if_neg (by omega)
  rw [addBit, if_neg hstuck, hcount, finish, u32_of_lt (by omega), if_neg (by simp; omega)]
  congr
  funext b
  rw [if_neg (by omega)]

/-- A report counts the bit, and starts the runs again. -/
lemma Valid.addBit_stuck (hv : c.Valid) (hs : c.Stuck bit) :
    c.addBit bit = { c with
      total := fun b => if b = bit then c.total b + 1 else c.total b
      sequential := fun _ => 0 } := by
  have htotal := hv.total_le bit
  simp only [inmMinData] at htotal
  rw [addBit, if_pos hs, count_of_lt hs.1]
  congr 1
  · funext b
    split_ifs with hb
    · rw [hb, u32_of_lt (by omega)]
    · rfl
  · funext b
    exact if_neg fun h => h.2 hs

/-- Any other call goes on with its run and scales what has reached its limit. -/
lemma Valid.addBit_counted (hv : c.Valid) (h : 100 < c.sampled) (hs : ¬c.Stuck bit) :
    100 < (c.addBit bit).sampled ∧ (c.addBit bit).sampled < inmMinData ∧
      (c.addBit bit).sequential bit = c.sequential bit + 1 ∧
      (c.addBit bit).sequential (!bit) = 0 ∧
      (c.addBit bit).total bit =
        (if max (c.total bit + 1) (c.total (!bit)) = inmMinData then (c.total bit + 1) >>> 1
          else c.total bit + 1) ∧
      (c.addBit bit).total (!bit) =
        (if max (c.total bit + 1) (c.total (!bit)) = inmMinData then c.total (!bit) >>> 1
          else c.total (!bit)) := by
  have hsampled := hv.sampled_lt
  have htotal := hv.total_le bit
  have hseq := hv.sequential_le bit
  simp only [inmMinData, inmMaxSequence] at hsampled htotal hseq
  have hne : (!bit) ≠ bit := by cases bit <;> decide
  have hbit : (c.count bit).total bit = c.total bit + 1 := by
    rw [count_of_lt h]
    exact (if_pos rfl).trans (u32_of_lt (by omega))
  have hother : (c.count bit).total (!bit) = c.total (!bit) := by
    rw [count_of_lt h]
    exact if_neg hne
  have hfinish : (c.count bit).finish.sampled =
      if c.sampled + 1 = inmMinData then (c.sampled + 1) >>> 1 else c.sampled + 1 := by
    rw [count_of_lt h, finish, u32_of_lt (by dsimp only; omega)]
  rw [addBit, if_neg hs, finish_total _ bit, finish_total _ bit, hbit, hother, hfinish]
  refine ⟨?_, ?_, ?_, ?_, rfl, rfl⟩
  · simp only [inmMinData, Nat.shiftRight_eq_div_pow]
    split_ifs <;> omega
  · simp only [inmMinData, Nat.shiftRight_eq_div_pow]
    split_ifs <;> omega
  · rw [count_of_lt h]
    exact (if_pos ⟨rfl, hs⟩).trans (u32_of_lt (by omega))
  · rw [count_of_lt h]
    exact if_neg fun hb => hne hb.1

/-- A run that is being reported has not just started again. -/
lemma Valid.total_lt_of_stuck (hv : c.Valid) (hs : c.Stuck bit) :
    c.total (!bit) < inmMinData := by
  have hseq := ((hv.stuck_iff bit).mp hs).2
  refine lt_of_le_of_ne (hv.total_le _) fun hfull => ?_
  have hzero := (hv.of_full _ hfull).2.2.1
  rw [Bool.not_not, hseq] at hzero
  cases hzero

/-- A bit whose total is below the limit keeps the counters valid. -/
lemma Valid.addBit (hv : c.Valid) (hroom : c.total bit < inmMinData) : (c.addBit bit).Valid := by
  by_cases hwarm : c.sampled ≤ 100
  · rw [hv.addBit_warm hwarm]
    exact
      { sampled_lt := by simp only [inmMinData]; omega
        total_le := hv.total_le
        sequential_le := hv.sequential_le
        of_full := fun b hfull => absurd hfull (hv.total_lt_of_le hwarm b).ne }
  · by_cases hs : c.Stuck bit
    · have hother := hv.total_lt_of_stuck hs
      rw [hv.addBit_stuck hs]
      refine ⟨hv.sampled_lt, ?_, fun _ => Nat.zero_le _, ?_⟩
      · intro b
        dsimp only
        split_ifs with hb
        · rw [hb]
          exact hroom
        · exact hv.total_le b
      · intro b hfull
        dsimp only at hfull ⊢
        refine ⟨hs.1, rfl, rfl, ?_⟩
        by_cases hb : b = bit
        · rw [hb, if_neg (by cases bit <;> decide)]
          exact hother
        · rw [if_neg hb, Bool.eq_not.mpr hb] at hfull
          omega
    · obtain ⟨hlo, hhi, hseq, hseq', htotal, htotal'⟩ := hv.addBit_counted (by omega) hs
      have hle := hv.total_le (!bit)
      have hrun := hv.sequential_le bit
      have hne : c.sequential bit ≠ inmMaxSequence := fun h =>
        hs ((hv.stuck_iff bit).mpr ⟨by omega, h⟩)
      have hbound : (c.addBit bit).total bit < inmMinData ∧
          (c.addBit bit).total (!bit) < inmMinData := by
        rw [htotal, htotal']
        simp only [inmMinData, Nat.shiftRight_eq_div_pow] at *
        split_ifs <;> omega
      refine ⟨hhi, ?_, ?_, ?_⟩
      · exact (Bool.forall_bool' bit).mpr ⟨hbound.1.le, hbound.2.le⟩
      · refine (Bool.forall_bool' bit).mpr ⟨?_, ?_⟩
        · omega
        · rw [hseq']
          exact Nat.zero_le _
      · exact (Bool.forall_bool' bit).mpr
          ⟨fun h => absurd h hbound.1.ne, fun h => absurd h hbound.2.ne⟩

/-- A total is at its limit after a call only if a report has left it there. -/
lemma Valid.addBit_total (hv : c.Valid) (hroom : c.total bit < inmMinData) (b : Bool) :
    (c.addBit bit).total b = inmMinData ↔ b = bit ∧ c.Fills bit := by
  by_cases hs : c.Stuck bit
  · rw [hv.addBit_stuck hs, Fills]
    dsimp only
    split_ifs with hb
    · rw [hb]
      exact ⟨fun h => ⟨rfl, hs, h⟩, fun h => h.2.2⟩
    · have hother := hv.total_lt_of_stuck hs
      rw [← Bool.eq_not.mpr hb] at hother
      exact ⟨fun h => absurd h hother.ne, fun h => absurd h.1 hb⟩
  · have hnot : ¬(b = bit ∧ c.Fills bit) := fun h => hs h.2.1
    rw [iff_false_right hnot]
    intro hfull
    have hv' := hv.addBit hroom
    have hzero := (hv'.of_full b hfull).2
    by_cases hwarm : c.sampled ≤ 100
    · rw [hv.addBit_warm hwarm] at hfull
      exact absurd hfull (hv.total_lt_of_le hwarm b).ne
    · have hseq := (hv.addBit_counted (by omega) hs).2.2.1
      rcases Bool.eq_or_eq_not b bit with rfl | rfl
      · omega
      · rw [Bool.not_not] at hzero
        omega

/-- A total at its limit passes it with one more bit. -/
lemma Valid.addBit_full (hv : c.Valid) (hfull : c.total bit = inmMinData) :
    inmMinData < (c.addBit bit).total bit := by
  obtain ⟨hsampled, hzero, -, -⟩ := hv.of_full bit hfull
  have hs : ¬c.Stuck bit := by
    rw [hv.stuck_iff]
    rintro ⟨-, hseq⟩
    rw [hzero] at hseq
    cases hseq
  rw [(hv.addBit_counted hsampled hs).2.2.2.2.1, if_neg (by omega)]
  omega

end Counters

/-! ### A call -/

lemma HealthState.checkStuck_counters (hc : HealthState) (bit : Bool) :
    (hc.checkStuck bit).1 = decide (hc.counters.Stuck bit) ∧
      (hc.checkStuck bit).2.counters = hc.counters.count bit := by
  by_cases hs : 100 < hc.numBitsSampled
  · rw [Counters.count_of_lt hs]
    cases bit
    · simp only [checkStuck, if_pos hs, Bool.false_eq_true, if_false]
      split_ifs with hlong
      · have hstuck : hc.counters.Stuck false := ⟨hs, hlong⟩
        refine ⟨(decide_eq_true hstuck).symm, ?_⟩
        ext b
        · rfl
        · cases b <;> rfl
        · cases b
          · exact (if_neg fun h => h.2 hstuck).symm
          · rfl
      · have hstuck : ¬hc.counters.Stuck false := fun h => hlong h.2
        refine ⟨(decide_eq_false hstuck).symm, ?_⟩
        ext b
        · rfl
        · cases b <;> rfl
        · cases b
          · exact (if_pos ⟨rfl, hstuck⟩).symm
          · rfl
    · simp only [checkStuck, if_pos hs, if_true]
      split_ifs with hlong
      · have hstuck : hc.counters.Stuck true := ⟨hs, hlong⟩
        refine ⟨(decide_eq_true hstuck).symm, ?_⟩
        ext b
        · rfl
        · cases b <;> rfl
        · cases b
          · rfl
          · exact (if_neg fun h => h.2 hstuck).symm
      · have hstuck : ¬hc.counters.Stuck true := fun h => hlong h.2
        refine ⟨(decide_eq_false hstuck).symm, ?_⟩
        ext b
        · rfl
        · cases b <;> rfl
        · cases b
          · rfl
          · exact (if_pos ⟨rfl, hstuck⟩).symm
  · have hwarm : ¬100 < hc.counters.sampled := hs
    have hstuck : ¬hc.counters.Stuck bit := fun h => hs h.1
    rw [checkStuck, if_neg hs, Counters.count, if_neg hwarm, decide_eq_false hstuck]
    exact ⟨rfl, rfl⟩

lemma scaleEntropy_counters (hc : HealthState) :
    (scaleEntropy hc).counters = { hc.counters with
      sampled := if hc.numBitsSampled = inmMinData then hc.numBitsSampled >>> 1
        else hc.numBitsSampled } := by
  rw [scaleEntropy]
  split_ifs <;> rfl

lemma scaleZeroOneCounts_counters (hc : HealthState) :
    (scaleZeroOneCounts hc).counters = { hc.counters with
      total := fun b => if max hc.totalZeros hc.totalOnes = inmMinData then
        hc.counters.total b >>> 1 else hc.counters.total b } := by
  have hmax : (if hc.totalZeros ≥ hc.totalOnes then hc.totalZeros else hc.totalOnes) =
      max hc.totalZeros hc.totalOnes := by
    split_ifs <;> omega
  rw [scaleZeroOneCounts, hmax]
  split_ifs
  · ext b <;> [rfl; cases b <;> rfl; rfl]
  · rfl

lemma HealthState.finishBit_counters (hc : HealthState) (bit even : Bool) :
    (hc.finishBit bit even).counters = hc.counters.finish := by
  obtain ⟨_, _, _, _, htables⟩ := hc.countSample.updateTables_frame bit even
  have hentropy := scaleEntropy_counters (hc.countSample.updateTables bit even)
  obtain ⟨_, _, _, _, hframe⟩ := scaleEntropy_frame (hc.countSample.updateTables bit even)
  rw [finishBit, scaleZeroOneCounts_counters, hentropy, hframe, htables]
  rfl

lemma HealthState.addBit_counters {hc hc' : HealthState} {x : Kernel.Sample} {ok : Bool}
    (hadd : hc.addBit x = some (ok, hc')) : hc'.counters = hc.counters.addBit x.bit := by
  obtain ⟨hverdict, hcount⟩ :=
    (hc.observe x.evenBit x.oddBit x.even).checkStuck_counters x.bit
  have hobserve : (hc.observe x.evenBit x.oddBit x.even).counters = hc.counters := rfl
  rw [hobserve] at hverdict hcount
  rw [Counters.addBit]
  rcases inmHealthCheckAddBit_returned hadd with ⟨-, hstuck, rfl⟩ | ⟨-, hstuck, hc₁, hloop, rfl⟩
  · rw [if_pos (of_decide_eq_true (hverdict.symm.trans hstuck))]
    exact hcount
  · obtain ⟨k, rfl⟩ := doublingLoop_iterate hloop
    rw [if_neg (of_decide_eq_false (hverdict.symm.trans hstuck)), finishBit_counters, ← hcount,
      countBit_iterate, enterLoop, updateProbability_eq]
    rfl

/-! ### Contexts and tables -/

/-- What holds of a checker started with `N = n`, whichever paths its calls take. -/
structure HealthState.InRange (n : ℕ) (hc : HealthState) : Prop where
  n_eq : hc.n = n
  table_lt : ∀ even bit i, hc.table even bit i < inmMaxCount
  prevBits_lt : hc.prevBits < 2 ^ n
  probability : IsProbability hc.currentProbability

lemma inmHealthCheckStart_inRange (log : Float → Float) (memory : HealthState) (k : Float)
    (debug : Bool) {n : ℕ} (hpos : 1 ≤ n) (hle : n ≤ 30) :
    (inmHealthCheckStart log memory n k debug true).2.InRange n := by
  rw [inmHealthCheckStart, if_neg (by omega)]
  refine ⟨rfl, ?_, Nat.two_pow_pos n, 1, isNormal_one, by norm_num, le_rfl⟩
  intro even bit i
  cases even <;> cases bit <;> exact Nat.zero_lt_succ _

namespace HealthState.InRange

variable {n : ℕ} {hc : HealthState}

lemma observe (hrange : hc.InRange n) (hpos : 1 ≤ n) (evenBit oddBit even : Bool) :
    (hc.observe evenBit oddBit even).InRange n where
  n_eq := hrange.n_eq
  table_lt e b i := by
    have := hrange.table_lt e b i
    cases e <;> cases b <;> exact this
  prevBits_lt := by
    have hshifted : u32 (hc.prevBits <<< 1) &&& ((1 <<< hc.n) - 1) < 2 ^ n := by
      apply Nat.and_lt_two_pow
      rw [hrange.n_eq, Nat.one_shiftLeft]
      exact Nat.sub_lt (Nat.two_pow_pos n) Nat.one_pos
    rw [HealthState.observe]
    dsimp only
    split_ifs
    · exact Nat.or_lt_two_pow hshifted (Nat.one_lt_two_pow (by omega))
    · exact hshifted
  probability := hrange.probability

lemma checkStuck (hrange : hc.InRange n) (bit : Bool) : (hc.checkStuck bit).2.InRange n := by
  obtain ⟨_, _, _, _, heq⟩ := hc.checkStuck_eq bit
  rw [heq]
  refine ⟨hrange.n_eq, fun e b i => ?_, hrange.prevBits_lt, hrange.probability⟩
  have := hrange.table_lt e b i
  cases e <;> cases b <;> exact this

lemma finishBit (hrange : hc.InRange n) (bit even : Bool) : (hc.finishBit bit even).InRange n := by
  have htable := hc.finishBit_count bit even (hrange.table_lt even bit _)
  obtain ⟨_, _, _, _, _, _, _, _, _, _, hframe⟩ := hc.finishBit_frame bit even
  rw [hframe] at htable ⊢
  refine ⟨hrange.n_eq, ?_, hrange.prevBits_lt, hrange.probability⟩
  rw [htable]
  apply Tables.count_lt (by decide) hrange.table_lt even bit
  rw [hrange.n_eq, Nat.one_shiftLeft]
  exact hrange.prevBits_lt

/-- A call returns, and leaves contexts and tables in range, whether or not it reports a fault. -/
lemma addBit (hrange : hc.InRange n) (hpos : 1 ≤ n) (x : Kernel.Sample) :
    ∃ r, hc.addBit x = some r ∧ r.2.InRange n := by
  have hchecked := (hrange.observe hpos x.evenBit x.oddBit x.even).checkStuck
    (selectBit x.evenBit x.oddBit x.even)
  simp only [HealthState.addBit, inmHealthCheckAddBit]
  rcases hst : (hc.observe x.evenBit x.oddBit x.even).checkStuck
    (selectBit x.evenBit x.oddBit x.even) with ⟨_ | _, hc₁⟩
  · rw [hst] at hchecked
    have hlow := HealthState.updateProbability_low (selectBit x.evenBit x.oddBit x.even) x.even
      (hchecked.table_lt _ _ _) (hchecked.table_lt _ _ _) hchecked.probability
    obtain ⟨k, -, hloop, hp⟩ := doublingLoop_of_low hlow
    simp only [hloop, Option.map_some]
    refine ⟨_, rfl, finishBit ?_ _ _⟩
    rw [HealthState.countBit_iterate, HealthState.updateProbability_eq] at hp ⊢
    refine ⟨hchecked.n_eq, fun e b i => ?_, hchecked.prevBits_lt, hp⟩
    have := hchecked.table_lt e b i
    cases e <;> cases b <;> exact this
  · rw [hst] at hchecked
    exact ⟨_, rfl, hchecked⟩

end HealthState.InRange

/-! ### Runs -/

/-- The bounds on the statistics at a call boundary. -/
structure HealthState.CountersBounded (hc : HealthState) : Prop where
  table_lt : ∀ even bit i, hc.table even bit i < inmMaxCount
  prevBits_lt : hc.prevBits < 2 ^ hc.n
  numBitsSampled_lt : hc.numBitsSampled < inmMinData
  totalOnes_le : hc.totalOnes ≤ inmMinData
  totalZeros_le : hc.totalZeros ≤ inmMinData

lemma HealthState.InRange.countersBounded_iff {n : ℕ} {hc : HealthState} (hrange : hc.InRange n) :
    hc.CountersBounded ↔
      hc.counters.sampled < inmMinData ∧ ∀ b, hc.counters.total b ≤ inmMinData := by
  rw [Bool.forall_bool]
  constructor
  · intro h
    exact ⟨h.numBitsSampled_lt, h.totalZeros_le, h.totalOnes_le⟩
  · rintro ⟨hsampled, hzeros, hones⟩
    exact ⟨hrange.table_lt, hrange.n_eq ▸ hrange.prevBits_lt, hsampled, hones, hzeros⟩

/-- Call `d` repeats the bit whose run was reported by `c` just when its total reached the limit. -/
def PassesLimit (c d : Call HealthState Kernel.Sample Bool) : Prop :=
  c.before.counters.Fills c.input.bit ∧ d.input.bit = c.input.bit

/-- From counters within their limits, a run keeps them there just if its first call does not repeat
the bit of a total at its limit and no later call does. -/
lemma countersBounded_run {n : ℕ} (hpos : 1 ≤ n) {hc hc' : HealthState}
    {cs : List (Call HealthState Kernel.Sample Bool)} (hrun : Run HealthState.addBit hc cs hc')
    (hrange : hc.InRange n) (hv : hc.counters.Valid) :
    (∀ c ∈ cs, c.after.CountersBounded) ↔
      (∀ c ∈ cs.head?, hc.counters.total c.input.bit ≠ inmMinData) ∧
        cs.IsChain fun c d => ¬PassesLimit c d := by
  induction hrun with
  | nil => simp
  | @cons s s' s'' x ok cs hadd hrun ih =>
    obtain ⟨r, hr, hrange'⟩ := hrange.addBit hpos x
    rw [hadd] at hr
    cases hr
    have hcounters := HealthState.addBit_counters hadd
    rw [List.forall_mem_cons, List.isChain_cons]
    simp only [List.head?_cons, Option.mem_some_iff, forall_eq']
    by_cases hfull : s.counters.total x.bit = inmMinData
    · constructor
      · rintro ⟨hbounded, -⟩
        have hpassed := hv.addBit_full hfull
        have htotal := (hrange'.countersBounded_iff.mp hbounded).2 x.bit
        rw [hcounters] at htotal
        exact absurd htotal (not_le.mpr hpassed)
      · rintro ⟨hne, -⟩
        exact absurd hfull hne
    · have hroom : s.counters.total x.bit < inmMinData := lt_of_le_of_ne (hv.total_le _) hfull
      have hv' := hv.addBit hroom
      rw [← hcounters] at hv'
      have hbounded : s'.CountersBounded :=
        hrange'.countersBounded_iff.mpr ⟨hv'.sampled_lt, hv'.total_le⟩
      have hpasses : ∀ d : Call HealthState Kernel.Sample Bool,
          s'.counters.total d.input.bit ≠ inmMinData ↔ ¬PassesLimit ⟨s, x, ok, s'⟩ d := by
        intro d
        rw [hcounters, ne_eq, hv.addBit_total hroom, PassesLimit, and_comm]
      simp only [hbounded, hfull, ih hrange' hv', hpasses, true_and, ne_eq, not_false_eq_true]

/-- For every number of context bits, on any memory and whatever samples are given to the checker,
all calls return, and after each of them the statistics are within their bounds, just if no report
that leaves a total at `INM_MIN_DATA` is followed by a sample of the same bit. -/
theorem counters_bounded_iff (log : Float → Float) (memory : HealthState) (k : Float)
    (debug : Bool) {n : ℕ} (hpos : 1 ≤ n) (hle : n ≤ 30) (samples : List Kernel.Sample) :
    ∃ cs hc, Run HealthState.addBit (inmHealthCheckStart log memory n k debug true).2 cs hc ∧
      cs.map Call.input = samples ∧
      ((inmHealthCheckStart log memory n k debug true).2.CountersBounded ∧
          (∀ c ∈ cs, c.after.CountersBounded) ↔
        cs.IsChain fun c d => ¬PassesLimit c d) := by
  have hrange := inmHealthCheckStart_inRange log memory k debug hpos hle
  have hcounters : (inmHealthCheckStart log memory n k debug true).2.counters =
      { sampled := 0, total := fun _ => 0, sequential := fun _ => 0 } := by
    rw [inmHealthCheckStart, if_neg (by omega)]
    ext b
    · rfl
    · cases b <;> rfl
    · cases b <;> rfl
  have hv : (inmHealthCheckStart log memory n k debug true).2.counters.Valid := by
    rw [hcounters]
    constructor <;> simp
  have hreturns : ∀ hc x, HealthState.InRange n hc → ∃ r, hc.addBit x = some r ∧ r.2.InRange n :=
    fun _ x h => h.addBit hpos x
  obtain ⟨cs, hc, hrun, hin⟩ := Run.exists_of_total hreturns hrange samples
  refine ⟨cs, hc, hrun, hin, ?_⟩
  have hstart : (inmHealthCheckStart log memory n k debug true).2.CountersBounded :=
    hrange.countersBounded_iff.mpr ⟨hv.sampled_lt, hv.total_le⟩
  have hempty : ∀ c ∈ cs.head?,
      (inmHealthCheckStart log memory n k debug true).2.counters.total c.input.bit ≠ inmMinData := by
    intro c _
    simp [hcounters]
  rw [countersBounded_run hpos hrun hrange hv]
  exact ⟨fun h => h.2.2, fun h => ⟨hstart, hempty, h⟩⟩

/-- Samples in which both comparators follow a shift register. -/
def registerSamples (length : ℕ) : List Kernel.Sample :=
  (List.range length).map fun k => ⟨ShiftRegister.bit k, ShiftRegister.bit k, k % 2 == 1⟩

/-- The totals reach their limit several times. -/
theorem counters_bounded_iff_fourteen :
    ∃ cs hc, Run HealthState.addBit
        (inmHealthCheckStart tableLog blankContext.health predictionBits designK false true).2 cs hc ∧
      cs.map Call.input = registerSamples 400000 ∧
      ((inmHealthCheckStart tableLog blankContext.health predictionBits designK false
          true).2.CountersBounded ∧ (∀ c ∈ cs, c.after.CountersBounded) ↔
        cs.IsChain fun c d => ¬PassesLimit c d) :=
  counters_bounded_iff tableLog blankContext.health designK false (by decide) (by decide) _

/-! ### A run that passes the limit -/

namespace Counters

/-- The counters after a sequence of bits. -/
def feed (c : Counters) (bits : List Bool) : Counters := bits.foldl Counters.addBit c

lemma feed_append (c : Counters) (xs ys : List Bool) : c.feed (xs ++ ys) = (c.feed xs).feed ys :=
  List.foldl_append

lemma feed_replicate_succ (c : Counters) (m : ℕ) (bit : Bool) :
    c.feed (List.replicate (m + 1) bit) = (c.feed (List.replicate m bit)).addBit bit := by
  rw [List.replicate_succ', feed_append]
  rfl

/-- The counters of a checker that has just been started. -/
def zero : Counters := ⟨0, fun _ => 0, fun _ => 0⟩

lemma feed_warm (bit : Bool) {m : ℕ} (hm : m ≤ 101) :
    zero.feed (List.replicate m bit) = { zero with sampled := m } := by
  induction m with
  | zero => rfl
  | succ m ih =>
    have hv : Valid { zero with sampled := m } := by
      constructor <;> simp [zero]
      omega
    rw [feed_replicate_succ, ih (by omega), hv.addBit_warm (by dsimp only; omega)]

/-- While ones arrive and their total is below the limit, every twenty-first of them is reported. -/
lemma Valid.feed_ones {c : Counters} (hv : c.Valid) (hsampled : 100 < c.sampled)
    (hseq : c.sequential true = 0) (hzeros : c.total false < inmMinData) {m : ℕ}
    (hm : c.total true + m < inmMinData) :
    (c.feed (List.replicate m true)).Valid ∧ 100 < (c.feed (List.replicate m true)).sampled ∧
      (c.feed (List.replicate m true)).total true = c.total true + m ∧
      (c.feed (List.replicate m true)).total false = c.total false ∧
      (c.feed (List.replicate m true)).sequential true = m % 21 ∧
      (c.feed (List.replicate m true)).sequential false ≤ c.sequential false := by
  induction m with
  | zero => exact ⟨hv, hsampled, rfl, rfl, hseq, le_rfl⟩
  | succ m ih =>
    obtain ⟨hv', hsampled', hones, hzeros', hrun, hother⟩ := ih (by omega)
    rw [feed_replicate_succ]
    generalize c.feed (List.replicate m true) = c' at *
    refine ⟨hv'.addBit (by omega), ?_⟩
    by_cases hs : c'.Stuck true
    · have hlong := ((hv'.stuck_iff true).mp hs).2
      simp only [inmMaxSequence] at hlong
      rw [hv'.addBit_stuck hs]
      refine ⟨hsampled', ?_, hzeros', ?_, Nat.zero_le _⟩
      · simp only [if_true]
        omega
      · dsimp only
        omega
    · have hshort : c'.sequential true ≠ inmMaxSequence := fun h =>
        hs ((hv'.stuck_iff true).mpr ⟨hsampled', h⟩)
      obtain ⟨hlo, -, hseq', hseq'', htotal, htotal'⟩ := hv'.addBit_counted hsampled' hs
      have hbelow : max (c'.total true + 1) (c'.total (!true)) ≠ inmMinData := by
        have : c'.total (!true) < inmMinData := hzeros'.trans_lt hzeros
        omega
      rw [if_neg hbelow] at htotal htotal'
      simp only [inmMaxSequence] at hshort
      refine ⟨hlo, by omega, htotal'.trans hzeros', by omega, ?_⟩
      exact hseq''.trans_le (Nat.zero_le _)

lemma feed_ones_zero_ones (k m : ℕ) :
    zero.feed (List.replicate (101 + k) true ++ false :: List.replicate (m + 1 + 1) true) =
      ((((({ zero with sampled := 101 } : Counters).feed (List.replicate k true)).addBit
        false).feed (List.replicate m true)).addBit true).addBit true := by
  rw [← feed_replicate_succ, ← feed_replicate_succ, ← feed_warm true le_rfl, ← feed_append,
    List.replicate_append_replicate, feed_append]
  rfl

/-- Eleven ones and a zero shift the reports, so that one of them falls on the limit. -/
lemma feed_past_limit :
    inmMinData < (zero.feed
      (List.replicate 112 true ++ false :: List.replicate 79990 true)).total true := by
  have hwarm : Valid { zero with sampled := 101 } := by
    constructor <;> simp [zero]
  rw [show 112 = 101 + 11 from rfl, show 79990 = 79988 + 1 + 1 from rfl, feed_ones_zero_ones]
  obtain ⟨hv₁, hs₁, hones₁, hzeros₁, -, hrun₁⟩ :=
    hwarm.feed_ones (m := 11) (by decide) rfl (by decide) (by decide)
  generalize ({ zero with sampled := 101 } : Counters).feed (List.replicate 11 true) = c₁ at *
  have hones₁' : c₁.total true = 11 := hones₁
  have hzeros₁' : c₁.total false = 0 := hzeros₁
  have hrun₁' : c₁.sequential false = 0 := Nat.le_zero.mp hrun₁
  -- the zero ends the run of ones
  have hns : ¬c₁.Stuck false := by
    rw [hv₁.stuck_iff, hrun₁']
    rintro ⟨-, h⟩
    cases h
  have hroom₁ : c₁.total false < inmMinData := by
    rw [hzeros₁']
    decide
  have hv₂ := hv₁.addBit hroom₁
  obtain ⟨hs₂, -, -, hrun₂, hzeros₂, hones₂⟩ := hv₁.addBit_counted hs₁ hns
  rw [hzeros₁', if_neg (by rw [Bool.not_false, hones₁']; decide)] at hzeros₂ hones₂
  rw [Bool.not_false, hones₁'] at hones₂
  generalize c₁.addBit false = c₂ at *
  obtain ⟨hv₃, hs₃, hones₃, -, hrun₃, -⟩ :=
    hv₂.feed_ones (m := 79988) hs₂ hrun₂ (by rw [hzeros₂]; decide) (by rw [hones₂]; decide)
  rw [hones₂] at hones₃
  generalize c₂.feed (List.replicate 79988 true) = c₃ at *
  -- the report of the last one of these runs returns before the scaling
  have hfills : c₃.Fills true := by
    refine ⟨(hv₃.stuck_iff true).mpr ⟨hs₃, hrun₃⟩, ?_⟩
    rw [hones₃]
    rfl
  have hroom : c₃.total true < inmMinData := by
    rw [hones₃]
    decide
  exact (hv₃.addBit hroom).addBit_full ((hv₃.addBit_total hroom true).mpr ⟨rfl, hfills⟩)

end Counters

lemma counters_run {hc hc' : HealthState} {cs : List (Call HealthState Kernel.Sample Bool)}
    (hrun : Run HealthState.addBit hc cs hc') :
    hc'.counters = hc.counters.feed ((cs.map Call.input).map Kernel.Sample.bit) := by
  induction hrun with
  | nil => rfl
  | cons hadd _ ih =>
    rw [ih, HealthState.addBit_counters hadd]
    rfl

/-- Ones with a single zero among them take `totalOnes` past `INM_MIN_DATA`. -/
theorem totalOnes_passes_limit :
    ∃ cs hc, Run HealthState.addBit
        (inmHealthCheckStart tableLog blankContext.health predictionBits designK false true).2 cs hc ∧
      cs.map Call.input = List.replicate 112 ⟨true, true, false⟩ ++
        ⟨false, false, false⟩ :: List.replicate 79990 ⟨true, true, false⟩ ∧
      inmMinData < hc.totalOnes := by
  have hreturns : ∀ hc x, HealthState.InRange predictionBits hc →
      ∃ r, hc.addBit x = some r ∧ r.2.InRange predictionBits :=
    fun _ x h => h.addBit (by decide) x
  obtain ⟨cs, hc, hrun, hin⟩ := Run.exists_of_total hreturns
    (inmHealthCheckStart_inRange tableLog blankContext.health designK false (by decide) (by decide))
    (List.replicate 112 ⟨true, true, false⟩ ++
      ⟨false, false, false⟩ :: List.replicate 79990 ⟨true, true, false⟩)
  refine ⟨cs, hc, hrun, hin, ?_⟩
  have hstart : (inmHealthCheckStart tableLog blankContext.health predictionBits designK false
      true).2.counters = Counters.zero := by
    ext b
    · rfl
    · cases b <;> rfl
    · cases b <;> rfl
  have hone : Kernel.Sample.bit ⟨true, true, false⟩ = true := rfl
  have hzero : Kernel.Sample.bit ⟨false, false, false⟩ = false := rfl
  have hpassed := Counters.feed_past_limit
  have hcounters := counters_run hrun
  rw [hstart, hin, List.map_append, List.map_replicate, List.map_cons, List.map_replicate, hone,
    hzero] at hcounters
  rw [← hcounters] at hpassed
  exact hpassed

end Userspace
