import Infnoise.Kernel.HealthInvariant

/-!
# Calls of the kernel health checker

A call of `infnoise_health_add_bit` from a state that satisfies the invariant returns, leaves
the invariant, and loses no bit of its fixed-point results. By the invariant rule this holds of
every sequence of calls from `infnoise_health_init`.
-/

namespace Kernel

open Core

/-- The state in which the doubling loop is entered has the invariant but for its probability,
which may have fallen to `2 / 65536`. -/
lemma Health.enterLoop_bounds {h : Health} (hinv : h.Inv) (evenBit oddBit even : Bool) :
    (∀ e b i, (h.enterLoop evenBit oddBit even).table e b i < inmMaxCount) ∧
      (h.enterLoop evenBit oddBit even).prevBits < inmTableSize ∧
      (h.enterLoop evenBit oddBit even).numBitsSampled < inmMinData ∧
      (h.enterLoop evenBit oddBit even).numBitsOfEntropy
        ≤ 15 * (h.enterLoop evenBit oddBit even).numBitsSampled ∧
      2 ≤ (h.enterLoop evenBit oddBit even).currentProb ∧
      (h.enterLoop evenBit oddBit even).currentProb ≤ fpOne := by
  have hs := Health.checkStuck_inv (Health.observe_inv hinv evenBit oddBit even)
    (selectBit evenBit oddBit even)
  obtain ⟨hlo, hhi⟩ := Health.updateProb_bounds hs (selectBit evenBit oddBit even) even
  refine ⟨?_, ?_, ?_, ?_, hlo, hhi⟩
  · intro e b i
    have := hs.table_lt e b i
    rw [enterLoop, updateProb_eq]
    cases e <;> cases b <;> exact this
  · rw [enterLoop, updateProb_eq]
    exact hs.prevBits_lt
  · rw [enterLoop, updateProb_eq]
    exact hs.numBitsSampled_lt
  · rw [enterLoop, updateProb_eq]
    exact hs.numBitsOfEntropy_le

/-- A call that returns has reported a stuck source, or it has come out of the doubling loop. -/
lemma infnoiseHealthAddBit_returned {h h' : Health} {evenBit oddBit even ok : Bool}
    (hadd : infnoiseHealthAddBit h evenBit oddBit even = some (ok, h')) :
    (ok = false ∧
      ((h.observe evenBit oddBit even).checkStuck (selectBit evenBit oddBit even)).1 = true ∧
      h' = ((h.observe evenBit oddBit even).checkStuck (selectBit evenBit oddBit even)).2) ∨
    (ok = true ∧
      ((h.observe evenBit oddBit even).checkStuck (selectBit evenBit oddBit even)).1 = false ∧
      ∃ h₁, doublingLoop doublingFuel (h.enterLoop evenBit oddBit even) = some h₁ ∧
        h' = h₁.finishBit (selectBit evenBit oddBit even) even) := by
  rw [Health.enterLoop]
  simp only [infnoiseHealthAddBit] at hadd
  rcases hst : (h.observe evenBit oddBit even).checkStuck (selectBit evenBit oddBit even)
    with ⟨_ | _, h₁⟩ <;> rw [hst] at hadd
  · obtain ⟨h₂, hloop, heq⟩ := Option.map_eq_some_iff.mp hadd
    cases heq
    exact .inr ⟨rfl, rfl, h₂, hloop, rfl⟩
  · cases hadd
    exact .inl ⟨rfl, rfl, rfl⟩

/-- What a call does: it reports a stuck source and stops there, or it goes through the doubling
loop, in at most 15 rounds, and finishes. -/
theorem infnoiseHealthAddBit_cases {h : Health} (hinv : h.Inv) (evenBit oddBit even : Bool) :
    (((h.observe evenBit oddBit even).checkStuck (selectBit evenBit oddBit even)).1 = true ∧
      infnoiseHealthAddBit h evenBit oddBit even =
        some (false,
          ((h.observe evenBit oddBit even).checkStuck (selectBit evenBit oddBit even)).2)) ∨
    (((h.observe evenBit oddBit even).checkStuck (selectBit evenBit oddBit even)).1 = false ∧
      ∃ k ≤ 15, doublingLoop 15 (h.enterLoop evenBit oddBit even) =
          some (Health.countBit^[k] (h.enterLoop evenBit oddBit even)) ∧
        infnoiseHealthAddBit h evenBit oddBit even =
          some (true, (Health.countBit^[k] (h.enterLoop evenBit oddBit even)).finishBit
            (selectBit evenBit oddBit even) even) ∧
        ((Health.countBit^[k] (h.enterLoop evenBit oddBit even)).finishBit
            (selectBit evenBit oddBit even) even).Inv) := by
  obtain ⟨htab, hprev, hsam, hent, hlo, hhi⟩ := Health.enterLoop_bounds hinv evenBit oddBit even
  obtain ⟨k, hk, hloop, hgt, hle⟩ := doublingLoop_spec hlo hhi
  rcases hst : (h.observe evenBit oddBit even).checkStuck (selectBit evenBit oddBit even)
    with ⟨_ | _, h₁⟩
  · right
    refine ⟨rfl, k, hk, hloop 15 le_rfl, ?_, ?_⟩
    · have := hloop doublingFuel (by decide)
      simp only [Health.enterLoop, hst] at this
      simp only [infnoiseHealthAddBit, hst, this, Health.enterLoop, Option.map_some]
    · have hent' := (h.enterLoop evenBit oddBit even).countBit_iterate_entropy k
        (by simp only [inmMinData] at hsam; omega)
      have hit := (h.enterLoop evenBit oddBit even).countBit_iterate k
      apply Health.finishBit_inv
      · intro e b i
        have := htab e b i
        rw [hit]
        cases e <;> cases b <;> exact this
      · rw [hit]; exact hprev
      · rw [hit]; exact hsam
      · exact hgt
      · exact hle
      · rw [hent']
        have : (Health.countBit^[k] (h.enterLoop evenBit oddBit even)).numBitsSampled
            = (h.enterLoop evenBit oddBit even).numBitsSampled := by rw [hit]
        omega
  · left
    refine ⟨rfl, ?_⟩
    simp only [infnoiseHealthAddBit, hst]

/-- A call returns, and leaves the invariant, whether or not it reports a fault. -/
lemma infnoiseHealthAddBit_returns {h : Health} (hinv : h.Inv) (evenBit oddBit even : Bool) :
    ∃ r, infnoiseHealthAddBit h evenBit oddBit even = some r ∧ r.2.Inv := by
  rcases infnoiseHealthAddBit_cases hinv evenBit oddBit even with
    ⟨_, heq⟩ | ⟨_, k, _, _, heq, hinv'⟩
  · exact ⟨_, heq, Health.checkStuck_inv (Health.observe_inv hinv evenBit oddBit even) _⟩
  · exact ⟨_, heq, hinv'⟩

/-! ### Sequences of calls -/

/-- A call made on the checker. -/
inductive HealthCall where
  | addBit (evenBit oddBit even : Bool)
  | clearEntropy
  | reset

/-- One call: the value returned (`true` where the function returns none) and the state left. -/
def healthStep (h : Health) : HealthCall → Option (Bool × Health)
  | .addBit evenBit oddBit even => infnoiseHealthAddBit h evenBit oddBit even
  | .clearEntropy => some (true, infnoiseHealthClearEntropy h)
  | .reset => some (true, infnoiseHealthReset h)

lemma healthStep_returns {h : Health} (hinv : h.Inv) (call : HealthCall) :
    ∃ r, healthStep h call = some r ∧ r.2.Inv := by
  cases call with
  | addBit evenBit oddBit even => exact infnoiseHealthAddBit_returns hinv evenBit oddBit even
  | clearEntropy => exact ⟨_, rfl, infnoiseHealthClearEntropy_inv hinv⟩
  | reset => exact ⟨_, rfl, infnoiseHealthReset_inv hinv⟩

/-- What a call of `infnoise_health_add_bit` is given. -/
structure Sample where
  evenBit : Bool
  oddBit : Bool
  even : Bool

/-- The machine of the calls of `infnoise_health_add_bit` alone. -/
def Health.addBit (h : Health) (x : Sample) : Option (Bool × Health) :=
  infnoiseHealthAddBit h x.evenBit x.oddBit x.even

lemma Health.addBit_returns {h : Health} (hinv : h.Inv) (x : Sample) :
    ∃ r, h.addBit x = some r ∧ r.2.Inv :=
  infnoiseHealthAddBit_returns hinv x.evenBit x.oddBit x.even

/-- What holds inside a call made from `h`: the doubling loop is entered with a non-zero
probability and ends within 15 doublings, and every fixed-point result of the call (the
frequency, the product, each doubling, and the estimates of the verdict) fits in 32 bits. -/
structure Health.CallSafe (h : Health) (evenBit oddBit even : Bool) : Prop where
  prob_ne_zero : (h.enterLoop evenBit oddBit even).currentProb ≠ 0
  loop_ends : (doublingLoop 15 (h.enterLoop evenBit oddBit even)).isSome
  total_exact : ∀ i, h.table even true i + h.table even false i < 4294967296
  div_exact : ∀ i bit, FpDivExact (h.table even bit i) (h.table even true i + h.table even false i)
  mul_exact : ∀ i bit, FpMulExact h.currentProb
    (fpDiv (h.table even bit i) (h.table even true i + h.table even false i))
  shift_exact : ∀ k, (Health.countBit^[k] (h.enterLoop evenBit oddBit even)).currentProb ≤ fpHalf →
    (Health.countBit^[k] (h.enterLoop evenBit oddBit even)).currentProb <<< 1 < 4294967296

/-- The fixed-point results of `infnoise_health_ok` fit in 32 bits. -/
def Health.VerdictExact (h : Health) : Prop :=
  FpDivExact h.numBitsOfEntropy h.numBitsSampled ∧
    FpDivExact inmExpectedEntropyFp inmAccuracyFp ∧ FpMulExact inmExpectedEntropyFp inmAccuracyFp

lemma Health.callSafe_of_inv {h : Health} (hinv : h.Inv) (evenBit oddBit even : Bool) :
    h.CallSafe evenBit oddBit even := by
  obtain ⟨_, _, _, _, hlo, hhi⟩ := Health.enterLoop_bounds hinv evenBit oddBit even
  obtain ⟨k, _, hloop, _, _⟩ := doublingLoop_spec hlo hhi
  have htab : ∀ bit i, h.table even bit i < 16384 := hinv.table_lt even
  have hdiv : ∀ i bit, FpDivExact (h.table even bit i)
      (h.table even true i + h.table even false i) := fun i bit =>
    fpDivExact_of_le (c := 1) ((htab bit i).trans (by norm_num))
      (by cases bit <;> omega) (by norm_num)
  exact
    { prob_ne_zero := by omega
      loop_ends := by rw [hloop 15 le_rfl]; rfl
      total_exact := fun i => by
        have := htab true i
        have := htab false i
        omega
      div_exact := hdiv
      mul_exact := fun i bit => by
        apply fpMulExact_of_le hinv.currentProb_le
        by_cases hzero : h.table even true i + h.table even false i = 0
        · simp [fpDiv, hzero]
        · rw [fpDiv_eq hzero (hdiv i bit), fpOne]
          exact Nat.div_le_of_le_mul (by cases bit <;> omega)
      shift_exact := fun k hk => by
        simp only [fpHalf, Nat.shiftLeft_eq] at hk ⊢
        omega }

lemma Health.verdictExact_of_inv {h : Health} (hinv : h.Inv) : h.VerdictExact := by
  have hs := hinv.numBitsSampled_lt
  have he := hinv.numBitsOfEntropy_le
  simp only [inmMinData] at hs
  refine ⟨fpDivExact_of_le (by omega) he (by norm_num), ?_, ?_⟩
  · simp [FpDivExact]
  · simp [FpMulExact]

/-- Every sequence of calls from `infnoise_health_init` runs to its end. At each call boundary
the invariant holds, and inside each call the doubling loop ends and no fixed-point result is
cut. -/
theorem health_calls_safe (calls : List HealthCall) :
    ∃ cs h, Run healthStep infnoiseHealthInit cs h ∧ cs.map Call.input = calls ∧
      (h.Inv ∧ h.VerdictExact ∧ ∀ evenBit oddBit even, h.CallSafe evenBit oddBit even) ∧
      ∀ c ∈ cs, c.before.Inv ∧ c.before.VerdictExact ∧
        ∀ evenBit oddBit even, c.before.CallSafe evenBit oddBit even := by
  obtain ⟨cs, h, hcs, hin⟩ := Run.exists_of_total (I := Health.Inv)
    (fun _ call hs => healthStep_returns hs call) infnoiseHealthInit_inv calls
  have hstep : ∀ s i o s', healthStep s i = some (o, s') → s.Inv → s'.Inv := by
    intro s i o s' hstep hs
    obtain ⟨r, hr, hinv⟩ := healthStep_returns hs i
    rw [hstep] at hr
    cases hr
    exact hinv
  obtain ⟨hall, hend⟩ := hcs.invariant hstep infnoiseHealthInit_inv
  exact ⟨cs, h, hcs, hin,
    ⟨hend, Health.verdictExact_of_inv hend, Health.callSafe_of_inv hend⟩,
    fun c hc => ⟨(hall c hc).1, Health.verdictExact_of_inv (hall c hc).1,
      Health.callSafe_of_inv (hall c hc).1⟩⟩

end Kernel
