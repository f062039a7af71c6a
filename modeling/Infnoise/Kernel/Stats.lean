import Infnoise.Kernel.Calls
import Infnoise.Kernel.Delivery
import Infnoise.Kernel.Progress

/-!
# Statistics

`INFNOISE_GET_STATS` copies the state of the health checker out while the device is in use. Between
two states of the driver the checker takes samples, at most three blocks of them in a step, and is
cleared; `infnoise_health_reset` is never called. What holds of the checker after any samples holds
of every copy.
-/

namespace Kernel

open Core

attribute [local irreducible] infnoiseKeccakPermutation infnoiseKeccakAbsorb

/-! ### What the driver does to the health checker -/

/-- From one state to another the checker takes `n` samples, and is cleared any number of times. -/
inductive Health.Takes (h : Health) : ℕ → Health → Prop where
  | refl : h.Takes 0 h
  | clear {n : ℕ} {h' : Health} (ht : h.Takes n h') : h.Takes n (infnoiseHealthClearEntropy h')
  | sample {n : ℕ} {h' h'' : Health} {x : Sample} {ok : Bool} (ht : h.Takes n h')
      (hadd : h'.addBit x = some (ok, h'')) : h.Takes (n + 1) h''

/-- At most so many samples. -/
def Health.TakesUpTo (h : Health) (n : ℕ) (h' : Health) : Prop := ∃ k ≤ n, h.Takes k h'

lemma Health.Takes.trans {h h' h'' : Health} {m n : ℕ} (ht : h.Takes m h') (ht' : h'.Takes n h'') :
    h.Takes (m + n) h'' := by
  induction ht' with
  | refl => exact ht
  | clear _ ih => exact .clear ih
  | sample _ hadd ih => exact .sample ih hadd

lemma Health.TakesUpTo.refl (h : Health) (n : ℕ) : h.TakesUpTo n h := ⟨0, Nat.zero_le n, .refl⟩

lemma Health.TakesUpTo.trans {h h' h'' : Health} {m n : ℕ} (ht : h.TakesUpTo m h')
    (ht' : h'.TakesUpTo n h'') : h.TakesUpTo (m + n) h'' := by
  obtain ⟨j, hj, ht⟩ := ht
  obtain ⟨k, hk, ht'⟩ := ht'
  exact ⟨j + k, Nat.add_le_add hj hk, ht.trans ht'⟩

lemma Health.TakesUpTo.mono {h h' : Health} {m n : ℕ} (ht : h.TakesUpTo m h') (hmn : m ≤ n) :
    h.TakesUpTo n h' := by
  obtain ⟨k, hk, ht⟩ := ht
  exact ⟨k, hk.trans hmn, ht⟩

section

variable {dev dev' : Device}

lemma extractBit_takes {inBuf : ℕ → Byte} {i j : ℕ} {s s' : Byte × Health} {ok : Bool}
    (h : extractBit inBuf i j s = some (ok, s')) : s.2.TakesUpTo 1 s'.2 := by
  rw [extractBit, Option.map_eq_some_iff] at h
  obtain ⟨⟨ok', health⟩, hadd, heq⟩ := h
  cases heq
  exact ⟨1, le_rfl, .sample (x := ⟨_, _, _⟩) .refl hadd⟩

/-- A loop whose rounds take `m` samples at most. -/
lemma forWhile_takes {σ : Type*} {n m : ℕ} {body : ℕ → σ → Option (Bool × σ)} {s s' : σ} {b : Bool}
    (health : σ → Health)
    (hbody : ∀ i t t' b, body i t = some (b, t') → (health t).TakesUpTo m (health t'))
    (h : forWhile n body s = some (b, s')) : (health s).TakesUpTo (n * m) (health s') := by
  have hloop := forWhile_invariant (fun i t => (health s).TakesUpTo (i * m) (health t))
    (fun t => (health s).TakesUpTo (n * m) (health t)) (.refl _ _)
    (fun i _ t t' ht hround => by
      rw [Nat.succ_mul]
      exact ht.trans (hbody i t t' true hround))
    (fun i hi t t' ht hround => by
      have hround' := ht.trans (hbody i t t' false hround)
      rw [← Nat.succ_mul] at hround'
      exact hround'.mono (Nat.mul_le_mul_right m hi)) h
  cases b
  · exact hloop.2 rfl
  · exact hloop.1 rfl

lemma extractByte_takes {inBuf : ℕ → Byte} {i : ℕ} {s s' : (ℕ → Byte) × Health} {ok : Bool}
    (h : extractByte inBuf i s = some (ok, s')) : s.2.TakesUpTo 8 s'.2 := by
  rw [extractByte, Option.map_eq_some_iff] at h
  obtain ⟨⟨ok', byte, health⟩, hloop, heq⟩ := h
  cases heq
  exact forWhile_takes (m := 1) Prod.snd (fun _ _ _ _ => extractBit_takes) hloop

lemma infnoiseExtractBytes_takes {length : ℕ} {inBuf : ℕ → Byte} {ret : Except Errno ℕ}
    (h : infnoiseExtractBytes dev length inBuf = some (ret, dev')) :
    dev.health.TakesUpTo (length * 8) dev'.health := by
  rw [infnoiseExtractBytes, Option.map_eq_some_iff] at h
  obtain ⟨⟨ok, outBuf, health⟩, hloop, heq⟩ := h
  have htakes : (infnoiseHealthClearEntropy dev.health).TakesUpTo (length * 8) health :=
    forWhile_takes (m := 8) Prod.snd (fun _ _ _ _ => extractByte_takes) hloop
  have hclear : dev.health.TakesUpTo 0 (infnoiseHealthClearEntropy dev.health) :=
    ⟨0, le_rfl, .clear .refl⟩
  have hboth := hclear.trans htakes
  rw [Nat.zero_add] at hboth
  cases ok <;> cases heq <;> exact hboth

lemma infnoiseUsbTransferOnce_takes {script : AttemptScript} {ret : Except Errno ℕ}
    (h : infnoiseUsbTransferOnce dev script = some (ret, dev')) :
    dev.health.TakesUpTo 512 dev'.health := by
  rw [infnoiseUsbTransferOnce] at h
  split at h
  · cases h
    exact .refl _ _
  · exact infnoiseExtractBytes_takes h

lemma transferLoop_takes {scripts : ℕ → AttemptScript} {retries : ℕ} {last ret : Except Errno ℕ}
    (h : transferLoop scripts retries last dev = some (ret, dev')) :
    dev.health.TakesUpTo (512 * retries) dev'.health := by
  induction retries generalizing last dev with
  | zero =>
    cases h
    exact .refl _ _
  | succ retries ih =>
    simp only [transferLoop] at h
    rcases honce : infnoiseUsbTransferOnce dev
      (scripts (infnoiseMaxRetries - (retries + 1))) with _ | ⟨ret₁, dev₁⟩
    · rw [honce] at h
      cases h
    · rw [honce] at h
      have htakes := infnoiseUsbTransferOnce_takes honce
      obtain ⟨_, _, hhealth, _⟩ := afterAttempt_cases dev₁
        (scripts (infnoiseMaxRetries - (retries + 1))) ret₁
      rcases hafter : afterAttempt dev₁ (scripts (infnoiseMaxRetries - (retries + 1))) ret₁
        with ⟨_ | ret₂, dev₂⟩
      · simp only [hafter] at h hhealth
        rw [← hhealth] at htakes
        rw [Nat.mul_succ, Nat.add_comm]
        exact htakes.trans (ih h)
      · simp only [hafter] at h hhealth
        cases h
        rw [← hhealth] at htakes
        exact htakes.mono (by omega)

/-- A call of `infnoise_read_data` takes three blocks of samples at most. -/
lemma infnoiseReadData_takes {multiplier : ℕ} {scripts : ℕ → AttemptScript} {result : ℕ → Byte}
    {maxLen : ℕ} {raw : Bool} {r : ReadResult}
    (h : infnoiseReadData dev multiplier scripts result maxLen raw = some r) :
    dev.health.TakesUpTo 1536 r.dev.health := by
  cases infnoiseReadData_step h with
  | absent => exact .refl _ _
  | squeezed =>
    rw [squeezeLeft_dev]
    exact .refl _ _
  | failed _ htransfer | rejected _ htransfer | rawBlock _ htransfer =>
    exact transferLoop_takes htransfer
  | absorbed _ htransfer =>
    rw [absorbAndSqueeze_dev, squeezeLeft_dev]
    exact transferLoop_takes htransfer

end

lemma step_takes {d d' : Driver} {a : Action} {o : Output} (h : d.step a = some (o, d')) :
    d.dev.health.TakesUpTo 1536 d'.dev.health := by
  cases a with
  | warmup =>
    cases (warmupStep_cases h).2 with
    | reads _ _ _ hread => exact infnoiseReadData_takes hread
    | locks | stops | gone | fails | succeeds | completes => exact .refl _ _
  | step =>
    cases taskStep_cases h with
    | moved hdev =>
      rw [hdev]
      exact .refl _ _
    | read hread => exact infnoiseReadData_takes hread
  | hwrngRead | charRead | ioctlGet | ioctlSetRaw | setParameters =>
    cases driverStep_cases h
    exact .refl _ _

/-! ### The counters -/

section

variable {h h' : Health} {x : Sample}

/-- The recording and the stuck-at check count a sample once, and leave the estimate. -/
lemma Health.check_counts (h : Health) (x : Sample) :
    (h.check x).2.totalBits = u64 (h.totalBits + 1) ∧
      (h.check x).2.totalOnes + (h.check x).2.totalZeros ≤ h.totalOnes + h.totalZeros + 1 ∧
      (h.check x).2.evenMisfires + (h.check x).2.oddMisfires ≤
        h.evenMisfires + h.oddMisfires + 1 ∧
      (h.check x).2.okToUse = h.okToUse ∧
      infnoiseHealthEstimateEntropyPerBit (h.check x).2 = infnoiseHealthEstimateEntropyPerBit h := by
  have hmisfires : (h.observe x.evenBit x.oddBit x.even).evenMisfires +
      (h.observe x.evenBit x.oddBit x.even).oddMisfires ≤ h.evenMisfires + h.oddMisfires + 1 := by
    have heven := u32_le (h.evenMisfires + 1)
    have hodd := u32_le (h.oddMisfires + 1)
    cases hphase : x.even <;> simp only [observe, Bool.not_true, Bool.not_false, Bool.false_and,
      Bool.true_and, Bool.false_eq_true, if_false] <;> split_ifs <;> omega
  have htotals : (h.check x).2.totalOnes + (h.check x).2.totalZeros ≤
      h.totalOnes + h.totalZeros + 1 := by
    have hones := u32_le (h.totalOnes + 1)
    have hzeros := u32_le (h.totalZeros + 1)
    simp only [check, checkStuck]
    split_ifs <;> simp only [observe] <;> omega
  obtain ⟨_, _, _, _, hcheck⟩ := h.check_eq x
  refine ⟨?_, htotals, ?_, ?_, ?_⟩
  · rw [hcheck]
    rfl
  · rw [hcheck]
    exact hmisfires
  · rw [hcheck]
    rfl
  · rw [hcheck]
    rfl

/-- What follows the check halves counters or leaves them. -/
lemma Health.Passed.counts (hp : h.Passed x h') :
    h'.totalOnes ≤ (h.check x).2.totalOnes ∧ h'.totalZeros ≤ (h.check x).2.totalZeros ∧
      h'.evenMisfires ≤ (h.check x).2.evenMisfires ∧
      h'.oddMisfires ≤ (h.check x).2.oddMisfires := by
  obtain ⟨e, hupdate⟩ : ∃ e, Health.countBit^[h.bitsCounted x]
      ((h.check x).2.updateProb x.bit x.even) = e := ⟨_, rfl⟩
  have hloop : e.totalOnes = (h.check x).2.totalOnes ∧ e.totalZeros = (h.check x).2.totalZeros ∧
      e.evenMisfires = (h.check x).2.evenMisfires ∧
      e.oddMisfires = (h.check x).2.oddMisfires := by
    rw [← hupdate, Health.countBit_iterate, Health.updateProb_eq]
    exact ⟨rfl, rfl, rfl, rfl⟩
  obtain ⟨oe, ze, oo, zo, htables⟩ := e.countSample.updateTables_frame x.bit x.even
  obtain ⟨hones, hzeros, heven, hodd⟩ := hloop
  rw [hp.eq_finishBit, hupdate, Health.finishBit, htables]
  simp only [Health.updateStatus, scaleZeroOneCounts, scaleEntropy, Health.countSample,
    Nat.shiftRight_eq_div_pow]
  refine ⟨?_, ?_, ?_, ?_⟩ <;> split_ifs <;> dsimp only <;> omega

/-- The counters that are stored in 32 bits fit. -/
structure Health.Words (h : Health) : Prop where
  totalOnes_lt : h.totalOnes < 4294967296
  totalZeros_lt : h.totalZeros < 4294967296
  evenMisfires_lt : h.evenMisfires < 4294967296
  oddMisfires_lt : h.oddMisfires < 4294967296

lemma Health.Words.observe (hw : h.Words) (evenBit oddBit even : Bool) :
    (h.observe evenBit oddBit even).Words := by
  refine ⟨hw.totalOnes_lt, hw.totalZeros_lt, ?_, ?_⟩
  · rw [Health.observe]
    dsimp only
    split_ifs
    · exact u32_lt _
    · exact hw.evenMisfires_lt
  · rw [Health.observe]
    dsimp only
    split_ifs
    · exact u32_lt _
    · exact hw.oddMisfires_lt

lemma Health.Words.check (hw : h.Words) (x : Sample) : (h.check x).2.Words := by
  have hobserve := hw.observe x.evenBit x.oddBit x.even
  rw [Health.check, checkStuck]
  split_ifs
  · exact ⟨u32_lt _, hobserve.2, hobserve.3, hobserve.4⟩
  · exact ⟨hobserve.1, u32_lt _, hobserve.3, hobserve.4⟩
  · exact hobserve

lemma Health.Words.passed (hw : h.Words) (hp : h.Passed x h') : h'.Words := by
  obtain ⟨hones, hzeros, heven, hodd⟩ := hp.counts
  have hcheck := hw.check x
  exact ⟨hones.trans_lt hcheck.totalOnes_lt, hzeros.trans_lt hcheck.totalZeros_lt,
    heven.trans_lt hcheck.evenMisfires_lt, hodd.trans_lt hcheck.oddMisfires_lt⟩

/-- An estimate near to the one that is expected. -/
def EntropyInRange (entropy : ℕ) : Prop :=
  fpDiv inmExpectedEntropyFp inmAccuracyFp ≤ entropy ∧
    entropy ≤ fpMul inmExpectedEntropyFp inmAccuracyFp

lemma infnoiseHealthOk_iff (h : Health) : infnoiseHealthOk h = true ↔
    inmMinData ≤ h.totalBits ∧ EntropyInRange (infnoiseHealthEstimateEntropyPerBit h) := by
  rw [infnoiseHealthOk]
  split_ifs with hbits
  · simp only [false_iff, not_and]
    omega
  · simp only [Bool.and_eq_true, decide_eq_true_eq, ge_iff_le]
    exact (and_iff_right (not_lt.mp hbits)).symm

/-- What holds of the checker after `n` samples. -/
structure Health.Counted (n : ℕ) (h : Health) : Prop where
  inv : h.Inv
  words : h.Words
  totalBits_eq : h.totalBits = u64 n
  totals_le : h.totalOnes + h.totalZeros ≤ n
  misfires_le : h.evenMisfires + h.oddMisfires ≤ n
  verdict : h.okToUse = true →
    inmMinData ≤ n ∧ EntropyInRange (infnoiseHealthEstimateEntropyPerBit h)

lemma infnoiseHealthInit_counted : infnoiseHealthInit.Counted 0 where
  inv := infnoiseHealthInit_inv
  words := by constructor <;> decide
  totalBits_eq := rfl
  totals_le := le_rfl
  misfires_le := le_rfl
  verdict := fun hok => by cases hok

/-- One more sample, whether or not it is good. -/
lemma Health.Counted.sample {n : ℕ} {ok : Bool} (hc : h.Counted n)
    (hadd : h.addBit x = some (ok, h')) : h'.Counted (n + 1) := by
  obtain ⟨⟨ok', h''⟩, hreturns, hinv⟩ := Health.addBit_returns hc.inv x
  obtain ⟨_, rfl⟩ := Prod.mk.inj (Option.some.inj (hadd.symm.trans hreturns))
  obtain ⟨hbits, htotals, hmisfires, hok, hestimate⟩ := h.check_counts x
  have htotals_le := hc.totals_le
  have hmisfires_le := hc.misfires_le
  have hsucc : u64 (h.totalBits + 1) = u64 (n + 1) := by
    rw [hc.totalBits_eq, u64, u64, u64, Nat.mod_add_mod]
  rcases Health.addBit_outcome hc.inv hadd with ⟨_, _, rfl⟩ | ⟨_, hp⟩
  · refine ⟨hinv, hc.words.check x, hbits.trans hsucc, by omega, by omega, fun huse => ?_⟩
    rw [hok] at huse
    obtain ⟨hmin, hrange⟩ := hc.verdict huse
    rw [hestimate]
    exact ⟨by omega, hrange⟩
  · obtain ⟨hones, hzeros, heven, hodd⟩ := hp.counts
    obtain ⟨hbits', hverdict⟩ := hp.verdict hc.inv
    refine ⟨hinv, hc.words.passed hp, hbits'.trans hsucc, by omega, by omega, fun huse => ?_⟩
    rw [hverdict, infnoiseHealthOk_iff, hbits', hsucc] at huse
    exact ⟨huse.1.trans (u64_le _), huse.2⟩

lemma Health.Counted.takes {m n : ℕ} (hc : h.Counted m) (ht : h.Takes n h') :
    h'.Counted (m + n) := by
  induction ht with
  | refl => exact hc
  | clear _ ih =>
    exact ⟨infnoiseHealthClearEntropy_inv ih.inv, ⟨ih.words.1, ih.words.2, ih.words.3, ih.words.4⟩,
      ih.totalBits_eq, ih.totals_le, ih.misfires_le, ih.verdict⟩
  | sample _ hadd ih => exact ih.sample hadd

end

/-! ### Snapshots -/

@[simp] def inmDesignKFp : ℕ := 120586

/-- `infnoise_health_estimate_k`. -/
def infnoiseHealthEstimateK (h : Health) : ℕ :=
  u32 (fpOne + fpMul (infnoiseHealthEstimateEntropyPerBit h) 62806)

/-- `struct infnoise_stats`, without its padding. -/
structure InfnoiseStats where
  totalBits : ℕ
  totalOnes : ℕ
  totalZeros : ℕ
  evenMisfires : ℕ
  oddMisfires : ℕ
  entropyEstimate : ℕ
  kEstimate : ℕ
  warmupComplete : Bool
  healthOk : Bool

/-- The sizes of the members, and what is stored in them. -/
def InfnoiseStats.members (stats : InfnoiseStats) : List (ℕ × ℕ) :=
  [(8, stats.totalBits), (4, stats.totalOnes), (4, stats.totalZeros), (4, stats.evenMisfires),
    (4, stats.oddMisfires), (4, stats.entropyEstimate), (4, stats.kEstimate),
    (1, stats.warmupComplete.toNat), (1, stats.healthOk.toNat)]

/-- `infnoise_health_get_stats`. -/
def infnoiseHealthGetStats (h : Health) : InfnoiseStats where
  totalBits := h.totalBits
  totalOnes := h.totalOnes
  totalZeros := h.totalZeros
  evenMisfires := h.evenMisfires
  oddMisfires := h.oddMisfires
  entropyEstimate := infnoiseHealthEstimateEntropyPerBit h
  kEstimate := infnoiseHealthEstimateK h
  warmupComplete := decide (h.totalBits ≥ inmMinData)
  healthOk := h.okToUse

/-- What a reader can rely on. A healthy device has made the warm-up, its entropy is in range, and
its gain is within two percent of the design; the counters count no more than was sampled, and all
values fit into their members. -/
structure InfnoiseStats.Consistent (stats : InfnoiseStats) : Prop where
  fits : ∀ m ∈ stats.members, m.2 < 256 ^ m.1
  warmup_iff : stats.warmupComplete = true ↔ inmMinData ≤ stats.totalBits
  totals_le : stats.totalOnes + stats.totalZeros ≤ stats.totalBits
  misfires_le : stats.evenMisfires + stats.oddMisfires ≤ stats.totalBits
  k_eq : stats.kEstimate = fpOne + stats.entropyEstimate * 62806 / fpOne
  healthy : stats.healthOk = true → stats.warmupComplete = true ∧
    EntropyInRange stats.entropyEstimate ∧
    98 * inmDesignKFp ≤ 100 * stats.kEstimate ∧ 100 * stats.kEstimate ≤ 102 * inmDesignKFp

lemma Health.Inv.estimate_le {h : Health} (hinv : h.Inv) :
    infnoiseHealthEstimateEntropyPerBit h ≤ 15 * fpOne := by
  rcases Nat.eq_zero_or_pos h.numBitsSampled with hzero | hpos
  · rw [infnoiseHealthEstimateEntropyPerBit, if_pos hzero]
    exact Nat.zero_le _
  · rw [hinv.estimate_eq hpos]
    apply Nat.div_le_of_le_mul
    have he := hinv.numBitsOfEntropy_le
    simp only [fpOne]
    omega

/-- The gain is not cut to its width. -/
lemma Health.Inv.estimateK_eq {h : Health} (hinv : h.Inv) : infnoiseHealthEstimateK h =
    fpOne + infnoiseHealthEstimateEntropyPerBit h * 62806 / fpOne := by
  have hle := hinv.estimate_le
  rw [infnoiseHealthEstimateK]
  generalize infnoiseHealthEstimateEntropyPerBit h = entropy at hle
  simp only [fpOne] at hle
  have hexact : FpMulExact entropy 62806 := by
    simp only [FpMulExact, fpShift, Nat.shiftRight_eq_div_pow]
    omega
  rw [fpMul_eq hexact]
  apply u32_of_lt
  simp only [fpOne]
  omega

lemma Health.Counted.fits {n : ℕ} {h : Health} (hc : h.Counted n) :
    ∀ m ∈ (infnoiseHealthGetStats h).members, m.2 < 256 ^ m.1 := by
  have hentropy := hc.inv.estimate_le
  have hbits : h.totalBits < 256 ^ 8 := hc.totalBits_eq ▸ Nat.mod_lt n (by decide)
  have hbool : ∀ b : Bool, b.toNat < 256 ^ 1 := by decide
  simp only [fpOne] at hentropy
  simp only [InfnoiseStats.members, infnoiseHealthGetStats, List.forall_mem_cons]
  exact ⟨hbits, hc.words.totalOnes_lt, hc.words.totalZeros_lt, hc.words.evenMisfires_lt,
    hc.words.oddMisfires_lt, lt_of_le_of_lt hentropy (by decide), u32_lt _, hbool _, hbool _,
    List.forall_mem_nil _⟩

lemma Health.Counted.consistent {n : ℕ} {h : Health} (hc : h.Counted n)
    (hn : n < 18446744073709551616) : (infnoiseHealthGetStats h).Consistent := by
  have hbits : h.totalBits = n := hc.totalBits_eq.trans (u64_of_lt hn)
  refine ⟨hc.fits, decide_eq_true_iff, ?_, ?_, hc.inv.estimateK_eq, fun huse => ?_⟩
  · exact hc.totals_le.trans hbits.ge
  · exact hc.misfires_le.trans hbits.ge
  · obtain ⟨hmin, hrange⟩ := hc.verdict huse
    refine ⟨decide_eq_true (hbits.symm ▸ hmin), hrange, ?_⟩
    have hlower : fpDiv inmExpectedEntropyFp inmAccuracyFp = 55991 := by decide
    have hupper : fpMul inmExpectedEntropyFp inmAccuracyFp = 59401 := by decide
    rw [EntropyInRange, hlower, hupper] at hrange
    rw [show (infnoiseHealthGetStats h).kEstimate = _ from hc.inv.estimateK_eq]
    simp only [inmDesignKFp, fpOne]
    omega

/-- The copy that `INFNOISE_GET_STATS` takes in a step that a task makes with the lock held. -/
def DriverRecord.snapshot (c : DriverRecord) : Option InfnoiseStats :=
  match c.input with
  | .step t _ =>
    match c.before.tasks t with
    | .ioctl true => some (infnoiseHealthGetStats c.before.dev.health)
    | _ => none
  | _ => none

/-- The copies, in the order in which they are taken. -/
def snapshots (cs : List DriverRecord) : List InfnoiseStats := cs.filterMap DriverRecord.snapshot

lemma DriverRecord.snapshot_eq {c : DriverRecord} {stats : InfnoiseStats}
    (h : c.snapshot = some stats) : stats = infnoiseHealthGetStats c.before.dev.health := by
  rw [snapshot] at h
  split at h
  · split at h
    · exact (Option.some.inj h).symm
    · cases h
  · cases h

/-- A run from a state in which `m` samples have been taken. -/
lemma run_snapshots {d d' : Driver} {cs : List DriverRecord} (h : Run Driver.step d cs d') {m : ℕ}
    (hc : d.dev.health.Counted m) (hlen : m + 1536 * cs.length < 18446744073709551616) :
    (∀ stats ∈ snapshots cs, stats.Consistent ∧ m ≤ stats.totalBits) ∧
      (snapshots cs).Pairwise fun stats stats' => stats.totalBits ≤ stats'.totalBits := by
  induction h generalizing m with
  | nil => exact ⟨fun _ hstats => absurd hstats List.not_mem_nil, List.Pairwise.nil⟩
  | @cons d d₁ d' a o cs hstep _ ih =>
    obtain ⟨k, hk, htakes⟩ := step_takes hstep
    rw [List.length_cons] at hlen
    obtain ⟨hrest, hpairs⟩ := ih (hc.takes htakes) (by omega)
    have hlater : ∀ stats ∈ snapshots cs, stats.Consistent ∧ m ≤ stats.totalBits := by
      intro stats hstats
      obtain ⟨hconsistent, hle⟩ := hrest stats hstats
      exact ⟨hconsistent, (Nat.le_add_right m k).trans hle⟩
    rcases hsnap : DriverRecord.snapshot ⟨d, a, o, d₁⟩ with _ | stats
    · rw [snapshots, List.filterMap_cons_none hsnap]
      exact ⟨hlater, hpairs⟩
    · rw [snapshots, List.filterMap_cons_some hsnap]
      obtain rfl := DriverRecord.snapshot_eq hsnap
      have hbits : (infnoiseHealthGetStats d.dev.health).totalBits = m :=
        hc.totalBits_eq.trans (u64_of_lt (by omega))
      refine ⟨?_, List.pairwise_cons.mpr ⟨fun stats hstats => ?_, hpairs⟩⟩
      · intro stats hstats
        rcases List.mem_cons.mp hstats with rfl | hstats
        · exact ⟨hc.consistent (by omega), hbits.ge⟩
        · exact hlater stats hstats
      · rw [hbits]
        exact (hlater stats hstats).2

/-- In every run of a device from its probe on that takes fewer than 2 ^ 53 steps, whatever it
sends: each copy of the statistics is consistent, and none has fewer bits than an earlier one. -/
theorem snapshots_consistent {clockBuf usbBuf readBuf outBuf : ℕ → Byte} {multiplier : ℕ}
    {rawMode : Bool} {d : Driver} {cs : List DriverRecord}
    (h : Run Driver.step (infnoiseProbe clockBuf usbBuf readBuf outBuf multiplier rawMode) cs d)
    (hlen : cs.length < 9007199254740992) :
    (∀ stats ∈ snapshots cs, stats.Consistent) ∧
      (snapshots cs).Pairwise fun stats stats' => stats.totalBits ≤ stats'.totalBits := by
  obtain ⟨hall, hpairs⟩ := run_snapshots h infnoiseHealthInit_counted (by omega)
  exact ⟨fun stats hstats => (hall stats hstats).1, hpairs⟩

/-! ### Two readings -/

/-- A copy from its start to its end. -/
lemma exists_run_copy {d : Driver} {t : ℕ} (ht : d.tasks t = .idle) (hlocked : d.locked = false) :
    ∃ cs, Run Driver.step d cs d ∧ snapshots cs = [infnoiseHealthGetStats d.dev.health] ∧
      cs.length = 3 := by
  let input : StepInput := ⟨fun _ => registerScript 0, fun _ => 0, false, 0⟩
  have hget : d.step (.ioctlGet t) = some (.silent, d.setTask t (.ioctl false)) := by
    rw [Driver.step, ht]
    rfl
  have hlock : (d.setTask t (.ioctl false)).step (.step t input) =
      some (.silent, { d with locked := true }.setTask t (.ioctl true)) := by
    rw [Driver.step, Driver.setTask_tasks]
    refine lock_eq_some_iff.mpr ⟨hlocked, ?_⟩
    rw [← Driver.setTask_setTask { d with locked := true } t (.ioctl false)]
    rfl
  have hcopy : ({ d with locked := true }.setTask t (.ioctl true)).step (.step t input) =
      some (⟨[], some (.ok 0)⟩, d) := by
    have hidle : ({ d with locked := false }.setTask t (.ioctl true)).setTask t .idle = d := by
      rw [Driver.setTask_setTask, ← hlocked, ← ht]
      simp [Driver.setTask]
    rw [Driver.step, Driver.setTask_tasks]
    exact congrArg (fun d' : Driver => some ((⟨[], some (.ok 0)⟩ : Output), d')) hidle
  refine ⟨_, .cons hget (.cons hlock (.single hcopy)), ?_, rfl⟩
  simp only [snapshots, List.filterMap_cons, DriverRecord.snapshot, Driver.setTask_tasks,
    List.filterMap_nil]
  rfl

lemma WarmupRun.snapshots_eq_nil {d d' : Driver} {cs : List DriverRecord}
    (h : WarmupRun d cs d') : snapshots cs = [] := by
  rw [snapshots, List.filterMap_eq_nil_iff]
  intro c hc
  obtain ⟨scripts, discard, hinput⟩ := h.2 c hc
  rw [DriverRecord.snapshot, hinput]

lemma snapshots_eq_nil_of_hwrng {cs : List DriverRecord}
    (h : ∀ c ∈ cs, DriverRecord.OfHwrng c) : snapshots cs = [] := by
  rw [snapshots, List.filterMap_eq_nil_iff]
  intro c hc
  rw [DriverRecord.snapshot]
  split
  · rename_i t input hinput
    obtain ⟨call, pc, ht⟩ := h c hc t input hinput
    rw [ht]
  · rfl

/-- The statistics are read after the warm-up, and once more after a read of a chunk. -/
lemma exists_run_copies : ∃ (cs : List DriverRecord) (d : Driver) (stats stats' : InfnoiseStats),
    Run Driver.step probed cs d ∧ cs.length < 9007199254740992 ∧
      snapshots cs = [stats, stats'] ∧ stats.healthOk = true ∧ stats'.healthOk = true ∧
      stats'.totalBits = stats.totalBits + 512 := by
  obtain ⟨j, dev, cs₁, h157, h372, hwarming, hok, hwarm, hlen₁⟩ := exists_warmed
  obtain ⟨dev', entropy, hloaded, hread⟩ := hwarming.readData h157 h372 hok 1 (fun _ => 0) 128
  obtain ⟨cs₂, hrun₂, hcopy₂, hlen₂⟩ := @exists_run_copy (warmed dev) 1 rfl rfl
  obtain ⟨cs₃, hrun₃, -, -, hhwrng, hlen₃⟩ := @exists_run_hwrngRead (warmed dev) 0 128
    (fun _ => registerScript (512 * j)) _ rfl hwarming.present rfl hwarming.healthFail rfl hread
  rw [absorbAndSqueeze_dev, squeezeLeft_dev] at hrun₃
  obtain ⟨cs₄, hrun₄, hcopy₄, hlen₄⟩ := exists_run_copy (t := 1) (d := { warmed dev with dev := _ })
    rfl rfl
  have hrun := hwarm.1.append (hrun₂.append (hrun₃.append hrun₄))
  refine ⟨_, _, infnoiseHealthGetStats dev.health, infnoiseHealthGetStats dev'.health, hrun, ?_, ?_,
    hwarming.fed.okToUse_eq.trans hok, hloaded.fed.okToUse_eq.trans hloaded.ok, ?_⟩
  · simp only [List.length_append]
    omega
  · have happend : ∀ cs cs' : List DriverRecord, snapshots (cs ++ cs') =
        snapshots cs ++ snapshots cs' := fun _ _ => List.filterMap_append
    rw [happend, happend, happend, hwarm.snapshots_eq_nil, hcopy₂, snapshots_eq_nil_of_hwrng hhwrng,
      hcopy₄]
    rfl
  · change dev'.health.totalBits = dev.health.totalBits + 512
    rw [hloaded.fed.totalBits_eq, hwarming.fed.totalBits_eq]
    omega

/-- Both copies are consistent, and the later one counts the block of the read. -/
theorem snapshots_consistent_warm : ∃ (cs : List DriverRecord) (d : Driver)
    (stats stats' : InfnoiseStats), Run Driver.step probed cs d ∧
      snapshots cs = [stats, stats'] ∧ stats.healthOk = true ∧ stats'.healthOk = true ∧
      stats'.totalBits = stats.totalBits + 512 ∧ (∀ stats ∈ snapshots cs, stats.Consistent) ∧
      (snapshots cs).Pairwise fun stats stats' => stats.totalBits ≤ stats'.totalBits := by
  obtain ⟨cs, d, stats, stats', hrun, hlen, hcopies, hok, hok', hbits⟩ := exists_run_copies
  obtain ⟨hall, hpairs⟩ := snapshots_consistent hrun hlen
  exact ⟨cs, d, stats, stats', hrun, hcopies, hok, hok', hbits, hall, hpairs⟩

end Kernel
