import Infnoise.Kernel.Accounting
import Infnoise.Kernel.EntropyGate
import Mathlib.Data.Nat.Log

/-!
# Multiplier zero

With multiplier zero the driver is to put out no more than the entropy it took in. It puts out the
entropy that was measured in the block, and nothing bounds that by the 512 bits the block has: the
verdict on the source is taken over up to 80000 bits, and a block may surprise the tables far more
than they do.
-/

namespace Kernel

open Core

attribute [local irreducible] infnoiseKeccakPermutation infnoiseKeccakAbsorb

/-! ### The surprise of a block -/

/-- The probability of a sample, as the tables and the calls before it have it. -/
def Health.prediction (h : Health) (x : Sample) : ℕ :=
  (h.enterLoop x.evenBit x.oddBit x.even).currentProb

/-- How often a probability has to be doubled to pass one half. -/
def halvings (p : ℕ) : ℕ := 15 - Nat.log 2 (p - 1)

/-- The checker after a sample. -/
def Health.next (h : Health) (x : Sample) : Health := ((h.addBit x).map Prod.snd).getD h

/-- The surprise of samples, in bits. A sample that comes before the data may be used does not
count. -/
def Health.surprise : Health → List Sample → ℕ
  | _, [] => 0
  | h, x :: xs => (if h.okToUse then halvings (h.prediction x) else 0) + (h.next x).surprise xs

/-- A call counts as many bits as the probability has to be doubled. -/
lemma Health.Passed.bitsCounted_eq {h h' : Health} {x : Sample} (hp : h.Passed x h') :
    h.bitsCounted x = halvings (h.prediction x) := by
  have hk := hp.bitsCounted_le
  have hgt := hp.inv.currentProb_gt
  have hle := hp.inv.currentProb_le
  rw [hp.prob_eq] at hgt hle
  change fpHalf < h.prediction x * 2 ^ h.bitsCounted x at hgt
  change h.prediction x * 2 ^ h.bitsCounted x ≤ fpOne at hle
  have hpow : 0 < 2 ^ h.bitsCounted x := Nat.two_pow_pos _
  have hlow : 2 ^ (15 - h.bitsCounted x) < h.prediction x := by
    have hhalf : 2 ^ (15 - h.bitsCounted x) * 2 ^ h.bitsCounted x = fpHalf := by
      rw [← pow_add, Nat.sub_add_cancel hk]
      rfl
    exact Nat.lt_of_mul_lt_mul_right (hhalf ▸ hgt)
  have hhigh : h.prediction x ≤ 2 ^ (15 - h.bitsCounted x + 1) := by
    have hone : 2 ^ (15 - h.bitsCounted x + 1) * 2 ^ h.bitsCounted x = fpOne := by
      rw [← pow_add, show 15 - h.bitsCounted x + 1 + h.bitsCounted x = 16 by omega]
      rfl
    exact Nat.le_of_mul_le_mul_right (hone ▸ hle) hpow
  have hlog : Nat.log 2 (h.prediction x - 1) = 15 - h.bitsCounted x :=
    Nat.log_eq_of_pow_le_of_lt_pow (by omega) (by omega)
  rw [halvings, hlog]
  omega

/-- The entropy level goes up by the surprise. -/
lemma level_eq_surprise {h h' : Health} {xs : List Sample} (hinv : h.Inv)
    (hchecked : Checked Health.addBit xs h h')
    (hlt : h.entropyLevel + 15 * xs.length < 4294967296) :
    h'.entropyLevel = h.entropyLevel + h.surprise xs := by
  induction xs generalizing h with
  | nil =>
    obtain rfl := Checked.nil_iff.mp hchecked
    rfl
  | cons x xs ih =>
    obtain ⟨h₁, hadd, hrest⟩ := Checked.cons_iff.mp hchecked
    rw [List.length_cons] at hlt
    rcases Health.addBit_outcome hinv hadd with ⟨hf, _⟩ | ⟨_, hp⟩
    · cases hf
    · have hcount := hp.bitsCounted_le
      have hlevel := hp.level (by omega)
      have hnext : h.next x = h₁ := by rw [Health.next, hadd]; rfl
      have hle : h₁.entropyLevel ≤ h.entropyLevel + 15 := by
        rw [hlevel]
        split <;> omega
      rw [ih hp.inv hrest (by omega), hlevel, hp.bitsCounted_eq, Health.surprise, hnext,
        Nat.add_assoc]

/-! ### The extraction behind a transfer -/

/-- The extraction of the attempt that succeeds, with `retries` attempts left: the device as it
finds it, and the samples. -/
def lastExtraction (scripts : ℕ → AttemptScript) : ℕ → Device → Option (Device × (ℕ → Byte))
  | 0, _ => none
  | retries + 1, dev =>
    let script := scripts (infnoiseMaxRetries - (retries + 1))
    match infnoiseUsbTransferOnce dev script with
    | none => none
    | some (.ok _, _) =>
      let (_, usbBuf, readBuf) :=
        receiveSamples script.write script.reads dev.usbBuf dev.readBuf
      some ({ dev with usbBuf, readBuf }, readBuf)
    | some (.error e, dev) =>
      match afterAttempt dev script (.error e) with
      | (some _, _) => none
      | (none, dev) => lastExtraction scripts retries dev

lemma infnoiseUsbTransferOnce_extraction {dev dev' : Device} {script : AttemptScript} {entropy : ℕ}
    (h : infnoiseUsbTransferOnce dev script = some (.ok entropy, dev')) :
    ∃ usbBuf readBuf,
      receiveSamples script.write script.reads dev.usbBuf dev.readBuf = (none, usbBuf, readBuf) ∧
      infnoiseExtractBytes { dev with usbBuf, readBuf } infnoiseBytesOut readBuf =
        some (.ok entropy, dev') := by
  rw [infnoiseUsbTransferOnce] at h
  rcases hrecv : receiveSamples script.write script.reads dev.usbBuf dev.readBuf with
    ⟨_ | e, usbBuf, readBuf⟩
  · rw [hrecv] at h
    exact ⟨usbBuf, readBuf, rfl, h⟩
  · rw [hrecv] at h
    cases h

/-- A transfer that succeeds ends with an extraction that does. -/
lemma transferLoop_extraction {scripts : ℕ → AttemptScript} {retries entropy : ℕ}
    {last : Except Errno ℕ} {dev dev' : Device} (hinv : dev.health.Inv)
    (hlast : ∀ n, last ≠ .ok n)
    (h : transferLoop scripts retries last dev = some (.ok entropy, dev')) :
    ∃ dev₀ inBuf dev₁, lastExtraction scripts retries dev = some (dev₀, inBuf) ∧
      dev₀.health.Inv ∧
      infnoiseExtractBytes dev₀ infnoiseBytesOut inBuf = some (.ok entropy, dev₁) ∧
      dev'.health = dev₁.health := by
  induction retries generalizing last dev with
  | zero =>
    rw [transferLoop, Option.some.injEq, Prod.mk.injEq] at h
    exact absurd h.1 (hlast entropy)
  | succ retries ih =>
    obtain ⟨ret, dev₁, honce, hinv₁⟩ := infnoiseUsbTransferOnce_returns hinv
      (scripts (infnoiseMaxRetries - (retries + 1)))
    simp only [transferLoop, honce] at h
    rcases ret with e | n
    · obtain ⟨_, _, hhealth, hok⟩ := afterAttempt_cases dev₁
        (scripts (infnoiseMaxRetries - (retries + 1))) (.error e)
      rcases hafter : afterAttempt dev₁ (scripts (infnoiseMaxRetries - (retries + 1))) (.error e)
        with ⟨_ | ret, dev₂⟩
      · simp only [hafter] at h hhealth
        obtain ⟨dev₀, inBuf, dev₃, hex, hrest⟩ := ih (hhealth ▸ hinv₁) (fun n hn => by cases hn) h
        refine ⟨dev₀, inBuf, dev₃, ?_, hrest⟩
        simp only [lastExtraction, honce, hafter]
        exact hex
      · rw [hafter] at h hok
        obtain ⟨rfl, rfl⟩ := Prod.mk.inj (Option.some.inj h)
        cases hok entropy rfl
    · obtain ⟨usbBuf, readBuf, hrecv, hextract⟩ := infnoiseUsbTransferOnce_extraction honce
      rw [afterAttempt] at h
      obtain ⟨hret, rfl⟩ := Prod.mk.inj (Option.some.inj h)
      cases hret
      refine ⟨{ dev with usbBuf, readBuf }, readBuf, dev₁, ?_, hinv, hextract, rfl⟩
      simp only [lastExtraction, honce, hrecv]

/-! ### What a block yields -/

/-- A call that absorbs has made a transfer, and the device is still there. -/
lemma ReadRecord.absorbs_cases {c : ReadRecord}
    (hstep : readStep c.before c.input = some (c.output, c.after)) (habs : c.absorbs = true) :
    ∃ entropy dev, infnoiseUsbTransfer c.before c.input.scripts = some (.ok entropy, dev) ∧
      c.before.keccakBytesLeft = 0 ∧ c.after.health = dev.health ∧ c.after.present = true := by
  obtain ⟨dev, ⟨multiplier, scripts, result, maxLen, raw⟩, r, dev'⟩ := c
  rw [readStep, Option.map_eq_some_iff] at hstep
  obtain ⟨r', hread, heq⟩ := hstep
  obtain ⟨rfl, rfl⟩ := Prod.mk.inj heq
  dsimp only at hread habs ⊢
  cases infnoiseReadData_step hread with
  | absent hpresent => cases habs
  | squeezed hpresent hraw hleft => cases habs
  | failed hpresent htransfer => cases habs
  | rejected hpresent htransfer hbad => cases habs
  | rawBlock hpresent htransfer hgood hraw => cases habs
  | @absorbed entropy dev₁ hpresent htransfer hgood hraw hleft =>
    obtain ⟨hframe, _⟩ := infnoiseUsbTransfer_cases htransfer
    refine ⟨entropy, dev₁, htransfer, hleft, ?_, ?_⟩
    · rw [absorbAndSqueeze_dev, squeezeLeft_dev, Device.absorb]
    · rw [absorbAndSqueeze_dev, squeezeLeft_dev, Device.absorb]
      exact hframe.present_eq.trans hpresent

/-- The budget of a block that is absorbed with multiplier zero is its surprise, in bytes. -/
lemma ReadRecord.blockBudget_eq_surprise {c : ReadRecord}
    (hstep : readStep c.before c.input = some (c.output, c.after)) (hinv : c.before.health.Inv)
    (habs : c.absorbs = true) (hzero : c.input.multiplier = 0) :
    ∃ dev₀ inBuf,
      lastExtraction c.input.scripts infnoiseMaxRetries c.before = some (dev₀, inBuf) ∧
      c.blockBudget = (infnoiseHealthClearEntropy dev₀.health).surprise
        (samplesOf inBuf infnoiseBytesOut) / 8 := by
  obtain ⟨entropy, dev, htransfer, _, hhealth, _⟩ := c.absorbs_cases hstep habs
  obtain ⟨dev₀, inBuf, dev₁, hex, hinv₀, hextract, hhealth₁⟩ :=
    transferLoop_extraction hinv (fun n hn => by cases hn) htransfer
  obtain ⟨hchecked, _, _⟩ := infnoiseExtractBytes_checked hextract
  have hcleared : (infnoiseHealthClearEntropy dev₀.health).entropyLevel = 0 := rfl
  have hlength : (samplesOf inBuf infnoiseBytesOut).length = 512 := samplesOf_length _ _
  have hlevel := level_eq_surprise (infnoiseHealthClearEntropy_inv hinv₀) hchecked
    (by rw [hcleared, hlength]; norm_num)
  rw [hcleared, Nat.zero_add] at hlevel
  refine ⟨dev₀, inBuf, hex, ?_⟩
  rw [ReadRecord.blockBudget, if_pos hzero, infnoiseHealthGetEntropy, hhealth, hhealth₁, hlevel]

/-- Bytes that are left can be read. -/
lemma exists_draw {dev : Device} (hpresent : dev.present = true) (hleft : 0 < dev.keccakBytesLeft) :
    ∃ d : ReadRecord, d.before = dev ∧ readStep d.before d.input = some (d.output, d.after) ∧
      d.absorbs = false ∧ d.whitenedBytes = min 128 dev.keccakBytesLeft := by
  let call : ReadCall := ⟨1, fun _ => registerScript 0, fun _ => 0, 128, false⟩
  let r := squeezeLeft dev (fun _ => 0) 128
  have hread : readStep dev call = some (r, r.dev) := by
    rw [readStep, infnoiseReadData, hpresent]
    simp only [Bool.not_true, Bool.false_eq_true, if_false]
    rw [if_pos ⟨hleft, rfl⟩]
    rfl
  refine ⟨⟨dev, call, r, r.dev⟩, rfl, hread, rfl, ?_⟩
  simp only [ReadRecord.whitenedBytes, ReadRecord.bytesReturned, call, r, squeezeLeft_ret,
    squeezeSize, Bool.false_eq_true, if_false]
  omega

/-- After a block is absorbed with multiplier zero, the whitened bytes delivered up to the next
absorption are never more than the block has exactly when the surprise of the block is below 520
bits. -/
theorem entropyOnly_iff {c : ReadRecord}
    (hstep : readStep c.before c.input = some (c.output, c.after)) (hinv : c.before.health.Inv)
    (habs : c.absorbs = true) (hzero : c.input.multiplier = 0) :
    ∃ dev₀ inBuf,
      lastExtraction c.input.scripts infnoiseMaxRetries c.before = some (dev₀, inBuf) ∧
      ((∀ (cs : List ReadRecord) dev', Run readStep c.before (c :: cs) dev' →
          (∀ e ∈ cs, e.absorbs = false) →
          ((c :: cs).map ReadRecord.whitenedBytes).sum ≤ infnoiseBytesOut) ↔
        (infnoiseHealthClearEntropy dev₀.health).surprise (samplesOf inBuf infnoiseBytesOut)
          < 520) := by
  obtain ⟨dev₀, inBuf, hex, hbudget⟩ := c.blockBudget_eq_surprise hstep hinv habs hzero
  obtain ⟨_, _, _, hleft, _, hpresent⟩ := c.absorbs_cases hstep habs
  have hlt : c.before.keccakBytesLeft < 4294967296 := by rw [hleft]; norm_num
  have hlaw := readStep_lawful hstep hlt
  have hdrawn := hlaw.no_underflow
  have hafter := hlaw.after_eq
  rw [if_pos habs] at hdrawn hafter
  have hbytes : infnoiseBytesOut = 64 := rfl
  refine ⟨dev₀, inBuf, hex, ?_, ?_⟩
  · intro hbound
    by_contra hmany
    have hlarge : 65 ≤ c.blockBudget := by omega
    -- what the call itself leaves can be read next
    rcases Nat.lt_or_ge c.whitenedBytes 65 with hfew | hmore
    · obtain ⟨d, hbefore, hdraw, hnot, hcount⟩ :=
        exists_draw hpresent (show 0 < c.after.keccakBytesLeft by omega)
      have hrun : Run readStep c.before [c, d] d.after :=
        Run.cons_iff.mpr ⟨rfl, hstep, Run.cons_iff.mpr ⟨hbefore, hbefore ▸ hdraw, .nil _⟩⟩
      have htotal := hbound [d] d.after hrun (by simpa using hnot)
      simp only [List.map_cons, List.map_nil, List.sum_cons, List.sum_nil] at htotal
      omega
    · have htotal := hbound [] c.after (Run.cons_iff.mpr ⟨rfl, hstep, .nil _⟩) (by simp)
      simp only [List.map_cons, List.map_nil, List.sum_cons, List.sum_nil] at htotal
      omega
  · intro hsmall cs dev' hrun hcs
    obtain ⟨d, hlast⟩ : ∃ d, (c :: cs).getLast? = some d :=
      ⟨_, List.getLast?_eq_some_getLast (List.cons_ne_nil c cs)⟩
    have hsum := (readData_accounting hrun hlt).2 [] c cs [] d (by simp) habs hcs hlast
    rw [List.map_cons, List.sum_cons]
    omega

/-- A block of the register is absorbed with multiplier zero. -/
theorem entropyOnly_iff_register : ∃ (c : ReadRecord) (dev₀ : Device) (inBuf : ℕ → Byte),
    readStep c.before c.input = some (c.output, c.after) ∧ c.absorbs = true ∧
      c.input.multiplier = 0 ∧
      lastExtraction c.input.scripts infnoiseMaxRetries c.before = some (dev₀, inBuf) ∧
      ((∀ (cs : List ReadRecord) dev', Run readStep c.before (c :: cs) dev' →
          (∀ e ∈ cs, e.absorbs = false) →
          ((c :: cs).map ReadRecord.whitenedBytes).sum ≤ infnoiseBytesOut) ↔
        (infnoiseHealthClearEntropy dev₀.health).surprise (samplesOf inBuf infnoiseBytesOut)
          < 520) := by
  obtain ⟨j, dev, hwarming, _, _, _, hread⟩ := exists_warm_read
  obtain ⟨dev₁, entropy, _, hread⟩ := hread 0 (fun _ => 0) 128
  obtain ⟨r, hr⟩ : ∃ r, r = absorbAndSqueeze dev₁ 0 entropy (fun _ => 0) 128 := ⟨_, rfl⟩
  let c : ReadRecord :=
    ⟨dev, ⟨0, fun _ => registerScript (512 * j), fun _ => 0, 128, false⟩, r, r.dev⟩
  have hstep : readStep c.before c.input = some (c.output, c.after) := by
    rw [readStep, hread, ← hr]
    rfl
  have habs : c.absorbs = true := ReadRecord.absorbs_of_eq hr
  obtain ⟨dev₀, inBuf, hlast, hiff⟩ := entropyOnly_iff hstep hwarming.fed.inv habs rfl
  exact ⟨c, dev₀, inBuf, hstep, habs, rfl, hlast, hiff⟩

/-! ### A block that surprises the tables -/

/-- Alternating bits, beginning with a zero. -/
def skewSample (t : ℕ) : Sample :=
  ⟨decide (t % 2 = 1), decide (t % 2 = 1), decide (t % 2 = 1)⟩

@[simp] lemma skewSample_bit (t : ℕ) : (skewSample t).bit = decide (t % 2 = 1) :=
  ite_self _

/-- A checker whose tables take the bits of the alternating source for the less likely ones, `t`
bits into a block. The estimate has been fine for long. -/
structure Health.Skewed (t : ℕ) (h : Health) : Prop where
  inv : h.Inv
  likely : ∀ b, ∀ i < 16384, h.table b (!b) i = 4600
  unlikely : ∀ b, ∀ i < 16384, 1000 ≤ h.table b b i ∧ h.table b b i ≤ 1000 + t
  numBitsSampled_eq : h.numBitsSampled = 60000 + t
  entropy : 52200 + 2 * t ≤ h.numBitsOfEntropy ∧ h.numBitsOfEntropy ≤ 52200 + 3 * t
  totalBits_eq : h.totalBits = 100000 + t
  okToUse_eq : h.okToUse = true
  ones_eq : t % 2 = 1 → h.seqOnes = 0
  zeros_eq : t % 2 = 0 → h.seqZeros = 0
  level : 2 * t ≤ h.entropyLevel ∧ h.entropyLevel ≤ 3 * t

/-- The state of such a checker before a block. -/
def skewedHealth : Health :=
  { infnoiseHealthInit with
    onesEven := fun _ => 1000
    zerosEven := fun _ => 4600
    onesOdd := fun _ => 4600
    zerosOdd := fun _ => 1000
    numBitsSampled := 60000
    numBitsOfEntropy := 52200
    totalBits := 100000
    okToUse := true }

lemma skewedHealth_skewed : skewedHealth.Skewed 0 where
  inv :=
    { table_lt := by rintro (_ | _) (_ | _) i <;> simp [skewedHealth, Health.table]
      prevBits_lt := by simp [skewedHealth, infnoiseHealthInit]
      numBitsSampled_lt := by simp [skewedHealth]
      currentProb_gt := by simp [skewedHealth, infnoiseHealthInit]
      currentProb_le := by simp [skewedHealth, infnoiseHealthInit]
      numBitsOfEntropy_le := by simp [skewedHealth] }
  likely := by rintro (_ | _) i _ <;> rfl
  unlikely := by rintro (_ | _) i _ <;> exact ⟨le_rfl, le_rfl⟩
  numBitsSampled_eq := rfl
  entropy := ⟨le_rfl, le_rfl⟩
  totalBits_eq := rfl
  okToUse_eq := rfl
  ones_eq _ := rfl
  zeros_eq _ := rfl
  level := ⟨le_rfl, le_rfl⟩

/-- No run of these bits is too long. -/
lemma Health.Skewed.check {t : ℕ} {h : Health} (hs : h.Skewed t) :
    (h.check (skewSample t)).1 = false ∧
      ((t + 1) % 2 = 1 → (h.check (skewSample t)).2.seqOnes = 0) ∧
      ((t + 1) % 2 = 0 → (h.check (skewSample t)).2.seqZeros = 0) := by
  have hsampled := hs.numBitsSampled_eq
  have hsam : (h.observe (skewSample t).evenBit (skewSample t).oddBit
    (skewSample t).even).numBitsSampled = h.numBitsSampled := rfl
  rw [Health.check, Health.checkStuck, skewSample_bit, hsam,
    if_pos (by simp only [inmMinSampleSize]; omega)]
  rcases Nat.mod_two_eq_zero_or_one t with ht | ht
  · rw [decide_eq_false (by omega)]
    refine ⟨decide_eq_false ?_, (fun _ => rfl), fun hodd => by omega⟩
    change ¬ u32 (h.seqZeros + 1) > 20
    rw [hs.zeros_eq ht]
    decide
  · rw [decide_eq_true ht]
    refine ⟨decide_eq_false ?_, (fun _ => by omega), fun _ => rfl⟩
    change ¬ u32 (h.seqOnes + 1) > 20
    rw [hs.ones_eq ht]
    decide

/-- The counts of the bit and of the other one, in the context of the next call. -/
lemma Health.Skewed.counts {t : ℕ} {h : Health} (hs : h.Skewed t) :
    (1000 ≤ h.table (skewSample t).even (skewSample t).bit
        ((2 * h.prevBits + h.prevBit.toNat) % 16384) ∧
      h.table (skewSample t).even (skewSample t).bit
        ((2 * h.prevBits + h.prevBit.toNat) % 16384) ≤ 1000 + t) ∧
      h.table (skewSample t).even (!(skewSample t).bit)
        ((2 * h.prevBits + h.prevBit.toNat) % 16384) = 4600 := by
  have hlt : (2 * h.prevBits + h.prevBit.toNat) % 16384 < 16384 := Nat.mod_lt _ (by norm_num)
  rw [skewSample_bit]
  exact ⟨hs.unlikely _ _ hlt, hs.likely _ _ hlt⟩

/-- Such a bit has a frequency of less than one quarter, and is worth two or three bits. -/
lemma Health.Skewed.bitsCounted {t : ℕ} {h h' : Health} (hs : h.Skewed t) (ht : t < 512)
    (hp : h.Passed (skewSample t) h') :
    2 ≤ h.bitsCounted (skewSample t) ∧ h.bitsCounted (skewSample t) ≤ 3 := by
  obtain ⟨hunlikely, hlikely⟩ := hs.counts
  obtain ⟨c, hc⟩ : ∃ c, h.table (skewSample t).even (skewSample t).bit
    ((2 * h.prevBits + h.prevBit.toNat) % 16384) = c := ⟨_, rfl⟩
  rw [hc] at hunlikely
  have hpred := hs.inv.prediction_eq (skewSample t) rfl hc hlikely
  have hgt := hs.inv.currentProb_gt
  have hle := hs.inv.currentProb_le
  simp only [fpHalf, fpOne] at hgt hle
  have hfreq : fpDiv c (c + 4600) = c * 65536 / (c + 4600) :=
    fpDiv_eq (by omega) (fpDivExact_of_le (c := 1) (by omega) (by omega) (by norm_num))
  have hfreqLow : 11000 ≤ c * 65536 / (c + 4600) :=
    (Nat.le_div_iff_mul_le (by omega)).mpr (by omega)
  have hfreqHigh : c * 65536 / (c + 4600) ≤ 16384 :=
    Nat.div_le_of_le_mul (by omega)
  rw [if_neg (by omega), hfreq] at hpred
  generalize c * 65536 / (c + 4600) = f at hpred hfreqLow hfreqHigh
  rw [fpMul_eq (fpMulExact_of_le hle (by simp only [fpOne]; omega))] at hpred
  have hlow : 32769 * 11000 ≤ h.currentProb * f := Nat.mul_le_mul hgt hfreqLow
  have hhigh : h.currentProb * f ≤ 65536 * 16384 := Nat.mul_le_mul hle hfreqHigh
  have hend := hp.inv.currentProb_gt
  rw [hp.prob_eq, hpred] at hend
  simp only [fpHalf] at hend
  constructor
  · by_contra hfew
    have hpow : 2 ^ h.bitsCounted (skewSample t) ≤ 2 ^ 1 :=
      Nat.pow_le_pow_right (by norm_num) (by omega)
    have := Nat.mul_le_mul_left (h.currentProb * f / 65536) hpow
    omega
  · by_contra hmany
    have hthree := hp.prob_le 3 (by omega)
    rw [hpred] at hthree
    simp only [fpHalf] at hthree
    omega

/-- A call for one of these bits. -/
lemma Health.Skewed.addBit {t : ℕ} {h : Health} (hs : h.Skewed t) (ht : t < 512) :
    ∃ h', h.addBit (skewSample t) = some (true, h') ∧ h'.Skewed (t + 1) ∧
      infnoiseHealthOk h' = true := by
  obtain ⟨⟨ok, h'⟩, hadd, -⟩ := Health.addBit_returns hs.inv (skewSample t)
  obtain ⟨hpass, hnoOnes, hnoZeros⟩ := hs.check
  rcases Health.addBit_outcome hs.inv hadd with ⟨rfl, hfault, -⟩ | ⟨rfl, hp⟩
  · rw [hpass] at hfault
    cases hfault
  obtain ⟨hunlikely, _⟩ := hs.counts
  obtain ⟨hlow, hhigh⟩ := hs.bitsCounted ht hp
  have hsam := hs.numBitsSampled_eq
  have hent := hs.entropy
  have hlev := hs.level
  obtain ⟨-, -, htable⟩ := hp.frame rfl (by omega)
  obtain ⟨hones, hzeros, hsam', hent'⟩ := hp.counters hs.inv
  obtain ⟨htotal, hverdict⟩ := hp.verdict hs.inv
  have hlevel := hp.level (by omega)
  rw [if_neg (by omega)] at hsam' hent'
  rw [hs.okToUse_eq, if_pos rfl] at hlevel
  rw [hs.totalBits_eq, u64_of_lt (by omega)] at htotal
  have hok : infnoiseHealthOk h' = true := by
    rw [hp.inv.ok_iff (by omega)]
    omega
  refine ⟨h', hadd, ?_, hok⟩
  exact
    { inv := hp.inv
      likely := fun b i hi => by
        rw [htable, if_neg]
        · exact hs.likely b i hi
        · rintro ⟨rfl, hb⟩
          rw [skewSample_bit] at hb
          exact Bool.not_ne_self _ hb
      unlikely := fun b i hi => by
        have hb := hs.unlikely b i hi
        rw [htable]
        split
        · rename_i hsame
          rw [Function.update_apply, ← hsame.1, ← hsame.2]
          rw [← hsame.1, ← hsame.2] at hunlikely
          split <;> omega
        · omega
      numBitsSampled_eq := by omega
      entropy := by omega
      totalBits_eq := by omega
      okToUse_eq := hverdict.trans hok
      ones_eq := fun hmod => hones.trans (hnoOnes hmod)
      zeros_eq := fun hmod => hzeros.trans (hnoZeros hmod)
      level := by omega }

lemma Health.Skewed.checked {n : ℕ} (hn : n ≤ 512) :
    ∃ h, Checked Health.addBit ((List.range n).map skewSample) skewedHealth h ∧ h.Skewed n ∧
      (0 < n → infnoiseHealthOk h = true) := by
  induction n with
  | zero => exact ⟨skewedHealth, .nil _, skewedHealth_skewed, fun hpos => absurd hpos (by simp)⟩
  | succ n ih =>
    obtain ⟨h, hchecked, hs, -⟩ := ih (by omega)
    obtain ⟨h', hadd, hs', hok⟩ := hs.addBit (by omega)
    rw [List.range_succ, List.map_append]
    exact ⟨h', hchecked.append (.single hadd), hs', fun _ => hok⟩

/-- A device that is sent the alternating samples. -/
def skewScript : AttemptScript := sampleScript fun t => sampleOf (decide (t % 2 = 1))

/-- The transfer of the alternating block. -/
lemma infnoiseUsbTransfer_skewed {dev : Device} (hdev : dev.health = skewedHealth) :
    ∃ entropy dev', infnoiseUsbTransfer dev (fun _ => skewScript) = some (.ok entropy, dev') ∧
      infnoiseHealthOk dev'.health = true ∧ 1024 ≤ entropy ∧ entropy ≤ 1536 := by
  obtain ⟨usbBuf, readBuf, hreceive, hsamples⟩ := receiveSamples_sampleScript
    (fun t => sampleOf (decide (t % 2 = 1))) dev.usbBuf dev.readBuf
  obtain ⟨h, hchecked, hs, hok⟩ := Health.Skewed.checked le_rfl
  have hsame : samplesOf readBuf infnoiseBytesOut = (List.range 512).map skewSample := by
    apply List.map_congr_left
    intro k hk
    rw [sampleAt, hsamples k (List.mem_range.mp hk), evenBitOf_sampleOf, oddBitOf_sampleOf]
    rfl
  have hstart : infnoiseHealthClearEntropy ({ dev with usbBuf, readBuf } : Device).health =
      skewedHealth := by
    rw [show ({ dev with usbBuf, readBuf } : Device).health = dev.health from rfl, hdev]
    rfl
  obtain ⟨outBuf, hextract⟩ := @infnoiseExtractBytes_of_checked
    { dev with usbBuf, readBuf } infnoiseBytesOut readBuf h (by rw [hsame, hstart]; exact hchecked)
  have honce : infnoiseUsbTransferOnce dev skewScript =
      some (.ok h.entropyLevel, { dev with usbBuf, readBuf, outBuf, health := h }) := by
    rw [infnoiseUsbTransferOnce, skewScript, hreceive]
    exact hextract
  refine ⟨h.entropyLevel, { dev with usbBuf, readBuf, outBuf, health := h, consecutiveErrors := 0 },
    ?_, hok (by norm_num), hs.level.1, hs.level.2⟩
  simp only [infnoiseUsbTransfer, infnoiseMaxRetries, transferLoop, honce, afterAttempt]

/-- The alternating block goes through both gates, and with multiplier zero the first call alone
returns 128 bytes of the 64 it absorbs. -/
theorem entropyOnly_stretches : ∃ c : ReadRecord,
    readStep c.before c.input = some (c.output, c.after) ∧ c.before.health.Inv ∧
      c.absorbs = true ∧ c.input.multiplier = 0 ∧ c.whitenedBytes = 128 := by
  obtain ⟨dev, hhealth, hpresent, hleft⟩ : ∃ dev : Device, dev.health = skewedHealth ∧
      dev.present = true ∧ dev.keccakBytesLeft = 0 :=
    ⟨{ (infnoiseProbe (fun _ => 0) (fun _ => 0) (fun _ => 0) (fun _ => 0) 0 false).dev with
      health := skewedHealth }, rfl, rfl, rfl⟩
  obtain ⟨entropy, dev', htransfer, hok, hlow, hhigh⟩ := infnoiseUsbTransfer_skewed hhealth
  have htarget : infnoiseHealthEntropyOnTarget entropy infnoiseBuflen = true :=
    (entropyOnTarget_iff (by omega)).mpr (by omega)
  have hread := infnoiseReadData_absorb hpresent hleft htransfer hok htarget 0 (fun _ => 0) 128
  have hbudget : u32 (outputBudget 0 entropy) = entropy / 8 := u32_of_lt (by
    rw [outputBudget_eq, if_pos rfl]
    omega)
  refine ⟨⟨dev, ⟨0, fun _ => skewScript, fun _ => 0, 128, false⟩,
    absorbAndSqueeze dev' 0 entropy (fun _ => 0) 128,
    (absorbAndSqueeze dev' 0 entropy (fun _ => 0) 128).dev⟩, ?_, ?_,
    ReadRecord.absorbs_of_eq rfl, rfl, ?_⟩
  · rw [readStep, hread]
    rfl
  · rw [hhealth]
    exact skewedHealth_skewed.inv
  · simp only [ReadRecord.whitenedBytes, ReadRecord.bytesReturned, absorbAndSqueeze_ret,
      squeezeSize, Device.absorb_keccakBytesLeft, hbudget, Bool.false_eq_true, if_false]
    omega

end Kernel
