import Infnoise.Core.Machine
import Infnoise.Kernel.Driver
import Infnoise.Kernel.Extraction
import Infnoise.Kernel.Fed
import Infnoise.Kernel.Framing

/-!
# The warm-up of the kernel driver

On a device whose samples follow the shift register the warm-up work of the driver ends well, after
at most 371 blocks, and the block after it passes every test.
-/

namespace Kernel

open Core Core.ShiftRegister Core.Meter

attribute [local irreducible] infnoiseKeccakPermutation infnoiseKeccakAbsorb

/-! ### The bits of a block -/

/-- A sample in which both comparators read `b`. -/
def sampleOf (b : Bool) : Byte := if b then 255 else 0

@[simp] lemma evenBitOf_sampleOf (b : Bool) : evenBitOf (sampleOf b) = b := by
  cases b <;> decide

@[simp] lemma oddBitOf_sampleOf (b : Bool) : oddBitOf (sampleOf b) = b := by
  cases b <;> decide

/-- Byte `i` of the block that starts at bit `t`. -/
def blockByte (t i : ℕ) : Byte := packBits (fun k => bit (t + (i * 8 + k))) 8

section

variable {j : ℕ} {h : Health} (hfed : h.Fed (512 * j)) (hlevel : h.entropyLevel = 0) (hj : j < 373)
  {inBuf : ℕ → Byte} (hin : ∀ k < 512, inBuf k = sampleOf (bit (512 * j + k)))

include hfed hlevel hj hin

lemma addBit_fed {k : ℕ} (hk : k < 512) :
    (fedBits (512 * j) h k).addBit (sampleAt inBuf k) =
      some (true, fedBits (512 * j) h (k + 1)) := by
  have hparity : (k % 2 == 1) = decide ((512 * j + k) % 2 = 1) := by
    have hmod : (512 * j + k) % 2 = k % 2 := by omega
    rw [hmod]
    rfl
  obtain ⟨hfed', hle⟩ := hfed.bits hlevel (k := k) (by omega)
  obtain ⟨hadd, _⟩ := hfed'.addBit (by omega) (by omega)
  simp only [Health.addBit, sampleAt, hin k hk, evenBitOf_sampleOf, oddBitOf_sampleOf, hparity,
    hadd]
  rfl

/-- A block passes the health check, and is packed into bytes. -/
lemma extractLoop_fed (outBuf : ℕ → Byte) :
    forWhile 64 (extractByte inBuf) (outBuf, h) =
      some (true, (fun i => if i < 64 then blockByte (512 * j) i else outBuf i),
        fedBits (512 * j) h 512) := by
  have hchecked := Checked.range (S := fedBits (512 * j) h) (n := 8 * 64)
    fun k hk => addBit_fed hfed hlevel hj hin hk
  rw [extractByte_eq]
  obtain ⟨outBuf', hloop⟩ : ∃ outBuf', forWhile 64 (packByte Health.addBit (sampleAt inBuf)
      fun k => (sampleAt inBuf k).bit) (outBuf, h) =
        some (true, outBuf', fedBits (512 * j) h 512) := pack_of_checked outBuf hchecked
  have hbytes : outBuf' = fun i => if i < 64 then blockByte (512 * j) i else outBuf i := by
    funext i
    split_ifs with hi
    · refine ((checked_pack hloop).2 i hi).trans (packBits_congr fun k hk => ?_)
      simp only [sampleAt, Sample.bit, hin (i * 8 + k) (by omega), evenBitOf_sampleOf,
        oddBitOf_sampleOf, selectBit, ite_self]
    · exact pack_frame hloop (by omega)
  rw [← hbytes]
  exact hloop

end

attribute [local irreducible] fedBits

lemma infnoiseExtractBytes_fed {j : ℕ} {dev : Device} (hfed : dev.health.Fed (512 * j))
    (hj : j < 373) : ∃ dev', infnoiseExtractBytes dev infnoiseBytesOut
      (fun k => sampleOf (bit (512 * j + k))) =
        some (.ok (fedBits (512 * j) (infnoiseHealthClearEntropy dev.health) 512).entropyLevel,
          dev') := by
  have hsamples : ∀ k < 512, (fun k => sampleOf (bit (512 * j + k))) k =
      sampleOf (bit (512 * j + k)) := fun _ _ => rfl
  have hloop := extractLoop_fed hfed.clearEntropy rfl hj hsamples dev.outBuf
  rw [infnoiseExtractBytes, show infnoiseBytesOut = 64 from rfl, hloop]
  exact ⟨_, rfl⟩

/-! ### An attempt -/

/-- Nine packets with the samples `s`. -/
def sampleBytes (s : ℕ → Byte) : List Byte :=
  (List.range 576).map fun i => if i % 64 < 2 then 0 else s (62 * (i / 64) + (i % 64 - 2))

/-- A device that accepts the clock pattern and answers with the samples `s`. -/
def sampleScript (s : ℕ → Byte) : AttemptScript where
  write := .ok 512
  reads := [.ok (sampleBytes s)]
  recovery := ⟨fun _ => none, none, fun _ => none⟩

lemma receiveSamples_sampleScript (s usbBuf readBuf : ℕ → Byte) :
    ∃ usbBuf' readBuf',
      receiveSamples (sampleScript s).write (sampleScript s).reads usbBuf readBuf =
        (none, usbBuf', readBuf') ∧ ∀ k < 512, readBuf' k = s k := by
  have hlength : (sampleBytes s).length = 576 := by
    rw [sampleBytes, List.length_map, List.length_range]
  have hcons : ∃ b bytes, sampleBytes s = b :: bytes := by
    rcases hbytes : sampleBytes s with _ | ⟨b, bytes⟩
    · rw [hbytes] at hlength
      cases hlength
    · exact ⟨b, bytes, rfl⟩
  have hloop : readLoop [.ok (sampleBytes s)] usbBuf 0 =
      (.ok 576, memcpyList usbBuf 0 (sampleBytes s)) := by
    obtain ⟨b, bytes, hbytes⟩ := hcons
    simp only [hbytes, readLoop, infnoiseUsbReadSize, infnoiseBuflen, ftdiDataPerPacket,
      ftdiPacketSize, ftdiStatusSize]
    rw [← hbytes, hlength]
    rfl
  refine ⟨memcpyList usbBuf 0 (sampleBytes s), fun k => if k < 512 then
    memcpyList usbBuf 0 (sampleBytes s) (sampleIndex k) else readBuf k, ?_, ?_⟩
  · simp only [receiveSamples, sampleScript, hloop, infnoiseStripFtdiStatus_eq]
    rfl
  · intro k hk
    have hindex : sampleIndex k < 576 ∧ ¬ sampleIndex k % 64 < 2 ∧
        62 * (sampleIndex k / 64) + (sampleIndex k % 64 - 2) = k := by
      rw [sampleIndex]
      omega
    obtain ⟨hlt, hstatus, hpos⟩ := hindex
    dsimp only
    rw [if_pos hk, memcpyList, if_pos (Nat.zero_le _), Nat.sub_zero, sampleBytes,
      List.getElem?_map, List.getElem?_range hlt, Option.map_some, Option.getD_some,
      if_neg hstatus, hpos]

/-- The samples of the register from bit `t` on. -/
def registerScript (t : ℕ) : AttemptScript := sampleScript fun k => sampleOf (bit (t + k))

section

variable {j : ℕ} {dev : Device} (hfed : dev.health.Fed (512 * j)) (hj : j < 373)

include hfed hj

/-- The transfer of a block. -/
lemma infnoiseUsbTransfer_fed : ∃ usbBuf readBuf,
    infnoiseUsbTransfer dev (fun _ => registerScript (512 * j)) =
      some (.ok (fedBits (512 * j) (infnoiseHealthClearEntropy dev.health) 512).entropyLevel,
        { dev with
          usbBuf, readBuf
          outBuf := fun i => if i < 64 then blockByte (512 * j) i else dev.outBuf i
          health := fedBits (512 * j) (infnoiseHealthClearEntropy dev.health) 512
          consecutiveErrors := 0 }) := by
  obtain ⟨usbBuf, readBuf, hreceive, hsamples⟩ :=
    receiveSamples_sampleScript (fun k => sampleOf (bit (512 * j + k))) dev.usbBuf dev.readBuf
  have hloop := extractLoop_fed hfed.clearEntropy rfl hj hsamples dev.outBuf
  refine ⟨usbBuf, readBuf, ?_⟩
  rw [infnoiseUsbTransfer, infnoiseMaxRetries, transferLoop]
  have honce : infnoiseUsbTransferOnce dev (registerScript (512 * j)) =
      some (.ok (fedBits (512 * j) (infnoiseHealthClearEntropy dev.health) 512).entropyLevel,
        { dev with
          usbBuf, readBuf
          outBuf := fun i => if i < 64 then blockByte (512 * j) i else dev.outBuf i
          health := fedBits (512 * j) (infnoiseHealthClearEntropy dev.health) 512 }) := by
    rw [infnoiseUsbTransferOnce, registerScript, hreceive]
    dsimp only
    rw [infnoiseExtractBytes]
    simp only [infnoiseBytesOut, infnoiseBuflen, Nat.reduceDiv, hloop, Option.map_some]
    rfl
  simp only [honce, afterAttempt]

end

/-! ### The warm-up -/

/-- A device after `j` blocks that did not reach the rate. -/
structure Device.Warming (j : ℕ) (dev : Device) : Prop where
  fed : dev.health.Fed (512 * j)
  low : Low okRate j dev.health.numBitsOfEntropy
  present : dev.present = true
  healthFail : dev.healthFail = false
  keccakBytesLeft : dev.keccakBytesLeft = 0

lemma Health.Fed.excess_lt {j : ℕ} {h : Health} (hfed : h.Fed (512 * j))
    (hlow : Low okRate j h.numBitsOfEntropy) (hnot : infnoiseHealthOk h = false) (hj : 157 ≤ j) :
    excess okRate (512 * j) h.numBitsOfEntropy < 1 / 20 := by
  by_contra hge
  have h600 := hlow hj
  rw [hfed.ok_of_excess (by omega) (le_trans (by norm_num) (not_lt.mp hge)) (by linarith)] at hnot
  cases hnot

/-- A round of the warm-up. -/
lemma Device.Warming.next {j : ℕ} {dev : Device} (h : dev.Warming j) (hj : j < 372)
    (hnot : infnoiseHealthOk dev.health = false) (multiplier : ℕ) (discard : ℕ → Byte) :
    ∃ r, infnoiseReadData dev multiplier (fun _ => registerScript (512 * j)) discard 64 true =
        some r ∧ r.dev.Warming (j + 1) ∧
      r.dev.health = fedBits (512 * j) (infnoiseHealthClearEntropy dev.health) 512 := by
  obtain ⟨usbBuf, readBuf, htransfer⟩ := infnoiseUsbTransfer_fed h.fed (by omega)
  obtain ⟨hfed, _⟩ := h.fed.clearEntropy.bits rfl (k := 512) (by omega)
  rw [show 512 * j + 512 = 512 * (j + 1) by ring] at hfed
  have hlow := (h.fed.clearEntropy.path rfl (by omega)).low (by norm_num [okRate]) hj hfed.bounds (by
    rw [fedBits_zero]
    exact h.fed.excess_lt h.low hnot)
  have hread : ∃ r, infnoiseReadData dev multiplier (fun _ => registerScript (512 * j)) discard 64
      true = some r := by
    rw [infnoiseReadData, h.present, htransfer]
    simp
  obtain ⟨r, hread⟩ := hread
  refine ⟨r, hread, ?_⟩
  cases infnoiseReadData_step hread with
  | absent hpresent =>
    rw [h.present] at hpresent
    cases hpresent
  | squeezed hpresent hraw hleft => cases hraw
  | failed hpresent htransfer' =>
    rw [htransfer] at htransfer'
    cases htransfer'
  | rejected hpresent htransfer' hbad | rawBlock hpresent htransfer' hgood hraw =>
    rw [htransfer] at htransfer'
    obtain ⟨_, rfl⟩ := Prod.mk.inj (Option.some.inj htransfer')
    exact ⟨⟨hfed, hlow, h.present, h.healthFail, h.keccakBytesLeft⟩, rfl⟩
  | absorbed hpresent htransfer' hgood hraw hleft => cases hraw

/-- A run of the warm-up work alone. -/
def WarmupRun (d : Driver) (cs : List (Call Driver Action Output)) (d' : Driver) : Prop :=
  Run Driver.step d cs d' ∧ ∀ c ∈ cs, ∃ scripts discard, c.input = .warmup scripts discard

lemma WarmupRun.tail {d d' d'' : Driver} {cs : List (Call Driver Action Output)}
    {scripts : ℕ → AttemptScript} {discard : ℕ → Byte} {o : Output} (h : WarmupRun d cs d')
    (hstep : d'.warmupStep scripts discard = some (o, d'')) :
    ∃ cs', WarmupRun d cs' d'' ∧ cs'.length = cs.length + 1 := by
  have hstep' : d'.step (.warmup scripts discard) = some (o, d'') := hstep
  refine ⟨_, ⟨h.1.append (.single hstep'), ?_⟩, List.length_append⟩
  intro c hc
  rcases List.mem_append.mp hc with hc | hc
  · exact h.2 c hc
  · rw [List.mem_singleton.mp hc]
    exact ⟨scripts, discard, rfl⟩

section

variable {d : Driver} {k : ℕ}

/-- A round of the loop. -/
lemma warmupStep_reads {r : ReadResult} {scripts : ℕ → AttemptScript} {discard : ℕ → Byte}
    (hd : d.warmup = .running k) (hnot : infnoiseHealthOk d.dev.health = false) (hk : k < 5000)
    (hpresent : d.dev.present = true)
    (hread : infnoiseReadData d.dev d.multiplier scripts discard 64 true = some r) :
    d.warmupStep scripts discard =
      some (.silent, { d with dev := r.dev, warmup := .running (k + 1) }) := by
  rw [Driver.warmupStep, hd]
  dsimp only
  rw [if_pos (by simp [hnot, hpresent, hk]), hread]
  rfl

/-- The loop ends when the health check holds. -/
lemma warmupStep_leaves (hd : d.warmup = .running k) (hok : infnoiseHealthOk d.dev.health = true)
    (scripts : ℕ → AttemptScript) (discard : ℕ → Byte) :
    d.warmupStep scripts discard =
      some (.silent, { d with locked := false, warmup := .checking k }) := by
  rw [Driver.warmupStep, hd]
  dsimp only
  rw [if_neg (by simp [hok])]

end

/-- The warm-up goes on until a block makes the health check hold. -/
lemma exists_last_block (d : Driver) (hd : d.warmup = .scheduled) (hlocked : d.locked = false)
    (hwarming : d.dev.Warming 0) :
    ∃ j < 371, ∃ dev : Device, dev.Warming j ∧ infnoiseHealthOk dev.health = false ∧
      infnoiseHealthOk (fedBits (512 * j) (infnoiseHealthClearEntropy dev.health) 512) = true ∧
      ∃ cs, WarmupRun d cs { d with dev, locked := true, warmup := .running j } ∧
        cs.length = j + 1 := by
  by_contra hnone
  have hgoes : ∀ j ≤ 371, ∃ dev : Device, dev.Warming j ∧ infnoiseHealthOk dev.health = false ∧
      ∃ cs, WarmupRun d cs { d with dev, locked := true, warmup := .running j } ∧
        cs.length = j + 1 := by
    intro j
    induction j with
    | zero =>
      intro _
      have hnot : infnoiseHealthOk d.dev.health = false := by
        rcases hok : infnoiseHealthOk d.dev.health with _ | _
        · rfl
        · have := (hwarming.fed.excess_of_ok hok).1
          omega
      have hstart : WarmupRun d [] d := ⟨.nil d, by simp⟩
      have hstep : d.warmupStep (fun _ => registerScript 0) (fun _ => 0) =
          some (.silent, { d with locked := true, warmup := .running 0 }) := by
        simp [Driver.warmupStep, hd, hlocked]
      exact ⟨d.dev, hwarming, hnot, hstart.tail hstep⟩
    | succ j ih =>
      intro hj
      obtain ⟨dev, hdev, hnot, cs, hcs, hlen⟩ := ih (by omega)
      obtain ⟨r, hread, hnext, hhealth⟩ := hdev.next (by omega) hnot d.multiplier fun _ => 0
      obtain ⟨cs', hcs', hlen'⟩ :=
        hcs.tail (warmupStep_reads rfl hnot (by omega) hdev.present hread)
      refine ⟨r.dev, hnext, ?_, cs', hcs', by rw [hlen', hlen]⟩
      rcases hok : infnoiseHealthOk r.dev.health with _ | _
      · rfl
      · rw [hhealth] at hok
        exact absurd ⟨j, by omega, dev, hdev, hnot, hok, cs, hcs, hlen⟩ hnone
  obtain ⟨dev, hdev, -, -⟩ := hgoes 371 le_rfl
  exact hdev.low.lt (by norm_num [okRate]) hdev.fed.bounds rfl

lemma infnoiseProbe_warming (clockBuf usbBuf readBuf outBuf : ℕ → Byte) (multiplier : ℕ)
    (rawMode : Bool) :
    (infnoiseProbe clockBuf usbBuf readBuf outBuf multiplier rawMode).dev.Warming 0 where
  fed := infnoiseHealthInit_fed
  low h := absurd h (by norm_num)
  present := rfl
  healthFail := rfl
  keccakBytesLeft := rfl

/-- The warm-up ends well. -/
lemma exists_warm {d : Driver} (hd : d.warmup = .scheduled) (hlocked : d.locked = false)
    (hwarming : d.dev.Warming 0) :
    ∃ j dev, 157 ≤ j ∧ j < 372 ∧ dev.Warming j ∧ infnoiseHealthOk dev.health = true ∧
      ∃ cs, WarmupRun d cs { d with
        dev, locked := false, warmupDone := true, completions := d.completions + 1,
        warmup := .finished } ∧ cs.length = j + 4 := by
  obtain ⟨j, hj, dev, hdev, hnot, hlast, cs, hcs, hlen⟩ := exists_last_block d hd hlocked hwarming
  obtain ⟨r, hread, hnext, hhealth⟩ := hdev.next (by omega) hnot d.multiplier fun _ => 0
  have hok : infnoiseHealthOk r.dev.health = true := by rw [hhealth, hlast]
  have h157 : 157 ≤ j + 1 := by
    have := (hnext.fed.excess_of_ok hok).1
    omega
  refine ⟨j + 1, r.dev, h157, by omega, hnext, hok, ?_⟩
  have hcheck : ({ d with
      dev := r.dev, locked := false, warmup := .checking (j + 1) } : Driver).warmupStep
        (fun _ => registerScript 0) (fun _ => 0) =
          some (.silent, { d with
            dev := r.dev, locked := false, warmupDone := true, warmup := .completing }) := by
    rw [Driver.warmupStep]
    dsimp only
    rw [if_neg (by simp [hnext.present]), if_neg (by simp only [infnoiseWarmupRounds]; omega)]
  have hcomplete : ({ d with
      dev := r.dev, locked := false, warmupDone := true, warmup := .completing } : Driver).warmupStep
        (fun _ => registerScript 0) (fun _ => 0) =
          some (.silent, { d with
            dev := r.dev, locked := false, warmupDone := true, completions := d.completions + 1,
            warmup := .finished }) := rfl
  obtain ⟨cs₁, hcs₁, h₁⟩ := hcs.tail (warmupStep_reads rfl hnot (by omega) hdev.present hread)
  obtain ⟨cs₂, hcs₂, h₂⟩ :=
    hcs₁.tail (warmupStep_leaves rfl hok (fun _ => registerScript 0) fun _ => 0)
  obtain ⟨cs₃, hcs₃, h₃⟩ := hcs₂.tail hcheck
  obtain ⟨cs₄, hcs₄, h₄⟩ := hcs₃.tail hcomplete
  exact ⟨cs₄, hcs₄, by omega⟩

/-- The driver of the examples after its warm-up. -/
def warmed (dev : Device) : Driver :=
  { probed with
    dev, locked := false, warmupDone := true, completions := 1, warmup := .finished }

lemma exists_warmed : ∃ j dev cs, 157 ≤ j ∧ j < 372 ∧ dev.Warming j ∧
    infnoiseHealthOk dev.health = true ∧ WarmupRun probed cs (warmed dev) ∧
    cs.length = j + 4 := by
  obtain ⟨j, dev, h157, h372, hwarming, hok, cs, hwarm, hlen⟩ := exists_warm (d := probed) rfl rfl
    (infnoiseProbe_warming _ _ _ _ _ _)
  exact ⟨j, dev, cs, h157, h372, hwarming, hok, hwarm, hlen⟩

/-! ### The block after the warm-up -/

/-- A block of 512 samples is on target with 437 bits. -/
lemma infnoiseHealthEntropyOnTarget_of_le {entropy : ℕ} (hlow : 437 ≤ entropy)
    (hhigh : entropy ≤ 1024) : infnoiseHealthEntropyOnTarget entropy infnoiseBuflen = true := by
  have hexpected : u32 ((fpMul (u32 (infnoiseBuflen <<< fpShift)) inmExpectedEntropyFp >>>
      fpShift) <<< fpShift) = 29491200 := by decide
  rw [infnoiseHealthEntropyOnTarget]
  simp only [hexpected, decide_eq_true_iff, ge_iff_le, inmAccuracyFp]
  rw [u32_of_lt (by omega)]
  omega

lemma Device.Warming.good {j : ℕ} {dev : Device} (h : dev.Warming j) (h157 : 157 ≤ j)
    (h372 : j < 372) (hok : infnoiseHealthOk dev.health = true) :
    (infnoiseHealthOk (fedBits (512 * j) (infnoiseHealthClearEntropy dev.health) 512) &&
      infnoiseHealthEntropyOnTarget
        (fedBits (512 * j) (infnoiseHealthClearEntropy dev.health) 512).entropyLevel
        infnoiseBuflen) = true := by
  have hpath := h.fed.clearEntropy.path rfl (by omega)
  obtain ⟨hfed, hle⟩ := h.fed.clearEntropy.bits rfl (k := 512) (by omega)
  have h0 : 0 ≤ excess okRate (512 * j)
      (fedBits (512 * j) (infnoiseHealthClearEntropy dev.health) 0).numBitsOfEntropy := by
    rw [fedBits_zero]
    exact (h.fed.excess_of_ok hok).2
  have h700 : excess okRate (512 * j)
      (fedBits (512 * j) (infnoiseHealthClearEntropy dev.health) 0).numBitsOfEntropy ≤ 700 := by
    rw [fedBits_zero]
    exact (h.low h157).trans (by norm_num)
  obtain ⟨hlow, hhigh⟩ := hpath.excess_bounds (by norm_num [okRate]) (by norm_num [okRate]) h157
    h372 h0 h700 (k := 512) (by norm_num) le_rfl
  have hlevel := hpath.le_level (by norm_num [okRate]) (by norm_num [okRate]) h157 h372 h0 h700
  rw [Bool.and_eq_true]
  exact ⟨hfed.ok_of_excess (by omega) (le_trans (by norm_num) hlow) hhigh,
    infnoiseHealthEntropyOnTarget_of_le hlevel hle⟩

/-- The device after the transfer of that block. -/
structure Device.Loaded (j : ℕ) (dev dev' : Device) : Prop where
  fed : dev'.health.Fed (512 * (j + 1))
  outBuf_eq : ∀ i < 64, dev'.outBuf i = blockByte (512 * j) i
  keccak_eq : dev'.keccak = dev.keccak
  ok : infnoiseHealthOk dev'.health = true
  present : dev'.present = true
  healthFail : dev'.healthFail = false

/-- A whitened read absorbs it. -/
lemma Device.Warming.readData {j : ℕ} {dev : Device} (h : dev.Warming j) (h157 : 157 ≤ j)
    (h372 : j < 372) (hok : infnoiseHealthOk dev.health = true) (multiplier : ℕ)
    (result : ℕ → Byte) (maxLen : ℕ) :
    ∃ dev' entropy, dev.Loaded j dev' ∧ infnoiseReadData dev multiplier
      (fun _ => registerScript (512 * j)) result maxLen false =
        some (absorbAndSqueeze dev' multiplier entropy result maxLen) := by
  obtain ⟨usbBuf, readBuf, htransfer⟩ := infnoiseUsbTransfer_fed h.fed (by omega)
  obtain ⟨hfed, _⟩ := h.fed.clearEntropy.bits rfl (k := 512) (by omega)
  rw [show 512 * j + 512 = 512 * (j + 1) by ring] at hfed
  have hgood := Bool.and_eq_true_iff.mp (h.good h157 h372 hok)
  refine ⟨_, _, ?_, infnoiseReadData_absorb h.present h.keccakBytesLeft htransfer hgood.1 hgood.2
    multiplier result maxLen⟩
  exact ⟨hfed, fun i hi => if_pos hi, rfl, hgood.1, h.present, h.healthFail⟩

/-- A device that warms up, and the block that a whitened read of it absorbs, whatever the other
arguments. -/
theorem exists_warm_read : ∃ j dev, dev.Warming j ∧ 157 ≤ j ∧ j < 372 ∧
    infnoiseHealthOk dev.health = true ∧
    ∀ multiplier result maxLen, ∃ dev' entropy, dev.Loaded j dev' ∧
      infnoiseReadData dev multiplier (fun _ => registerScript (512 * j)) result maxLen false =
        some (absorbAndSqueeze dev' multiplier entropy result maxLen) := by
  obtain ⟨j, dev, _, h157, h372, hwarming, hok, _⟩ := exists_warmed
  exact ⟨j, dev, hwarming, h157, h372, hok, hwarming.readData h157 h372 hok⟩

end Kernel
