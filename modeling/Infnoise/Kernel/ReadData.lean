import Infnoise.Kernel.Device
import Infnoise.Kernel.HealthSafety

/-!
# What a call of `infnoise_read_data` can do

One inversion lemma for each function on the way: the extraction, an attempt, the transfer and
the call itself. The modules on whole runs use these and unfold nothing.
-/

namespace Kernel

open Core

/-! ### The entropy level is a 32-bit word -/

lemma doublingLoop_level_lt {fuel : ℕ} {h h' : Health} (hloop : doublingLoop fuel h = some h')
    (hlt : h.entropyLevel < 4294967296) : h'.entropyLevel < 4294967296 := by
  induction fuel generalizing h with
  | zero =>
    simp only [doublingLoop] at hloop
    split at hloop
    · cases hloop
    · cases hloop
      exact hlt
  | succ fuel ih =>
    simp only [doublingLoop] at hloop
    split at hloop
    · apply ih hloop
      simp only [Health.countBit]
      split
      · exact u32_lt _
      · exact hlt
    · cases hloop
      exact hlt

lemma Health.finishBit_level (h : Health) (bit even : Bool) :
    (h.finishBit bit even).entropyLevel = h.entropyLevel := by
  obtain ⟨z, o, hz⟩ := scaleZeroOneCounts_frame (scaleEntropy (h.countSample.updateTables bit even))
  obtain ⟨e, s, em, om, he⟩ := scaleEntropy_frame (h.countSample.updateTables bit even)
  obtain ⟨oe, ze, oo, zo, ht⟩ := h.countSample.updateTables_frame bit even
  rw [finishBit, hz, he, ht]
  rfl

lemma infnoiseHealthAddBit_level_lt {h h' : Health} {evenBit oddBit even ok : Bool}
    (hadd : infnoiseHealthAddBit h evenBit oddBit even = some (ok, h'))
    (hlt : h.entropyLevel < 4294967296) : h'.entropyLevel < 4294967296 := by
  obtain ⟨_, _, _, _, hstuck⟩ := (h.observe evenBit oddBit even).checkStuck_eq
    (selectBit evenBit oddBit even)
  rcases infnoiseHealthAddBit_returned hadd with ⟨-, -, rfl⟩ | ⟨-, -, h₁, hloop, rfl⟩
  · rw [hstuck]
    exact hlt
  · rw [Health.finishBit_level]
    apply doublingLoop_level_lt hloop
    rw [Health.enterLoop, Health.updateProb_eq, hstuck]
    exact hlt

/-! ### The extraction -/

lemma extractBit_level_lt {inBuf : ℕ → Byte} (i j : ℕ) (s s' : Byte × Health) (ok : Bool)
    (h : extractBit inBuf i j s = some (ok, s')) (hlt : s.2.entropyLevel < 4294967296) :
    s'.2.entropyLevel < 4294967296 := by
  rw [extractBit, Option.map_eq_some_iff] at h
  obtain ⟨⟨ok', health⟩, hadd, heq⟩ := h
  cases heq
  exact infnoiseHealthAddBit_level_lt hadd hlt

lemma extractByte_level_lt {inBuf : ℕ → Byte} (i : ℕ) (s s' : (ℕ → Byte) × Health) (ok : Bool)
    (h : extractByte inBuf i s = some (ok, s')) (hlt : s.2.entropyLevel < 4294967296) :
    s'.2.entropyLevel < 4294967296 := by
  rw [extractByte, Option.map_eq_some_iff] at h
  obtain ⟨⟨ok', byte, health⟩, hloop, heq⟩ := h
  cases heq
  exact forWhile_keeps (I := fun t : Byte × Health => t.2.entropyLevel < 4294967296)
    (fun j _ => extractBit_level_lt i j) hloop hlt

/-- The extraction works on the health checker and the output buffer only. When it succeeds it
returns the entropy level; when it fails it sets the flag and returns `-EIO`. -/
lemma infnoiseExtractBytes_cases {dev dev' : Device} {length : ℕ} {inBuf : ℕ → Byte}
    {ret : Except Errno ℕ} (h : infnoiseExtractBytes dev length inBuf = some (ret, dev')) :
    ∃ outBuf health, (ret = .ok (infnoiseHealthGetEntropy health) ∧
        infnoiseHealthGetEntropy health < 4294967296 ∧ dev' = { dev with outBuf, health }) ∨
      (ret = .error .eio ∧ dev' = { dev with outBuf, health, healthFail := true }) := by
  rw [infnoiseExtractBytes, Option.map_eq_some_iff] at h
  obtain ⟨⟨ok, outBuf, health⟩, hloop, heq⟩ := h
  have hlevel : health.entropyLevel < 4294967296 :=
    forWhile_keeps (I := fun t : (ℕ → Byte) × Health => t.2.entropyLevel < 4294967296)
      (fun i _ => extractByte_level_lt i) hloop (Nat.zero_lt_succ _)
  refine ⟨outBuf, health, ?_⟩
  cases ok
  · cases heq
    exact .inr ⟨rfl, rfl⟩
  · cases heq
    exact .inl ⟨rfl, hlevel, rfl⟩

/-! ### The transfer -/

/-- What a transfer leaves alone: the sponge and its counters, and the flag of a device that is
present. The flag of a failed health check is never cleared. -/
structure Device.Transferred (dev dev' : Device) : Prop where
  clockBuf_eq : dev'.clockBuf = dev.clockBuf
  keccak_eq : dev'.keccak = dev.keccak
  keccakBytesLeft_eq : dev'.keccakBytesLeft = dev.keccakBytesLeft
  present_eq : dev'.present = dev.present
  bytesGenerated_eq : dev'.bytesGenerated = dev.bytesGenerated
  healthFail_mono : dev.healthFail = true → dev'.healthFail = true

lemma Device.Transferred.refl (dev : Device) : dev.Transferred dev :=
  ⟨rfl, rfl, rfl, rfl, rfl, id⟩

lemma Device.Transferred.trans {dev dev' dev'' : Device} (h : dev.Transferred dev')
    (h' : dev'.Transferred dev'') : dev.Transferred dev'' where
  clockBuf_eq := h'.clockBuf_eq.trans h.clockBuf_eq
  keccak_eq := h'.keccak_eq.trans h.keccak_eq
  keccakBytesLeft_eq := h'.keccakBytesLeft_eq.trans h.keccakBytesLeft_eq
  present_eq := h'.present_eq.trans h.present_eq
  bytesGenerated_eq := h'.bytesGenerated_eq.trans h.bytesGenerated_eq
  healthFail_mono hfail := h'.healthFail_mono (h.healthFail_mono hfail)

/-- What an attempt and a transfer return when they succeed. -/
def ReturnsLevel (ret : Except Errno ℕ) (dev : Device) : Prop :=
  ∀ entropy, ret = .ok entropy →
    entropy = infnoiseHealthGetEntropy dev.health ∧ entropy < 4294967296

lemma infnoiseUsbTransferOnce_cases {dev dev' : Device} {script : AttemptScript}
    {ret : Except Errno ℕ} (h : infnoiseUsbTransferOnce dev script = some (ret, dev')) :
    dev.Transferred dev' ∧ ReturnsLevel ret dev' ∧
      (dev'.healthFail = dev.healthFail ∨ dev'.healthFail = true ∧ ret = .error .eio) := by
  rw [infnoiseUsbTransferOnce] at h
  rcases hrecv : receiveSamples script.write script.reads dev.usbBuf dev.readBuf with
    ⟨_ | e, usbBuf, readBuf⟩
  · rw [hrecv] at h
    obtain ⟨outBuf, health, ⟨rfl, hlt, rfl⟩ | ⟨rfl, rfl⟩⟩ := infnoiseExtractBytes_cases h
    · refine ⟨⟨rfl, rfl, rfl, rfl, rfl, id⟩, ?_, .inl rfl⟩
      intro entropy heq
      cases heq
      exact ⟨rfl, hlt⟩
    · refine ⟨⟨rfl, rfl, rfl, rfl, rfl, fun _ => rfl⟩, ?_, .inr ⟨rfl, rfl⟩⟩
      intro entropy heq
      cases heq
  · rw [hrecv] at h
    cases h
    refine ⟨⟨rfl, rfl, rfl, rfl, rfl, id⟩, ?_, .inl rfl⟩
    intro entropy heq
    cases heq

lemma infnoiseTryRecovery_frame (dev : Device) (script : RecoveryScript) :
    dev.Transferred (infnoiseTryRecovery dev script).2 ∧
      (infnoiseTryRecovery dev script).2.healthFail = dev.healthFail ∧
      (infnoiseTryRecovery dev script).2.health = dev.health := by
  rw [infnoiseTryRecovery]
  split
  · exact ⟨.refl dev, rfl, rfl⟩
  · rcases (recoveryRequests script).2 with _ | e
    · exact ⟨⟨rfl, rfl, rfl, rfl, rfl, id⟩, rfl, rfl⟩
    · exact ⟨.refl dev, rfl, rfl⟩

/-- After an attempt only counters change, and the transfer succeeds only if the attempt did. -/
lemma afterAttempt_cases (dev : Device) (script : AttemptScript) (ret : Except Errno ℕ) :
    dev.Transferred (afterAttempt dev script ret).2 ∧
      (afterAttempt dev script ret).2.healthFail = dev.healthFail ∧
      (afterAttempt dev script ret).2.health = dev.health ∧
      ∀ entropy, (afterAttempt dev script ret).1 = some (.ok entropy) → ret = .ok entropy := by
  rcases ret with e | entropy
  · simp only [afterAttempt]
    split
    · refine ⟨⟨rfl, rfl, rfl, rfl, rfl, id⟩, rfl, rfl, ?_⟩
      intro entropy heq
      cases heq
    · split
      · have hrec := infnoiseTryRecovery_frame { dev with
          usbErrors := u32 (dev.usbErrors + 1)
          consecutiveErrors := u32 (dev.consecutiveErrors + 1) } script.recovery
        rcases hcase : infnoiseTryRecovery { dev with
          usbErrors := u32 (dev.usbErrors + 1)
          consecutiveErrors := u32 (dev.consecutiveErrors + 1) } script.recovery
          with ⟨_ | e', dev'⟩
        · rw [hcase] at hrec
          obtain ⟨hframe, hfail, hhealth⟩ := hrec
          exact ⟨⟨hframe.1, hframe.2, hframe.3, hframe.4, hframe.5, hframe.6⟩, hfail, hhealth,
            by simp⟩
        · rw [hcase] at hrec
          obtain ⟨hframe, hfail, hhealth⟩ := hrec
          exact ⟨⟨hframe.1, hframe.2, hframe.3, hframe.4, hframe.5, hframe.6⟩, hfail, hhealth,
            by simp⟩
      · refine ⟨⟨rfl, rfl, rfl, rfl, rfl, id⟩, rfl, rfl, ?_⟩
        intro entropy heq
        cases heq
  · refine ⟨⟨rfl, rfl, rfl, rfl, rfl, id⟩, rfl, rfl, ?_⟩
    intro entropy' heq
    rw [afterAttempt, Option.some.injEq] at heq
    exact heq

lemma transferLoop_cases {scripts : ℕ → AttemptScript} {retries : ℕ} {last ret : Except Errno ℕ}
    {dev dev' : Device} (hlast : ReturnsLevel last dev)
    (h : transferLoop scripts retries last dev = some (ret, dev')) :
    dev.Transferred dev' ∧ ReturnsLevel ret dev' := by
  induction retries generalizing last dev with
  | zero =>
    cases h
    exact ⟨.refl _, hlast⟩
  | succ retries ih =>
    simp only [transferLoop] at h
    rcases honce : infnoiseUsbTransferOnce dev
      (scripts (infnoiseMaxRetries - (retries + 1))) with _ | ⟨ret₁, dev₁⟩
    · rw [honce] at h
      cases h
    · rw [honce] at h
      obtain ⟨hframe, hlevel, _⟩ := infnoiseUsbTransferOnce_cases honce
      obtain ⟨hframe', hfail, hhealth, hok⟩ := afterAttempt_cases dev₁
        (scripts (infnoiseMaxRetries - (retries + 1))) ret₁
      have hlevel' : ReturnsLevel ret₁ (afterAttempt dev₁
          (scripts (infnoiseMaxRetries - (retries + 1))) ret₁).2 := by
        intro entropy heq
        rw [hhealth]
        exact hlevel entropy heq
      rcases hafter : afterAttempt dev₁ (scripts (infnoiseMaxRetries - (retries + 1))) ret₁
        with ⟨_ | ret₂, dev₂⟩
      · simp only [hafter] at h hframe' hlevel'
        obtain ⟨hrest, hret⟩ := ih hlevel' h
        exact ⟨(hframe.trans hframe').trans hrest, hret⟩
      · simp only [hafter] at h hframe' hlevel' hok
        cases h
        refine ⟨hframe.trans hframe', ?_⟩
        intro entropy heq
        subst heq
        exact hlevel' entropy (hok entropy rfl)

lemma infnoiseUsbTransfer_cases {dev dev' : Device} {scripts : ℕ → AttemptScript}
    {ret : Except Errno ℕ} (h : infnoiseUsbTransfer dev scripts = some (ret, dev')) :
    dev.Transferred dev' ∧ ReturnsLevel ret dev' := by
  refine transferLoop_cases ?_ h
  intro entropy heq
  cases heq

/-! ### Every transfer returns -/

lemma infnoiseExtractBytes_returns {dev : Device} (hinv : dev.health.Inv) (length : ℕ)
    (inBuf : ℕ → Byte) :
    ∃ ret dev', infnoiseExtractBytes dev length inBuf = some (ret, dev') ∧ dev'.health.Inv := by
  have hbit : ∀ i j (s : Byte × Health), s.2.Inv →
      ∃ r, extractBit inBuf i j s = some r ∧ r.2.2.Inv := by
    intro i j s hs
    obtain ⟨⟨ok, h⟩, hadd, hh⟩ := infnoiseHealthAddBit_returns hs (evenBitOf (inBuf (i * 8 + j)))
      (oddBitOf (inBuf (i * 8 + j))) (j % 2 == 1)
    exact ⟨_, by rw [extractBit, hadd]; rfl, hh⟩
  have hbyte : ∀ i (s : (ℕ → Byte) × Health), s.2.Inv →
      ∃ r, extractByte inBuf i s = some r ∧ r.2.2.Inv := by
    intro i s hs
    obtain ⟨⟨ok, byte, h⟩, hloop, hh⟩ : ∃ r, forWhile 8 (extractBit inBuf i) (0, s.2) = some r ∧
        r.2.2.Inv := forWhile_returns (fun s => s.2.Inv) hs fun j _ s hs => hbit i j s hs
    exact ⟨_, by rw [extractByte, hloop]; rfl, hh⟩
  obtain ⟨⟨ok, outBuf, h⟩, hloop, hh⟩ : ∃ r, forWhile length (extractByte inBuf)
      (dev.outBuf, infnoiseHealthClearEntropy dev.health) = some r ∧ r.2.2.Inv :=
    forWhile_returns (fun s => s.2.Inv) (infnoiseHealthClearEntropy_inv hinv)
      fun i _ s hs => hbyte i s hs
  rw [infnoiseExtractBytes, hloop]
  rcases ok with _ | _
  · exact ⟨.error .eio, { dev with outBuf, health := h, healthFail := true }, rfl, hh⟩
  · exact ⟨.ok (infnoiseHealthGetEntropy h), { dev with outBuf, health := h }, rfl, hh⟩

lemma infnoiseUsbTransferOnce_returns {dev : Device} (hinv : dev.health.Inv)
    (script : AttemptScript) :
    ∃ ret dev', infnoiseUsbTransferOnce dev script = some (ret, dev') ∧ dev'.health.Inv := by
  rw [infnoiseUsbTransferOnce]
  rcases receiveSamples script.write script.reads dev.usbBuf dev.readBuf with
    ⟨_ | e, usbBuf, readBuf⟩
  · have hinv' : ({ dev with usbBuf, readBuf } : Device).health.Inv := hinv
    exact infnoiseExtractBytes_returns hinv' _ _
  · exact ⟨.error e, { dev with usbBuf, readBuf }, rfl, hinv⟩

lemma transferLoop_returns (scripts : ℕ → AttemptScript) (retries : ℕ) (last : Except Errno ℕ)
    {dev : Device} (hinv : dev.health.Inv) :
    ∃ ret dev', transferLoop scripts retries last dev = some (ret, dev') ∧ dev'.health.Inv := by
  induction retries generalizing last dev with
  | zero => exact ⟨_, _, rfl, hinv⟩
  | succ retries ih =>
    obtain ⟨ret₁, dev₁, honce, hinv₁⟩ := infnoiseUsbTransferOnce_returns hinv
      (scripts (infnoiseMaxRetries - (retries + 1)))
    obtain ⟨_, _, hhealth, _⟩ := afterAttempt_cases dev₁
      (scripts (infnoiseMaxRetries - (retries + 1))) ret₁
    rcases hafter : afterAttempt dev₁ (scripts (infnoiseMaxRetries - (retries + 1))) ret₁
      with ⟨_ | ret₂, dev₂⟩
    · rw [hafter] at hhealth
      have hinv₂ : dev₂.health.Inv := by
        rw [hhealth]
        exact hinv₁
      obtain ⟨ret, dev', hloop, hinv'⟩ := ih ret₁ hinv₂
      exact ⟨ret, dev', by simp only [transferLoop, honce, hafter, hloop], hinv'⟩
    · rw [hafter] at hhealth
      exact ⟨ret₂, dev₂, by simp only [transferLoop, honce, hafter], by rw [hhealth]; exact hinv₁⟩

lemma infnoiseUsbTransfer_returns {dev : Device} (hinv : dev.health.Inv)
    (scripts : ℕ → AttemptScript) :
    ∃ ret dev', infnoiseUsbTransfer dev scripts = some (ret, dev') ∧ dev'.health.Inv :=
  transferLoop_returns scripts infnoiseMaxRetries (.error .eio) hinv

/-! ### The squeeze -/

/-- How many bytes a squeeze returns. -/
def squeezeSize (dev : Device) (maxLen : ℕ) : ℕ := min (min maxLen dev.keccakBytesLeft) 128

lemma squeezeSize_le (dev : Device) (maxLen : ℕ) :
    squeezeSize dev maxLen ≤ dev.keccakBytesLeft :=
  (min_le_left _ _).trans (min_le_right _ _)

@[simp] lemma squeezeLeft_ret (dev : Device) (result : ℕ → Byte) (maxLen : ℕ) :
    (squeezeLeft dev result maxLen).ret = .ok (squeezeSize dev maxLen) := rfl

@[simp] lemma squeezeLeft_result (dev : Device) (result : ℕ → Byte) (maxLen : ℕ) :
    (squeezeLeft dev result maxLen).result =
      infnoiseKeccakExtract dev.keccak result ((squeezeSize dev maxLen + 7) / 8) := rfl

@[simp] lemma squeezeLeft_ops (dev : Device) (result : ℕ → Byte) (maxLen : ℕ) :
    (squeezeLeft dev result maxLen).ops =
      [.extract ((squeezeSize dev maxLen + 7) / 8), .permute] := rfl

@[simp] lemma squeezeLeft_dev (dev : Device) (result : ℕ → Byte) (maxLen : ℕ) :
    (squeezeLeft dev result maxLen).dev = { dev with
      keccak := infnoiseKeccakPermutation dev.keccak
      keccakBytesLeft := subU32 dev.keccakBytesLeft (squeezeSize dev maxLen)
      bytesGenerated := u64 (dev.bytesGenerated + squeezeSize dev maxLen) } := by
  rw [squeezeLeft]
  rfl

@[simp] lemma absorbAndSqueeze_ret (dev : Device) (multiplier entropy : ℕ) (result : ℕ → Byte)
    (maxLen : ℕ) : (absorbAndSqueeze dev multiplier entropy result maxLen).ret =
      .ok (squeezeSize (dev.absorb multiplier entropy) maxLen) := rfl

@[simp] lemma absorbAndSqueeze_dev (dev : Device) (multiplier entropy : ℕ) (result : ℕ → Byte)
    (maxLen : ℕ) : (absorbAndSqueeze dev multiplier entropy result maxLen).dev =
      (squeezeLeft (dev.absorb multiplier entropy) result maxLen).dev := rfl

@[simp] lemma absorbAndSqueeze_ops (dev : Device) (multiplier entropy : ℕ) (result : ℕ → Byte)
    (maxLen : ℕ) : (absorbAndSqueeze dev multiplier entropy result maxLen).ops =
      .absorb (blockOf dev.outBuf) ::
        (squeezeLeft (dev.absorb multiplier entropy) result maxLen).ops := rfl

@[simp] lemma Device.absorb_keccakBytesLeft (dev : Device) (multiplier entropy : ℕ) :
    (dev.absorb multiplier entropy).keccakBytesLeft = u32 (outputBudget multiplier entropy) := rfl

@[simp] lemma Device.absorb_health (dev : Device) (multiplier entropy : ℕ) :
    (dev.absorb multiplier entropy).health = dev.health := by
  rw [Device.absorb]

/-! ### The call -/

/-- The ways a call of `infnoise_read_data` can go. -/
inductive ReadStep (dev : Device) (multiplier : ℕ) (scripts : ℕ → AttemptScript)
    (result : ℕ → Byte) (maxLen : ℕ) (raw : Bool) : ReadResult → Prop where
  /-- The device is gone. -/
  | absent (hpresent : dev.present = false) :
    ReadStep dev multiplier scripts result maxLen raw ⟨.error .enodev, result, dev, []⟩
  /-- Bytes are left from an earlier block. -/
  | squeezed (hpresent : dev.present = true) (hraw : raw = false) (hleft : 0 < dev.keccakBytesLeft) :
    ReadStep dev multiplier scripts result maxLen raw (squeezeLeft dev result maxLen)
  /-- The transfer fails. -/
  | failed {e : Errno} {dev' : Device} (hpresent : dev.present = true)
      (htransfer : infnoiseUsbTransfer dev scripts = some (.error e, dev')) :
    ReadStep dev multiplier scripts result maxLen raw ⟨.error e, result, dev', []⟩
  /-- The block is not good enough. -/
  | rejected {entropy : ℕ} {dev' : Device} (hpresent : dev.present = true)
      (htransfer : infnoiseUsbTransfer dev scripts = some (.ok entropy, dev'))
      (hbad : (infnoiseHealthOk dev'.health &&
        infnoiseHealthEntropyOnTarget entropy infnoiseBuflen) = false) :
    ReadStep dev multiplier scripts result maxLen raw ⟨.ok 0, result, dev', []⟩
  /-- The block is returned as it is. -/
  | rawBlock {entropy : ℕ} {dev' : Device} (hpresent : dev.present = true)
      (htransfer : infnoiseUsbTransfer dev scripts = some (.ok entropy, dev'))
      (hgood : (infnoiseHealthOk dev'.health &&
        infnoiseHealthEntropyOnTarget entropy infnoiseBuflen) = true) (hraw : raw = true) :
    ReadStep dev multiplier scripts result maxLen raw
      ⟨.ok (min maxLen infnoiseBytesOut), memcpy result 0 dev'.outBuf (min maxLen infnoiseBytesOut),
        { dev' with bytesGenerated := u64 (dev'.bytesGenerated + min maxLen infnoiseBytesOut) }, []⟩
  /-- The block goes into the sponge, and the first bytes are squeezed. -/
  | absorbed {entropy : ℕ} {dev' : Device} (hpresent : dev.present = true)
      (htransfer : infnoiseUsbTransfer dev scripts = some (.ok entropy, dev'))
      (hgood : (infnoiseHealthOk dev'.health &&
        infnoiseHealthEntropyOnTarget entropy infnoiseBuflen) = true) (hraw : raw = false)
      (hleft : dev.keccakBytesLeft = 0) :
    ReadStep dev multiplier scripts result maxLen raw
      (absorbAndSqueeze dev' multiplier entropy result maxLen)

lemma infnoiseReadData_step {dev : Device} {multiplier : ℕ} {scripts : ℕ → AttemptScript}
    {result : ℕ → Byte} {maxLen : ℕ} {raw : Bool} {r : ReadResult}
    (h : infnoiseReadData dev multiplier scripts result maxLen raw = some r) :
    ReadStep dev multiplier scripts result maxLen raw r := by
  rw [infnoiseReadData] at h
  split at h
  · rename_i hpresent
    cases h
    exact .absent (by simpa using hpresent)
  · rename_i hpresent
    have hpresent : dev.present = true := by simpa using hpresent
    split at h
    · rename_i hleft
      cases h
      exact .squeezed hpresent (by simpa using hleft.2) hleft.1
    · rename_i hleft
      rw [Option.map_eq_some_iff] at h
      obtain ⟨⟨e | entropy, dev'⟩, htransfer, heq⟩ := h
      · cases heq
        exact .failed hpresent htransfer
      · dsimp only at heq
        split at heq
        · rename_i hok
          cases heq
          refine .rejected hpresent htransfer ?_
          rw [Bool.and_eq_false_iff]
          exact .inl (by simpa using hok)
        · rename_i hok
          split at heq
          · rename_i htarget
            cases heq
            refine .rejected hpresent htransfer ?_
            rw [Bool.and_eq_false_iff]
            exact .inr (by simpa using htarget)
          · rename_i htarget
            have hgood : (infnoiseHealthOk dev'.health &&
                infnoiseHealthEntropyOnTarget entropy infnoiseBuflen) = true := by
              rw [Bool.and_eq_true]
              exact ⟨by simpa using hok, by simpa using htarget⟩
            split at heq
            · rename_i hraw
              cases heq
              exact .rawBlock hpresent htransfer hgood hraw
            · rename_i hraw
              have hraw : raw = false := by simpa using hraw
              cases heq
              refine .absorbed hpresent htransfer hgood hraw ?_
              simpa [hraw] using hleft

/-- A block that passes both tests goes into the sponge. -/
lemma infnoiseReadData_absorb {dev dev' : Device} {scripts : ℕ → AttemptScript} {entropy : ℕ}
    (hpresent : dev.present = true) (hleft : dev.keccakBytesLeft = 0)
    (htransfer : infnoiseUsbTransfer dev scripts = some (.ok entropy, dev'))
    (hok : infnoiseHealthOk dev'.health = true)
    (htarget : infnoiseHealthEntropyOnTarget entropy infnoiseBuflen = true) (multiplier : ℕ)
    (result : ℕ → Byte) (maxLen : ℕ) :
    infnoiseReadData dev multiplier scripts result maxLen false =
      some (absorbAndSqueeze dev' multiplier entropy result maxLen) := by
  have hread := infnoiseReadData.eq_1 dev multiplier scripts result maxLen false
  rw [hpresent, hleft, htransfer] at hread
  simp only [Option.map_some, hok, htarget] at hread
  exact hread

/-- A call returns. -/
lemma infnoiseReadData_returns {dev : Device} (hinv : dev.health.Inv) (multiplier : ℕ)
    (scripts : ℕ → AttemptScript) (result : ℕ → Byte) (maxLen : ℕ) (raw : Bool) :
    ∃ r, infnoiseReadData dev multiplier scripts result maxLen raw = some r := by
  obtain ⟨ret, dev', htransfer, _⟩ := infnoiseUsbTransfer_returns hinv scripts
  rw [infnoiseReadData, htransfer]
  split
  · exact ⟨_, rfl⟩
  · split
    · exact ⟨_, rfl⟩
    · exact ⟨_, rfl⟩

end Kernel
