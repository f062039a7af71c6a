import Infnoise.Userspace.Extraction

/-!
# What a call of `readData` can do

One inversion lemma for each function on the way: the health checker, the extraction, the chunk
and the call itself. The modules on whole runs use these and unfold nothing.
-/

namespace Userspace

open Core Reference
open Kernel (KeccakState SpongeOp selectBit)

/-! ### The health checker -/

/-- A property of the health checker that every part of `inmHealthCheckAddBit` keeps. -/
structure HealthState.Kept (I : HealthState → Prop) : Prop where
  observe : ∀ hc evenBit oddBit even, I hc → I (hc.observe evenBit oddBit even)
  checkStuck : ∀ hc bit, I hc → I (hc.checkStuck bit).2
  updateProbability : ∀ hc bit even, I hc → I (hc.updateProbability bit even)
  countBit : ∀ hc, I hc → I hc.countBit
  finishBit : ∀ hc bit even, I hc → I (hc.finishBit bit even)

namespace HealthState.Kept

variable {I : HealthState → Prop}

lemma doublingLoop (hI : Kept I) {fuel : ℕ} {hc hc' : HealthState}
    (h : Userspace.doublingLoop fuel hc = some hc') (hhc : I hc) : I hc' := by
  induction fuel generalizing hc with
  | zero =>
    rw [Userspace.doublingLoop] at h
    split at h
    · cases h
    · cases h
      exact hhc
  | succ fuel ih =>
    rw [Userspace.doublingLoop] at h
    split at h
    · exact ih h (hI.countBit hc hhc)
    · cases h
      exact hhc

lemma addBit (hI : Kept I) {hc hc' : HealthState} {evenBit oddBit even ok : Bool}
    (h : inmHealthCheckAddBit hc evenBit oddBit even = some (ok, hc')) (hhc : I hc) : I hc' := by
  have hstuck := hI.checkStuck _ (selectBit evenBit oddBit even)
    (hI.observe hc evenBit oddBit even hhc)
  rcases inmHealthCheckAddBit_returned h with ⟨-, -, rfl⟩ | ⟨-, -, hc₁, hloop, rfl⟩
  · exact hstuck
  · exact hI.finishBit _ _ _ (hI.doublingLoop hloop (hI.updateProbability _ _ _ hstuck))

end HealthState.Kept

/-- What `inmHealthCheckStart` sets once. -/
def HealthState.config (hc : HealthState) : ℕ × Float × Float × Bool :=
  (hc.n, hc.k, hc.expectedEntropyPerBit, hc.debug)

lemma HealthState.finishBit_keeps (hc : HealthState) (bit even : Bool) :
    (hc.finishBit bit even).config = hc.config ∧
      (hc.finishBit bit even).entropyLevel = hc.entropyLevel := by
  have htables : (hc.countSample.updateTables bit even).config = hc.config ∧
      (hc.countSample.updateTables bit even).entropyLevel = hc.entropyLevel := by
    simp only [updateTables]
    split_ifs <;> exact ⟨rfl, rfl⟩
  simp only [finishBit, scaleZeroOneCounts, scaleEntropy]
  split_ifs <;> exact htables

/-- The configuration stays, and the entropy level is a 32-bit word. -/
def HealthState.Configured (c : ℕ × Float × Float × Bool) (hc : HealthState) : Prop :=
  hc.config = c ∧ hc.entropyLevel < 4294967296

lemma HealthState.configured_kept (c : ℕ × Float × Float × Bool) : Kept (Configured c) where
  observe _ _ _ _ h := h
  checkStuck hc bit h := by
    simp only [HealthState.checkStuck]
    split_ifs <;> exact h
  updateProbability hc bit even h := by
    simp only [HealthState.updateProbability]
    split_ifs <;> exact h
  countBit hc h := by
    simp only [HealthState.countBit]
    split_ifs
    · exact ⟨h.1, u32_lt _⟩
    · exact h
  finishBit hc bit even h := by
    obtain ⟨hconfig, hlevel⟩ := hc.finishBit_keeps bit even
    exact ⟨hconfig.trans h.1, hlevel ▸ h.2⟩

/-! ### The extraction -/

/-- The bit a sample contributes: `COMP2` for odd indices, `COMP1` for even ones. -/
def sampleBit (inBuf : ℕ → Byte) (k : ℕ) : Bool :=
  (inBuf k).getLsbD (if k % 2 = 1 then comp2 else comp1)

/-- The bytes hold the bits of the samples, the first one in the highest bit. -/
def PackedBits (bytes inBuf : ℕ → Byte) (length : ℕ) : Prop :=
  ∀ i < length, ∀ j < 8, (bytes i).getLsbD (7 - j) = sampleBit inBuf (i * 8 + j)

lemma bit_of_shift (val : Byte) (c : ℕ) : (((val >>> c) &&& 1) == 1) = val.getLsbD c := by
  have hone : ∀ b : Byte, ((b &&& 1) == 1) = b.getLsbD 0 := by decide
  rw [hone, BitVec.getLsbD_ushiftRight, Nat.add_zero]

lemma sampleAt_bit (inBuf : ℕ → Byte) (k : ℕ) :
    (Kernel.sampleAt inBuf k).bit = sampleBit inBuf k := by
  rw [sampleBit, Kernel.sampleAt, Kernel.Sample.bit, selectBit, Kernel.evenBitOf, Kernel.oddBitOf,
    bit_of_shift, bit_of_shift]
  by_cases hk : k % 2 = 1 <;> simp [hk]

lemma packedBits_of_packed {bytes inBuf : ℕ → Byte} {length : ℕ}
    (h : Packed (fun k => (Kernel.sampleAt inBuf k).bit) bytes length) :
    PackedBits bytes inBuf length := by
  intro i hi j hj
  have hbit := h.getLsbD (show i * 8 + j < 8 * length by omega)
  rw [show (i * 8 + j) / 8 = i by omega, show (i * 8 + j) % 8 = j by omega] at hbit
  exact hbit.trans (sampleAt_bit inBuf (i * 8 + j))

/-- The extraction works on the health checker. When it succeeds the bytes hold the bits of the
samples and the entropy of the block is recorded; when it fails the message is set. -/
lemma extractBytes_cases {I : HealthState → Prop} (hI : HealthState.Kept I)
    {context context' : Context} {bytes bytes' inBuf : ℕ → Byte} {length : ℕ} {ok : Bool}
    (h : extractBytes context bytes length inBuf = some (ok, bytes', context'))
    (hs : I (inmClearEntropyLevel context.health)) :
    ∃ health : HealthState, I health ∧
      ((ok = true ∧ PackedBits bytes' inBuf length ∧ context' = { context with
          health, entropyThisTime := inmGetEntropyLevel health }) ∨
        (ok = false ∧ context' = { context with
          health, message := "Health check of Infinite Noise Multiplier failed!" })) := by
  rw [extractBytes, Option.map_eq_some_iff] at h
  obtain ⟨⟨ok', bytes₁, health⟩, hloop, heq⟩ := h
  rw [extractByte_eq] at hloop
  have hhealth : I health := pack_keeps (fun _ _ _ _ hadd => hI.addBit hadd) hloop hs
  cases ok'
  · cases heq
    exact ⟨health, hhealth, .inr ⟨rfl, rfl⟩⟩
  · cases heq
    exact ⟨health, hhealth, .inl ⟨rfl, packedBits_of_packed (checked_pack hloop).2, rfl⟩⟩

/-- Clearing the entropy level leaves a configured health checker. -/
lemma configured_clear (hc : HealthState) :
    HealthState.Configured hc.config (inmClearEntropyLevel hc) :=
  ⟨rfl, Nat.zero_lt_succ _⟩

/-! ### The chunk -/

/-- How many bytes a chunk has. -/
def chunkSize (context : Context) : ℕ := min 128 context.keccakBytesGiven

lemma chunkSize_le (context : Context) : chunkSize context ≤ context.keccakBytesGiven :=
  min_le_right _ _

lemma chunkSize_eq (context : Context) :
    (if 1024 / 8 > context.keccakBytesGiven then context.keccakBytesGiven else 1024 / 8) =
      chunkSize context := by
  rw [chunkSize]
  split_ifs <;> omega

@[simp] lemma squeezeChunk_count (context : Context) (result : Option (ℕ → Byte)) :
    (squeezeChunk context result).count = chunkSize context := chunkSize_eq context

@[simp] lemma squeezeChunk_written (context : Context) (result : Option (ℕ → Byte)) :
    (squeezeChunk context result).written = chunkSize context / 8 * 8 := by
  rw [← chunkSize_eq]
  rfl

@[simp] lemma squeezeChunk_ops (context : Context) (result : Option (ℕ → Byte)) :
    (squeezeChunk context result).ops = [.extract (chunkSize context / 8), .permute] := by
  rw [← chunkSize_eq]
  rfl

@[simp] lemma squeezeChunk_result (context : Context) (result : Option (ℕ → Byte)) :
    (squeezeChunk context result).result = result.map fun result =>
      keccakExtract context.keccakState result (chunkSize context / 8) := by
  rw [← chunkSize_eq]
  rfl

@[simp] lemma squeezeChunk_context (context : Context) (result : Option (ℕ → Byte)) :
    (squeezeChunk context result).context = { context with
      keccakState := keccakPermutation context.tables context.keccakState
      keccakBytesGiven := subU32 context.keccakBytesGiven (chunkSize context) } := by
  rw [squeezeChunk, chunkSize_eq]

/-! ### `processBytes` -/

lemma bytesOfMultiplier_lt (outputMultiplier : ℕ) :
    bytesOfMultiplier outputMultiplier < 4294967296 :=
  (Nat.div_le_self _ _).trans_lt (u32_lt _)

/-- Below `2 ^ 24` the product does not wrap. -/
lemma bytesOfMultiplier_eq (outputMultiplier : ℕ) :
    bytesOfMultiplier outputMultiplier = 32 * (outputMultiplier % 16777216) := by
  simp only [bytesOfMultiplier, u32]
  omega

/-- Capping works on the entropy of the block. -/
lemma Context.capEntropy_eq (context : Context) :
    context.capEntropy = { context with
      entropyThisTime := context.capEntropy.entropyThisTime } := by
  rw [capEntropy]
  split_ifs <;> rfl

section Branches

variable (context : Context) (bytes : ℕ → Byte) (result : Option (ℕ → Byte))

lemma processBytes_raw (outputMultiplier : ℕ) :
    processBytes context bytes result true outputMultiplier =
      { count := buflen / 8
        result := result.map fun result => memcpy result 0 bytes (buflen / 8)
        context := context.capEntropy
        written := buflen / 8
        ops := [] } := rfl

lemma processBytes_zero :
    processBytes context bytes result false 0 =
      let context := context.capEntropy.absorb bytes
      let lanes := u32 (context.entropyThisTime + 63) / 64
      { count := context.entropyThisTime / 8
        result := result.map fun result => memcpy result 0
          (keccakExtract context.keccakState (fun _ => 0) lanes) (context.entropyThisTime / 8)
        context
        written := context.entropyThisTime / 8
        ops := [.absorb (.ofFn fun i => bytes i), .extract lanes] } := by
  rw [processBytes]
  rfl

/-- The context in which the first chunk of a block is squeezed. -/
def Context.fund (context : Context) (bytes : ℕ → Byte) (outputMultiplier : ℕ) : Context :=
  { context.capEntropy.absorb bytes with keccakBytesGiven := bytesOfMultiplier outputMultiplier }

lemma processBytes_multiplier {outputMultiplier : ℕ} (hm : outputMultiplier ≠ 0)
    (hgiven : context.keccakBytesGiven = 0) :
    processBytes context bytes result false outputMultiplier =
      let filled := squeezeChunk (context.fund bytes outputMultiplier) result
      { filled with ops := .absorb (.ofFn fun i => bytes i) :: filled.ops } := by
  have hgiven' : (context.capEntropy.absorb bytes).keccakBytesGiven = 0 := by
    rw [Context.absorb, context.capEntropy_eq]
    exact hgiven
  rw [processBytes]
  simp only [Bool.false_eq_true, if_false]
  rw [if_neg hm, if_pos hgiven']
  rfl

end Branches

@[simp] lemma Context.fund_keccakBytesGiven (context : Context) (bytes : ℕ → Byte)
    (outputMultiplier : ℕ) : (context.fund bytes outputMultiplier).keccakBytesGiven =
      bytesOfMultiplier outputMultiplier := rfl

@[simp] lemma Context.fund_tables (context : Context) (bytes : ℕ → Byte)
    (outputMultiplier : ℕ) : (context.fund bytes outputMultiplier).tables = context.tables := by
  rw [fund, absorb, context.capEntropy_eq]

@[simp] lemma Context.fund_keccakState (context : Context) (bytes : ℕ → Byte)
    (outputMultiplier : ℕ) : (context.fund bytes outputMultiplier).keccakState =
      keccakAbsorb context.tables context.keccakState bytes (buflen / 64) := by
  rw [fund, absorb, context.capEntropy_eq]

/-! ### The call -/

/-- The device gave its samples. -/
structure Context.Sampled (context : Context) (script : UsbScript) : Prop where
  given_eq : context.keccakBytesGiven = 0
  write_eq : script.write = buflen
  read_eq : script.read = buflen

/-- The samples took too long. -/
def UsbScript.late (script : UsbScript) : Prop :=
  Float.ofNat maxMicrosecForSamples < diffTime script.start script.stop

/-- The samples came in time, and this is what was extracted from them: `ok` says whether all bits
passed the health check. -/
structure Context.Block (context : Context) (script : UsbScript) (ok : Bool) (bytes : ℕ → Byte)
    (context' : Context) : Prop extends context.Sampled script where
  inTime : ¬ script.late
  extracted : extractBytes context (fun _ => 0) (buflen / 8) script.inBuf =
    some (ok, bytes, context')

/-- The bytes of a block are those of its samples, and only its entropy and the health checker
are new in the context. -/
lemma Context.Block.cases {context context' : Context} {script : UsbScript} {bytes : ℕ → Byte}
    (h : context.Block script true bytes context') :
    PackedBits bytes script.inBuf (buflen / 8) ∧
      ∃ health : HealthState, health.Configured context.health.config ∧
        context' = { context with health, entropyThisTime := inmGetEntropyLevel health } := by
  obtain ⟨health, hconfig, ⟨_, hpacked, heq⟩ | ⟨hok, _⟩⟩ := extractBytes_cases
    (HealthState.configured_kept context.health.config) h.extracted (configured_clear _)
  · exact ⟨hpacked, health, hconfig, heq⟩
  · cases hok

lemma Context.Block.given_after {context context' : Context} {script : UsbScript}
    {bytes : ℕ → Byte} (h : context.Block script true bytes context') :
    context'.keccakBytesGiven = 0 := by
  obtain ⟨_, health, _, rfl⟩ := h.cases
  exact h.given_eq

/-- A block with a bit that fails leaves the health checker and a message. -/
lemma Context.Block.cases_of_failed {context context' : Context} {script : UsbScript}
    {bytes : ℕ → Byte} (h : context.Block script false bytes context') :
    ∃ (health : HealthState) (message : String), health.Configured context.health.config ∧
      context' = { context with health, message } := by
  obtain ⟨health, hconfig, ⟨hok, _⟩ | ⟨_, heq⟩⟩ := extractBytes_cases
    (HealthState.configured_kept context.health.config) h.extracted (configured_clear _)
  · cases hok
  · exact ⟨health, _, hconfig, heq⟩

/-- Samples that come too late are dropped. -/
lemma Context.Sampled.readData_late {context : Context} {script : UsbScript}
    (h : context.Sampled script) (hlate : script.late) (result : Option (ℕ → Byte)) (raw : Bool)
    (outputMultiplier : ℕ) :
    Userspace.readData context script result raw outputMultiplier =
      some (nothingRead (.ok 0) result context (some script.inBuf)) := by
  rw [UsbScript.late] at hlate
  rw [Userspace.readData, if_pos h.given_eq, if_neg (not_not.mpr h.write_eq),
    if_neg (not_not.mpr h.read_eq), if_pos hlate]

/-- A block that may be used is used. -/
lemma Context.Block.readData {context context' : Context} {script : UsbScript} {bytes : ℕ → Byte}
    (h : context.Block script true bytes context') (haccepts : context'.accepts = true)
    (result : Option (ℕ → Byte)) (raw : Bool) (outputMultiplier : ℕ) :
    Userspace.readData context script result raw outputMultiplier =
      some ((processBytes context' bytes result raw outputMultiplier).toRead
        (some script.inBuf)) := by
  have hinTime := h.inTime
  rw [UsbScript.late] at hinTime
  rw [Userspace.readData, if_pos h.given_eq, if_neg (not_not.mpr h.write_eq),
    if_neg (not_not.mpr h.read_eq), if_neg hinTime, h.extracted, Option.map_some]
  simp only [haccepts, Bool.not_true, Bool.false_eq_true, if_false]

/-- What a block gives is determined by its samples. -/
lemma Context.Block.unique {context context₁ context₂ : Context} {script : UsbScript}
    {ok₁ ok₂ : Bool} {bytes₁ bytes₂ : ℕ → Byte} (h₁ : context.Block script ok₁ bytes₁ context₁)
    (h₂ : context.Block script ok₂ bytes₂ context₂) :
    ok₁ = ok₂ ∧ bytes₁ = bytes₂ ∧ context₁ = context₂ := by
  simpa using h₁.extracted.symm.trans h₂.extracted

/-- The ways a call of `readData` can go. -/
inductive ReadStep (context : Context) (script : UsbScript) (result : Option (ℕ → Byte))
    (raw : Bool) (outputMultiplier : ℕ) : ReadResult → Prop where
  /-- The device does not take the clock signal, or does not give the samples. -/
  | usbFailed {e : InfnoiseError} {message : String} (hgiven : context.keccakBytesGiven = 0)
      (husb : ¬ context.Sampled script) :
    ReadStep context script result raw outputMultiplier
      (nothingRead (.error e) result { context with message } none)
  /-- The samples come too late. -/
  | late (hsampled : context.Sampled script) (hlate : script.late) :
    ReadStep context script result raw outputMultiplier
      (nothingRead (.ok 0) result context (some script.inBuf))
  /-- A bit fails the health check. -/
  | unhealthy {bytes : ℕ → Byte} {context' : Context}
      (hblock : context.Block script false bytes context') :
    ReadStep context script result raw outputMultiplier
      (nothingRead (.error .health) result context' (some script.inBuf))
  /-- The block is not good enough. -/
  | rejected {bytes : ℕ → Byte} {context' : Context}
      (hblock : context.Block script true bytes context') (hbad : context'.accepts = false) :
    ReadStep context script result raw outputMultiplier
      (nothingRead (.ok 0) result context' (some script.inBuf))
  /-- The block is used. -/
  | accepted {bytes : ℕ → Byte} {context' : Context}
      (hblock : context.Block script true bytes context') (hgood : context'.accepts = true) :
    ReadStep context script result raw outputMultiplier
      ((processBytes context' bytes result raw outputMultiplier).toRead (some script.inBuf))
  /-- Bytes are still to be given from an earlier block. -/
  | chunk (hgiven : 0 < context.keccakBytesGiven) :
    ReadStep context script result raw outputMultiplier ((squeezeChunk context result).toRead none)

lemma readData_step {context : Context} {script : UsbScript} {result : Option (ℕ → Byte)}
    {raw : Bool} {outputMultiplier : ℕ} {r : ReadResult}
    (h : readData context script result raw outputMultiplier = some r) :
    ReadStep context script result raw outputMultiplier r := by
  rw [readData] at h
  split at h
  · rename_i hgiven
    split at h
    · rename_i hwrite
      cases h
      exact .usbFailed hgiven fun husb => hwrite husb.write_eq
    · rename_i hwrite
      split at h
      · rename_i hread
        cases h
        exact .usbFailed hgiven fun husb => hread husb.read_eq
      · rename_i hread
        have hsampled : context.Sampled script := ⟨hgiven, not_not.mp hwrite, not_not.mp hread⟩
        split at h
        · rename_i hlate
          cases h
          exact .late hsampled hlate
        · rename_i hlate
          rw [Option.map_eq_some_iff] at h
          obtain ⟨⟨ok, bytes, context'⟩, hextract, heq⟩ := h
          have hblock : context.Block script ok bytes context' := ⟨hsampled, hlate, hextract⟩
          rcases ok with _ | _
          · cases heq
            exact .unhealthy hblock
          · dsimp only at heq
            split at heq
            · rename_i hbad
              cases heq
              exact .rejected hblock (by simpa using hbad)
            · rename_i hgood
              cases heq
              exact .accepted hblock (by simpa using hgood)
  · rename_i hgiven
    cases h
    exact .chunk (Nat.pos_of_ne_zero hgiven)

/-- A call that returns no bytes: it stores nothing, and leaves the sponge alone. -/
structure ReadResult.Idle (context : Context) (r : ReadResult) : Prop where
  rc_eq : r.rc = .ok 0 ∨ ∃ e, r.rc = .error e
  written_eq : r.written = 0
  ops_eq : r.ops = []
  keccakBytesGiven_eq : r.context.keccakBytesGiven = context.keccakBytesGiven
  keccakState_eq : r.context.keccakState = context.keccakState
  tables_eq : r.context.tables = context.tables

/-- A call returns no bytes, or uses a block, or gives a chunk of what is left. -/
lemma ReadStep.idle_or {context : Context} {script : UsbScript} {result : Option (ℕ → Byte)}
    {raw : Bool} {outputMultiplier : ℕ} {r : ReadResult}
    (h : ReadStep context script result raw outputMultiplier r) :
    (context.keccakBytesGiven = 0 ∧ r.accepted = false ∧ r.Idle context) ∨
      (∃ bytes context', context.Block script true bytes context' ∧ context'.accepts = true ∧
        r = (processBytes context' bytes result raw outputMultiplier).toRead (some script.inBuf)) ∨
      (0 < context.keccakBytesGiven ∧ r = (squeezeChunk context result).toRead none) := by
  cases h with
  | usbFailed hgiven husb => exact .inl ⟨hgiven, rfl, .inr ⟨_, rfl⟩, rfl, rfl, rfl, rfl, rfl⟩
  | late hsampled hlate => exact .inl ⟨hsampled.given_eq, rfl, .inl rfl, rfl, rfl, rfl, rfl, rfl⟩
  | unhealthy hblock =>
    obtain ⟨health, message, _, rfl⟩ := hblock.cases_of_failed
    exact .inl ⟨hblock.given_eq, rfl, .inr ⟨_, rfl⟩, rfl, rfl, rfl, rfl, rfl⟩
  | rejected hblock hbad =>
    obtain ⟨_, health, _, rfl⟩ := hblock.cases
    exact .inl ⟨hblock.given_eq, rfl, .inl rfl, rfl, rfl, rfl, rfl, rfl⟩
  | accepted hblock hgood => exact .inr (.inl ⟨_, _, hblock, hgood, rfl⟩)
  | chunk hgiven => exact .inr (.inr ⟨hgiven, rfl⟩)

/-- As long as bytes are to be given, a call gives the next chunk of them. -/
lemma ReadStep.of_pending {context : Context} {script : UsbScript} {result : Option (ℕ → Byte)}
    {raw : Bool} {outputMultiplier : ℕ} {r : ReadResult}
    (h : ReadStep context script result raw outputMultiplier r)
    (hgiven : context.keccakBytesGiven ≠ 0) : r = (squeezeChunk context result).toRead none := by
  rcases h.idle_or with ⟨hgiven', _⟩ | ⟨_, _, hblock, _⟩ | ⟨_, rfl⟩
  · exact absurd hgiven' hgiven
  · exact absurd hblock.given_eq hgiven
  · rfl

/-! ### What every call keeps -/

attribute [local irreducible] keccakPermutation keccakAbsorb

/-- Whitening works on the sponge alone. -/
lemma processBytes_keeps (context : Context) (bytes : ℕ → Byte) (result : Option (ℕ → Byte))
    (raw : Bool) (outputMultiplier : ℕ) :
    (processBytes context bytes result raw outputMultiplier).context.health = context.health ∧
      (processBytes context bytes result raw outputMultiplier).context.entropyThisTime =
        context.capEntropy.entropyThisTime := by
  have hcap : context.capEntropy.health = context.health := by rw [context.capEntropy_eq]
  simp only [processBytes]
  split_ifs
  · exact ⟨hcap, rfl⟩
  · exact ⟨hcap, rfl⟩
  · rw [squeezeChunk_context]
    exact ⟨hcap, rfl⟩
  · exact ⟨hcap, rfl⟩

/-- The configuration of the health checker is set once. -/
lemma ReadStep.config_eq {context : Context} {script : UsbScript} {result : Option (ℕ → Byte)}
    {raw : Bool} {outputMultiplier : ℕ} {r : ReadResult}
    (h : ReadStep context script result raw outputMultiplier r) :
    r.context.health.config = context.health.config := by
  cases h with
  | usbFailed hgiven husb => rfl
  | late hsampled hlate => rfl
  | unhealthy hblock =>
    obtain ⟨health, message, hconfig, rfl⟩ := hblock.cases_of_failed
    exact hconfig.1
  | rejected hblock hbad =>
    obtain ⟨_, health, hconfig, rfl⟩ := hblock.cases
    exact hconfig.1
  | accepted hblock hgood =>
    obtain ⟨_, health, hconfig, hcontext⟩ := hblock.cases
    simp only [Filled.toRead, (processBytes_keeps _ _ _ _ _).1, hcontext]
    exact hconfig.1
  | chunk hgiven =>
    simp only [Filled.toRead, squeezeChunk_context]

/-- A call that goes to the device leaves nothing to be given, unless it puts a block into the
sponge. -/
lemma ReadStep.given_of_unspent {context : Context} {script : UsbScript}
    {result : Option (ℕ → Byte)} {raw : Bool} {outputMultiplier : ℕ} {r : ReadResult}
    (h : ReadStep context script result raw outputMultiplier r)
    (hgiven : context.keccakBytesGiven = 0) (hraw : r.accepted = true → raw = true) :
    r.context.keccakBytesGiven = 0 := by
  rcases h.idle_or with ⟨_, _, hidle⟩ | ⟨bytes, context', hblock, _, rfl⟩ | ⟨hpos, _⟩
  · exact hidle.keccakBytesGiven_eq.trans hgiven
  · obtain rfl := hraw rfl
    simp only [Filled.toRead, processBytes_raw]
    rw [Context.capEntropy_eq]
    exact hblock.given_after
  · exact absurd hgiven (Nat.ne_of_gt hpos)

/-! ### Initialisation -/

lemma warmupLoop_keeps {fuel : ℕ} {rounds : ℕ → UsbScript} {n n' : ℕ} {context context' : Context}
    (h : warmupLoop fuel rounds n context = some (n', context'))
    (hgiven : context.keccakBytesGiven = 0) :
    context'.keccakBytesGiven = 0 ∧ context'.health.config = context.health.config ∧
      inmHealthCheckOkToUseData context'.health = true := by
  induction fuel generalizing rounds n context with
  | zero =>
    rw [warmupLoop] at h
    split at h
    · rename_i hok
      cases h
      exact ⟨hgiven, rfl, hok⟩
    · cases h
  | succ fuel ih =>
    rw [warmupLoop] at h
    split at h
    · rename_i hok
      cases h
      exact ⟨hgiven, rfl, hok⟩
    · rcases hread : readData context (rounds 0) none true 1 with _ | r
      · rw [hread] at h
        cases h
      · rw [hread] at h
        have hstep := readData_step hread
        obtain ⟨hgiven', hconfig, hok⟩ := ih h (hstep.given_of_unspent hgiven fun _ => rfl)
        exact ⟨hgiven', hconfig.trans hstep.config_eq, hok⟩

/-- An initialised context: nothing is to be given, and the health checker is configured and
content. -/
lemma initInfnoise_cases {log : Float → Float} {context context' : Context}
    {serial : Option String} {keccak debug : Bool} {script : InitScript} {fuel : ℕ}
    (h : initInfnoise log context serial keccak debug script fuel = some (true, context')) :
    context'.keccakBytesGiven = 0 ∧
      context'.health.config = (predictionBits, designK, log designK / log 2.0, debug) ∧
      inmHealthCheckOkToUseData context'.health = true := by
  simp only [initInfnoise] at h
  split at h
  · cases h
  · rename_i health hstart
    have hconfig : health.config = (predictionBits, designK, log designK / log 2.0, debug) := by
      obtain ⟨_, rfl⟩ := Prod.mk.inj hstart
      rfl
    split at h
    · cases h
    · rw [Option.map_eq_some_iff] at h
      obtain ⟨⟨n, context''⟩, hloop, heq⟩ := h
      dsimp only at heq
      split at heq
      · cases heq
      · cases heq
        split at hloop <;>
          obtain ⟨hgiven, hconfig', hok⟩ := warmupLoop_keeps hloop rfl <;>
          exact ⟨hgiven, hconfig'.trans hconfig, hok⟩

end Userspace
