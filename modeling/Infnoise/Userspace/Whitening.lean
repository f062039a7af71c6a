import Infnoise.Kernel.Whitening
import Infnoise.Keccak.Agreement
import Infnoise.Userspace.Multiplier

/-!
# The two whitening paths

The whitened calls of `readData` refine the sponge of the kernel driver, once `KeccakInitialize` has
run, so the two drivers give the same stream for the same blocks.
-/

namespace Userspace

open Core Core.Meter Reference
open Kernel (KeccakState SpongeOp kernelSponge spongeEvent absorbedBlock bufferBytes leadingBytes)

attribute [local irreducible] keccakPermutation keccakAbsorb keccakExtract
  Kernel.infnoiseKeccakPermutation Kernel.infnoiseKeccakAbsorb

/-- The bytes that were filled in. -/
def Filled.bytes (filled : Filled) : List Byte :=
  (filled.result.map fun result => bufferBytes result filled.count).getD []

namespace ReadRecord

/-- A whitened call with a buffer, with the multiplier `m`. -/
structure Whitened (m : ℕ) (c : ReadRecord) : Prop where
  raw_eq : c.input.raw = false
  multiplier_eq : c.input.outputMultiplier = m
  result_isSome : c.input.result.isSome

/-- The bytes the call returned. -/
def bytes (c : ReadRecord) : List Byte :=
  match c.output.rc with
  | .ok n => (c.output.result.map fun result => bufferBytes result n).getD []
  | .error _ => []

/-- The call as a step of the sponge, if it is one. -/
def onSponge (c : ReadRecord) :
    Option (Call (KeccakState × ℕ) (SpongeEvent (Vector Byte 64)) (List Byte)) :=
  (spongeEvent c.output.ops).map fun e =>
    ⟨(c.before.keccakState, c.before.keccakBytesGiven), e, c.bytes,
      (c.after.keccakState, c.after.keccakBytesGiven)⟩

end ReadRecord

/-- The tables are filled, and what is to be given is made of whole lanes. -/
structure Context.Whitening (t : KeccakTables) (context : Context) : Prop where
  tables_eq : context.tables = keccakInitialize t
  given_dvd : 8 ∣ context.keccakBytesGiven
  given_lt : context.keccakBytesGiven < 4294967296

/-! ### One call -/

lemma bufferBytes_extract (state : KeccakState) (buffer : ℕ → Byte) {n : ℕ} (hn : n ≤ 128)
    (hdvd : 8 ∣ n) :
    bufferBytes (keccakExtract state buffer (n / 8)) n = leadingBytes state n := by
  rw [← keccakExtract_eq state buffer (by omega),
    show n / 8 = (n + 7) / 8 by omega]
  exact Kernel.bufferBytes_extract state buffer hn

/-- The common part of the calls that squeeze. -/
lemma squeezeChunk_drain {t : KeccakTables} {context : Context} (buffer : ℕ → Byte)
    (h : context.Whitening t) :
    kernelSponge.drain 128 (context.keccakState, context.keccakBytesGiven) =
      ((squeezeChunk context (some buffer)).bytes,
        ((squeezeChunk context (some buffer)).context.keccakState,
          (squeezeChunk context (some buffer)).context.keccakBytesGiven)) := by
  have hdvd := h.given_dvd
  have hsize : chunkSize context = min 128 context.keccakBytesGiven := rfl
  have hbytes := bufferBytes_extract context.keccakState buffer (n := chunkSize context)
    (hsize ▸ min_le_left _ _) (by omega)
  rw [Filled.bytes, squeezeChunk_result, squeezeChunk_count, squeezeChunk_context,
    subU32_of_le (chunkSize_le context) h.given_lt, h.tables_eq, ← keccakPermutation_eq,
    Option.map_some, Option.map_some, hbytes]
  rfl

/-- A chunk leaves the context as it should be. -/
lemma squeezeChunk_whitening {t : KeccakTables} {context : Context} (result : Option (ℕ → Byte))
    (h : context.Whitening t) : (squeezeChunk context result).context.Whitening t := by
  have hdvd := h.given_dvd
  have hlt := h.given_lt
  have hle := chunkSize_le context
  rw [squeezeChunk_context, subU32_of_le hle hlt]
  refine ⟨h.tables_eq, ?_, (Nat.sub_le _ _).trans_lt hlt⟩
  simp only [chunkSize]
  omega

/-- A block goes into the sponge, and its bytes are to be given. -/
lemma Context.Whitening.fund {t : KeccakTables} {context : Context} (h : context.Whitening t)
    (bytes : ℕ → Byte) (m : ℕ) :
    (context.fund bytes m).Whitening t ∧ (context.fund bytes m).keccakState =
      kernelSponge.absorb context.keccakState (Kernel.blockOf bytes) := by
  refine ⟨⟨?_, ?_, bytesOfMultiplier_lt m⟩, ?_⟩
  · rw [Context.fund_tables, h.tables_eq]
  · rw [Context.fund_keccakBytesGiven, bytesOfMultiplier_eq]
    omega
  · rw [Context.fund_keccakState, h.tables_eq, Kernel.absorb_blockOf, keccakAbsorb_eq t]
    rfl

/-- A whitened call is a step of the sponge, or leaves it alone and returns nothing. -/
lemma readStep_sponge {m : ℕ} (hm : 1 ≤ m) (hm24 : m < 16777216) {t : KeccakTables}
    {c : ReadRecord} (hstep : readStep c.before c.input = some (c.output, c.after))
    (hcall : c.Whitened m) (h : c.before.Whitening t) :
    c.after.Whitening t ∧
      (spongeEvent c.output.ops = none → c.bytes = [] ∧
        c.after.keccakState = c.before.keccakState ∧
        c.after.keccakBytesGiven = c.before.keccakBytesGiven) ∧
      ∀ e, spongeEvent c.output.ops = some e →
        kernelSponge.step (32 * m) 128 (c.before.keccakState, c.before.keccakBytesGiven) e =
          some (c.bytes, (c.after.keccakState, c.after.keccakBytesGiven)) := by
  obtain ⟨context, ⟨script, result, raw, m'⟩, r, after⟩ := c
  obtain ⟨hraw, hmult, hresult⟩ := hcall
  dsimp only at hstep h hraw hmult hresult ⊢
  subst hraw hmult
  obtain ⟨buffer, rfl⟩ := Option.isSome_iff_exists.mp hresult
  obtain ⟨hread, rfl⟩ := readStep_cases hstep
  rcases hread.idle_or with ⟨_, _, hidle⟩ | ⟨bytes, context', hblock, _, rfl⟩ | ⟨hpos, rfl⟩
  · rw [hidle.ops_eq]
    refine ⟨⟨hidle.tables_eq.trans h.tables_eq, hidle.keccakBytesGiven_eq ▸ h.given_dvd,
      hidle.keccakBytesGiven_eq ▸ h.given_lt⟩,
      fun _ => ⟨?_, hidle.keccakState_eq, hidle.keccakBytesGiven_eq⟩, fun e he => by cases he⟩
    rcases hidle.rc_eq with hrc | ⟨e, hrc⟩
    · rw [ReadRecord.bytes, hrc]
      rcases r.result with _ | result <;> simp [bufferBytes]
    · rw [ReadRecord.bytes, hrc]
  · have hsponge : context'.tables = context.tables ∧
        context'.keccakState = context.keccakState := by
      obtain ⟨_, health, _, rfl⟩ := hblock.cases
      exact ⟨rfl, rfl⟩
    have hm0 : m' ≠ 0 := by omega
    have hwhitening : context'.Whitening t :=
      ⟨hsponge.1.trans h.tables_eq, hblock.given_after ▸ dvd_zero 8, by
        rw [hblock.given_after]
        norm_num⟩
    obtain ⟨hfund, hstate⟩ := hwhitening.fund bytes m'
    rw [hsponge.2] at hstate
    have hdrain := squeezeChunk_drain buffer hfund
    rw [Context.fund_keccakBytesGiven, bytesOfMultiplier_eq, Nat.mod_eq_of_lt hm24, hstate]
      at hdrain
    rw [processBytes_multiplier _ _ _ hm0 hblock.given_after]
    refine ⟨squeezeChunk_whitening (some buffer) hfund, (fun he => by cases he), fun e he => ?_⟩
    cases he
    rw [Sponge.step, if_pos hblock.given_eq]
    exact congrArg some hdrain
  · refine ⟨squeezeChunk_whitening (some buffer) h, (fun he => by cases he), fun e he => ?_⟩
    cases he
    rw [Sponge.step, if_pos hpos, squeezeChunk_drain buffer h]
    rfl

/-! ### Runs -/

/-- The whitened calls refine the sponge of the kernel driver, with the blocks they absorb and the
bytes they return. -/
theorem whitened_refines {m : ℕ} (hm : 1 ≤ m) (hm24 : m < 16777216) {t : KeccakTables}
    {context context' : Context} {cs : List ReadRecord} (h : Run readStep context cs context')
    (hcalls : ∀ c ∈ cs, c.Whitened m) (hcontext : context.Whitening t) :
    Run (kernelSponge.step (32 * m) 128) (context.keccakState, context.keccakBytesGiven)
        (cs.filterMap ReadRecord.onSponge) (context'.keccakState, context'.keccakBytesGiven) ∧
      Sponge.blocks (cs.filterMap ReadRecord.onSponge) =
        cs.filterMap (fun c => absorbedBlock c.output.ops) ∧
      Sponge.stream (cs.filterMap ReadRecord.onSponge) = cs.flatMap ReadRecord.bytes := by
  simp only [Kernel.absorbedBlock_eq]
  refine Sponge.refines_of_step (I := Context.Whitening t) (P := ReadRecord.Whitened m)
    (fun context => (context.keccakState, context.keccakBytesGiven))
    (fun c => spongeEvent c.output.ops) ReadRecord.bytes ?_ h hcalls hcontext
  intro c hstep hcall hI
  obtain ⟨hI', hnone, hsome⟩ := readStep_sponge hm hm24 hstep hcall hI
  refine ⟨hI', fun he => ?_, hsome⟩
  obtain ⟨hbytes, hstate, hgiven⟩ := hnone he
  exact ⟨hbytes, by rw [hstate, hgiven]⟩

/-- From the same sponge and with the same multiplier, for every run of calls of either driver that
absorb the same blocks: one stream is the start of the other, and once the same number of bytes is
left the streams are equal, and so are the states. -/
theorem whitening_agrees {m : ℕ} (hm : 1 ≤ m) (hm10 : m ≤ 10) {t : KeccakTables}
    {dev dev' : Kernel.Device} {ks : List Kernel.ReadRecord} (hk : Run Kernel.readStep dev ks dev')
    (hkcalls : ∀ c ∈ ks, c.Whitened m)
    {context context' : Context} {us : List ReadRecord} (hu : Run readStep context us context')
    (hucalls : ∀ c ∈ us, c.Whitened m)
    (htables : context.tables = keccakInitialize t) (hstate : dev.keccak = context.keccakState)
    (hleft : dev.keccakBytesLeft = 0) (hgiven : context.keccakBytesGiven = 0)
    (hblocks : ks.filterMap (fun c => absorbedBlock c.output.ops) =
      us.filterMap (fun c => absorbedBlock c.output.ops)) :
    (ks.flatMap Kernel.ReadRecord.bytes <+: us.flatMap ReadRecord.bytes ∨
        us.flatMap ReadRecord.bytes <+: ks.flatMap Kernel.ReadRecord.bytes) ∧
      (dev'.keccakBytesLeft = context'.keccakBytesGiven →
        ks.flatMap Kernel.ReadRecord.bytes = us.flatMap ReadRecord.bytes ∧
          dev'.keccak = context'.keccakState) := by
  obtain ⟨hkrun, hkblocks, hkstream⟩ := Kernel.whitened_refines hm hm10 hk hkcalls (by omega)
  obtain ⟨hurun, hublocks, hustream⟩ := whitened_refines hm (by omega) hu hucalls
    (t := t) ⟨htables, hgiven ▸ dvd_zero 8, by omega⟩
  rw [hstate, hleft] at hkrun
  rw [hgiven] at hurun
  rw [← hkstream, ← hustream]
  have hsame := (hkblocks.trans hblocks).trans hublocks.symm
  refine ⟨?_, fun hend => ?_⟩
  · exact (Sponge.prefix_or_prefix hkrun hurun hsame).imp Sponge.stream_prefix
      Sponge.stream_prefix
  · obtain ⟨hcalls, hends⟩ := Sponge.eq_of_left_eq (by norm_num) hkrun hurun hsame hend
    exact ⟨congrArg Sponge.stream hcalls, (Prod.mk.inj hends).1⟩

/-! ### A block for both drivers -/

/-- A checker of the library that has seen the bits of a device of the kernel driver that has warmed
up, and counted the same entropy. -/
lemma exists_fed_like {j : ℕ} {dev : Kernel.Device} (h : dev.Warming j) (h157 : 157 ≤ j)
    (h372 : j < 372) (hok : Kernel.infnoiseHealthOk dev.health = true) :
    ∃ (q : ℚ) (hc : HealthState), hc.Fed q (512 * j) ∧
      0 ≤ excess (okRate q) (512 * j) hc.numBitsOfEntropy ∧
      excess (okRate q) (512 * j) hc.numBitsOfEntropy ≤ 700 := by
  obtain ⟨q, hstart⟩ := inmHealthCheckStart_fed tableLog_accurate
    blankContext.health rfl rfl false
  obtain ⟨hfed, _⟩ := hstart.bits rfl (k := 512 * j) (by omega)
  rw [Nat.zero_add] at hfed
  have hsamples : (samples (512 * j) : ℚ) ≤ 80000 := by exact_mod_cast (samples_lt _).le
  have hsamples0 : (0 : ℚ) ≤ samples (512 * j) := Nat.cast_nonneg _
  have h0 := (h.fed.excess_of_ok hok).2
  have h600 := h.low h157
  -- the two rates are close to each other
  have hrate : okRate q ≤ Kernel.okRate ∧ Kernel.okRate ≤ okRate q + 1 / 1000 := by
    have hq := hfed.le_expected
    have hq' := hfed.expected_le
    rw [okRate, Kernel.okRate]
    norm_num at hq hq' ⊢
    constructor <;> linarith
  have hmul : okRate q * samples (512 * j) ≤ Kernel.okRate * samples (512 * j) :=
    mul_le_mul_of_nonneg_right hrate.1 hsamples0
  have hmul' : Kernel.okRate * samples (512 * j) ≤ (okRate q + 1 / 1000) * samples (512 * j) :=
    mul_le_mul_of_nonneg_right hrate.2 hsamples0
  rw [excess] at h0 h600
  have hentropy : dev.health.numBitsOfEntropy ≤ 2 * (512 * j) := by
    have hle : Kernel.okRate * samples (512 * j) ≤ 1 * 80000 :=
      mul_le_mul (by norm_num [Kernel.okRate]) hsamples hsamples0 (by norm_num)
    have : (dev.health.numBitsOfEntropy : ℚ) ≤ 80600 := by linarith
    have : dev.health.numBitsOfEntropy ≤ 80600 := by exact_mod_cast this
    omega
  refine ⟨q, _, hfed.withEntropy h.fed.bounds hentropy, ?_, ?_⟩
  · rw [excess]
    linarith
  · rw [excess]
    linarith

/-- The bits that are packed into bytes determine them. -/
lemma PackedBits.eq_of_packed {bytes bytes' inBuf : ℕ → Byte} {length : ℕ}
    (h : PackedBits bytes inBuf length) (h' : PackedBits bytes' inBuf length) {i : ℕ}
    (hi : i < length) : bytes i = bytes' i := by
  apply BitVec.eq_of_getLsbD_eq
  intro k hk
  have hbit := h i hi (7 - k) (by omega)
  have hbit' := h' i hi (7 - k) (by omega)
  rw [show 7 - (7 - k) = k by omega] at hbit hbit'
  rw [hbit, hbit']

/-- The block of the kernel driver. -/
lemma packedBits_blockByte (t : ℕ) : PackedBits (Kernel.blockByte t) (registerRound t).inBuf 64 := by
  intro i hi k hk
  have hsample : ∀ (b : Bool) c, c = comp1 ∨ c = comp2 → (Kernel.sampleOf b).getLsbD c = b := by
    rintro b c (rfl | rfl) <;> cases b <;> decide
  rw [Kernel.blockByte, getLsbD_packBits _ (by omega), sampleBit, registerRound, hsample]
  · simp [show 7 - k < 8 by omega, show 7 - (7 - k) = k by omega]
  · split_ifs
    · exact .inr rfl
    · exact .inl rfl

/-- One block in both drivers, with multiplier 1: the bytes are the same, and so are the states. -/
theorem whitening_agrees_block : ∃ (dev dev' : Kernel.Device) (k : Kernel.ReadRecord)
    (context context' : Context) (u : ReadRecord), Run Kernel.readStep dev [k] dev' ∧
      Run readStep context [u] context' ∧ k.bytes.length = 32 ∧ k.bytes = u.bytes ∧
      dev'.keccak = context'.keccakState := by
  obtain ⟨j, dev, hwarming, h157, h372, hok, hread⟩ := Kernel.exists_warm_read
  obtain ⟨dev₁, entropy, hloaded, hread⟩ := hread 1 (fun _ => 0) 128
  obtain ⟨r, hr⟩ : ∃ r, r = Kernel.absorbAndSqueeze dev₁ 1 entropy (fun _ => 0) 128 := ⟨_, rfl⟩
  let call : Kernel.ReadCall :=
    ⟨1, fun _ => Kernel.registerScript (512 * j), fun _ => 0, 128, false⟩
  let k : Kernel.ReadRecord := ⟨dev, call, r, r.dev⟩
  have hkstep : Kernel.readStep dev call = some (r, r.dev) := by
    rw [Kernel.readStep, hread, hr]
    rfl
  -- the library at the same point, with the same sponge
  obtain ⟨q, hc, hfed, h0, h700⟩ := exists_fed_like hwarming h157 h372 hok
  let context : Context := { blankContext with
    keccakState := dev.keccak, health := hc, tables := keccakInitialize .zero }
  have haccepts : (context.extract (512 * j)).accepts = true :=
    HealthState.Fed.accepts h157 h372 hfed h0 h700
  obtain ⟨bytes, hblock⟩ := @exists_block q j context hfed (by omega) rfl
  obtain ⟨r', hr'⟩ : ∃ r', r' = (processBytes (context.extract (512 * j)) bytes
      (some fun _ => 0) false 1).toRead (some (registerRound (512 * j)).inBuf) := ⟨_, rfl⟩
  let call' : ReadCall := ⟨registerRound (512 * j), some fun _ => 0, false, 1⟩
  let u : ReadRecord := ⟨context, call', r', r'.context⟩
  have hustep : readStep context call' = some (r', r'.context) := by
    rw [readStep, hblock.readData haccepts, hr']
    rfl
  have hsame : Kernel.blockOf dev₁.outBuf = .ofFn fun i : Fin 64 => bytes i := by
    have hbyte : ∀ i : Fin 64, dev₁.outBuf i = bytes i := fun i => by
      rw [hloaded.outBuf_eq i i.isLt]
      exact (packedBits_blockByte (512 * j)).eq_of_packed hblock.cases.1 i.isLt
    exact congrArg Vector.ofFn (funext hbyte)
  have hops : r.ops = .absorb (Kernel.blockOf dev₁.outBuf) ::
      (Kernel.squeezeLeft (dev₁.absorb 1 entropy) (fun _ => 0) 128).ops := by
    rw [hr, Kernel.absorbAndSqueeze_ops]
  have hops' : r'.ops = .absorb (.ofFn fun i => bytes i) ::
      (squeezeChunk ((context.extract (512 * j)).fund bytes 1) (some fun _ => 0)).ops := by
    rw [hr', processBytes_multiplier _ _ _ one_ne_zero hblock.given_after]
    rfl
  have hblocks : [k].filterMap (fun c => absorbedBlock c.output.ops) =
      [u].filterMap (fun c => absorbedBlock c.output.ops) := by
    have hk : absorbedBlock k.output.ops = some (Kernel.blockOf dev₁.outBuf) :=
      congrArg absorbedBlock hops
    have hu : absorbedBlock u.output.ops = some (.ofFn fun i => bytes i) :=
      congrArg absorbedBlock hops'
    simp only [List.filterMap_cons, List.filterMap_nil, hk, hu, hsame]
  have hkrun : Run Kernel.readStep dev [k] r.dev := .single hkstep
  have hurun : Run readStep context [u] r'.context := .single hustep
  have hret : r.ret = .ok 32 := by
    rw [hr, Kernel.absorbAndSqueeze_ret]
    rfl
  have hend : r.dev.keccakBytesLeft = r'.context.keccakBytesGiven := by
    have hleft : r.dev.keccakBytesLeft = 0 := by
      have hbudget : (dev₁.absorb 1 entropy).keccakBytesLeft = 32 := rfl
      rw [hr, Kernel.absorbAndSqueeze_dev, Kernel.squeezeLeft_dev, Kernel.squeezeSize]
      dsimp only
      rw [hbudget]
      decide
    have hgiven : r'.context.keccakBytesGiven = 0 := by
      rw [hr', processBytes_multiplier _ _ _ one_ne_zero hblock.given_after, Filled.toRead]
      simp only [squeezeChunk_context, chunkSize, Context.fund_keccakBytesGiven]
      decide
    rw [hleft, hgiven]
  have hagrees := (whitening_agrees (m := 1) le_rfl (by norm_num) (t := .zero) hkrun
    (fun c hc => by
      rw [List.mem_singleton.mp hc]
      exact ⟨rfl, rfl, le_rfl⟩) hurun
    (fun c hc => by
      rw [List.mem_singleton.mp hc]
      exact ⟨rfl, rfl, rfl⟩) rfl rfl hwarming.keccakBytesLeft rfl hblocks).2 hend
  simp only [List.flatMap_cons, List.flatMap_nil, List.append_nil] at hagrees
  refine ⟨dev, r.dev, k, context, r'.context, u, hkrun, hurun, ?_, hagrees⟩
  rw [Kernel.ReadRecord.bytes, show k.output.ret = _ from hret]
  simp [Kernel.deliveredBytes, bufferBytes]

end Userspace
