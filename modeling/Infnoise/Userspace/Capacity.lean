import Infnoise.Kernel.Capacity
import Infnoise.Userspace.Arguments
import Infnoise.Userspace.Warmup
import Infnoise.Userspace.Whitening

/-!
# The capacity of the sponge in userspace

With multiplier 0 a call leaves the state as it was read, and nothing to be given, so the next call
that reads the state absorbs a block first.
-/

namespace Userspace

open Core Reference
open Kernel (KeccakState SpongeOp LogSound CapacityKept takenBytes leadingBytes kernelSponge
  bufferBytes)

attribute [local irreducible] keccakPermutation keccakAbsorb keccakExtract
  Kernel.infnoiseKeccakPermutation Kernel.infnoiseKeccakAbsorb

/-- What holds of a context between whitened calls, with a state that is fresh or not. -/
structure Context.Tapped (t : KeccakTables) (fresh : Bool) (context : Context) : Prop where
  whitening : context.Whitening t
  started : context.health.Started
  given_eq : fresh = false → context.keccakBytesGiven = 0

/-! ### Chunks -/

lemma chunkSize_le_chunk (context : Context) : chunkSize context ≤ 128 := min_le_left _ _

/-- The lines that squeeze read the state once, and permute it. -/
lemma squeezeChunk_sound {t : KeccakTables} {context : Context} (h : context.Whitening t)
    (result : Option (ℕ → Byte)) :
    LogSound context.keccakState (squeezeChunk context result).context.keccakState
        (squeezeChunk context result).ops (squeezeChunk context result).bytes ∧
      Tap.Kept 128 true ((squeezeChunk context result).ops.map SpongeOp.tap) := by
  have hsize := chunkSize_le_chunk context
  have hdvd : 8 ∣ chunkSize context := by
    have := h.given_dvd
    rw [chunkSize]
    omega
  rw [Filled.bytes, squeezeChunk_ops, squeezeChunk_context, squeezeChunk_result,
    squeezeChunk_count, h.tables_eq, ← keccakPermutation_eq]
  refine ⟨⟨rfl, ?_⟩, rfl, ?_, trivial⟩
  · rw [takenBytes, takenBytes, takenBytes, List.append_nil]
    cases result with
    | none => exact List.nil_prefix
    | some buffer =>
      rw [Option.map_some, Option.map_some, Option.getD_some, bufferBytes_extract _ _ hsize hdvd,
        Nat.mul_div_cancel' hdvd]
  · rw [Nat.mul_div_cancel' hdvd]
    exact hsize

/-- Multiplier 0 reads the state after the block, and leaves it so. -/
lemma processBytes_zero_sound {t : KeccakTables} {context : Context} (h : context.Whitening t)
    (hstarted : context.health.Started) (hlt : context.entropyThisTime < 4294967296)
    (bytes : ℕ → Byte) (result : Option (ℕ → Byte)) :
    LogSound context.keccakState (processBytes context bytes result false 0).context.keccakState
        (processBytes context bytes result false 0).ops
        (processBytes context bytes result false 0).bytes ∧
      Tap.Kept 128 true ((processBytes context bytes result false 0).ops.map SpongeOp.tap) := by
  have hcap := Context.capEntropy_eq_min hstarted hlt
  have hentropy : (context.capEntropy.absorb bytes).entropyThisTime =
      min context.entropyThisTime 437 := hcap
  have hstate : (context.capEntropy.absorb bytes).keccakState =
      kernelSponge.absorb context.keccakState (Kernel.blockOf bytes) := by
    rw [Kernel.absorb_blockOf, keccakAbsorb_eq t, Context.absorb, Context.capEntropy_eq,
      h.tables_eq]
    rfl
  rw [Filled.bytes, processBytes_zero]
  simp only [hentropy, hstate]
  rw [u32_of_lt (by omega)]
  refine ⟨⟨rfl, ?_⟩, rfl, by omega, trivial⟩
  change _ <+: takenBytes (kernelSponge.absorb context.keccakState (Kernel.blockOf bytes))
    [.extract ((min context.entropyThisTime 437 + 63) / 64)]
  rw [takenBytes, takenBytes, List.append_nil]
  cases result with
  | none => exact List.nil_prefix
  | some buffer =>
    generalize kernelSponge.absorb context.keccakState (Kernel.blockOf bytes) = state
    generalize hn : min context.entropyThisTime 437 = n
    have hbytes : bufferBytes (memcpy buffer 0
        (keccakExtract state (fun _ => 0) ((n + 63) / 64)) (n / 8)) (n / 8) =
          leadingBytes state (n / 8) := by
      refine List.map_congr_left fun k hk => ?_
      rw [List.mem_range] at hk
      rw [memcpy_of_lt (Nat.zero_le k) (by omega), Nat.sub_zero,
        ← keccakExtract_eq state _ (by omega), Kernel.infnoiseKeccakExtract,
        memcpy_of_lt (Nat.zero_le k) (by omega), Nat.sub_zero]
    rw [Option.map_some, Option.map_some, Option.getD_some, hbytes]
    exact Kernel.leadingBytes_mono _ (by omega)

lemma processBytes_zero_whitening {t : KeccakTables} {context : Context} (h : context.Whitening t)
    (bytes : ℕ → Byte) (result : Option (ℕ → Byte)) :
    (processBytes context bytes result false 0).context.Whitening t ∧
      (processBytes context bytes result false 0).context.keccakBytesGiven =
        context.keccakBytesGiven := by
  rw [processBytes_zero]
  have hframe : ((context.capEntropy.absorb bytes).tables,
      (context.capEntropy.absorb bytes).keccakBytesGiven) =
        (context.tables, context.keccakBytesGiven) := by
    rw [Context.absorb, Context.capEntropy_eq]
  obtain ⟨htables, hgiven⟩ := Prod.mk.inj hframe
  exact ⟨⟨htables.trans h.tables_eq, hgiven ▸ h.given_dvd, hgiven ▸ h.given_lt⟩, hgiven⟩

/-- A multiplier absorbs the block and reads the first chunk. -/
lemma processBytes_multiplier_sound {t : KeccakTables} {context : Context} {m : ℕ} (hm : m ≠ 0)
    (h : context.Whitening t) (hgiven : context.keccakBytesGiven = 0) (bytes : ℕ → Byte)
    (result : Option (ℕ → Byte)) (fresh : Bool) :
    LogSound context.keccakState (processBytes context bytes result false m).context.keccakState
        (processBytes context bytes result false m).ops
        (processBytes context bytes result false m).bytes ∧
      Tap.Kept 128 fresh ((processBytes context bytes result false m).ops.map SpongeOp.tap) ∧
      (processBytes context bytes result false m).context.Whitening t := by
  obtain ⟨hfund, hstate⟩ := h.fund bytes m
  obtain ⟨⟨hend, hbytes⟩, hkept⟩ := squeezeChunk_sound hfund result
  rw [hstate] at hend hbytes
  rw [processBytes_multiplier _ _ _ hm hgiven]
  exact ⟨⟨hend, hbytes⟩, hkept, squeezeChunk_whitening result hfund⟩

/-! ### Calls of `readData` -/

/-- A whitened call reads a fresh state, or one that it has permuted itself. -/
lemma readStep_log {t : KeccakTables} {c : ReadRecord} {fresh : Bool}
    (hstep : readStep c.before c.input = some (c.output, c.after)) (hraw : c.input.raw = false)
    (h : c.before.Tapped t fresh) :
    LogSound c.before.keccakState c.after.keccakState c.output.ops c.bytes ∧
      Tap.Kept 128 fresh (c.output.ops.map SpongeOp.tap) ∧
      c.after.Tapped t (Tap.freshAfter fresh (c.output.ops.map SpongeOp.tap)) := by
  obtain ⟨context, ⟨script, result, raw, m⟩, r, after⟩ := c
  dsimp only at hstep hraw h ⊢
  subst hraw
  obtain ⟨hread, rfl⟩ := readStep_cases hstep
  have hstarted := h.started.of_config hread.config_eq
  have hwhitening := h.whitening
  rcases hread.idle_or with ⟨_, _, hidle⟩ | ⟨bytes, context', hblock, _, rfl⟩ | ⟨hpos, rfl⟩
  · rw [hidle.ops_eq]
    refine ⟨⟨hidle.keccakState_eq, ?_⟩, trivial, ⟨?_, hstarted, ?_⟩⟩
    · rcases hidle.rc_eq with hrc | ⟨e, hrc⟩
      · rw [ReadRecord.bytes, hrc]
        rcases r.result with _ | buffer
        · exact List.nil_prefix
        · exact List.nil_prefix
      · rw [ReadRecord.bytes, hrc]
        exact List.nil_prefix
    · exact ⟨hidle.tables_eq.trans hwhitening.tables_eq,
        hidle.keccakBytesGiven_eq ▸ hwhitening.given_dvd,
        hidle.keccakBytesGiven_eq ▸ hwhitening.given_lt⟩
    · rw [hidle.keccakBytesGiven_eq]
      exact h.given_eq
  · obtain ⟨hstarted', hlt⟩ := hblock.started h.started
    have hgiven := hblock.given_after
    have hsponge : context'.tables = context.tables ∧
        context'.keccakState = context.keccakState := by
      obtain ⟨_, health, _, rfl⟩ := hblock.cases
      exact ⟨rfl, rfl⟩
    have hwhitening' : context'.Whitening t :=
      ⟨hsponge.1.trans hwhitening.tables_eq, hgiven ▸ dvd_zero 8, by omega⟩
    rw [← hsponge.2]
    by_cases hm : m = 0
    · subst hm
      obtain ⟨hsound, hkept⟩ := processBytes_zero_sound hwhitening' hstarted' hlt bytes result
      obtain ⟨hafter, hgiven'⟩ := processBytes_zero_whitening hwhitening' bytes result
      exact ⟨hsound, hkept, hafter, hstarted, fun _ => hgiven'.trans hgiven⟩
    · obtain ⟨hsound, hkept, hafter⟩ :=
        processBytes_multiplier_sound hm hwhitening' hgiven bytes result fresh
      refine ⟨hsound, hkept, hafter, hstarted, fun hfalse => ?_⟩
      -- the chunk ends with a permutation
      simp only [processBytes_multiplier _ _ _ hm hgiven, Filled.toRead, squeezeChunk_ops] at hfalse
      cases hfalse
  · -- what is left to be given is given from a fresh state
    have hfresh : fresh = true := by
      by_contra hstale
      have := h.given_eq (by simpa using hstale)
      omega
    subst hfresh
    obtain ⟨hsound, hkept⟩ := squeezeChunk_sound hwhitening result
    refine ⟨hsound, hkept, squeezeChunk_whitening result hwhitening, hstarted, fun hfalse => ?_⟩
    simp only [Filled.toRead, squeezeChunk_ops] at hfalse
    cases hfalse

/-! ### Runs -/

/-- The log of a run. -/
def spongeLog (cs : List ReadRecord) : List SpongeOp := cs.flatMap fun c => c.output.ops

/-- In every run of calls of `infnoise_read_data`, and in every run of whitened calls of `readData`
on an initialised context: the logs are sound, and the capacity of the sponge is kept. -/
theorem sponge_capacity {dev dev' : Kernel.Device} {ks : List Kernel.ReadRecord}
    (hk : Run Kernel.readStep dev ks dev') {log : Float → Float} (hlog : LogAccurate log)
    {context₀ context context' : Context} {serial : Option String} {debug : Bool}
    {script : InitScript} {fuel : ℕ}
    (hinit : initInfnoise log context₀ serial true debug script fuel = some (true, context))
    {us : List ReadRecord} (hu : Run readStep context us context')
    (hraw : ∀ c ∈ us, c.input.raw = false) :
    ((∀ c ∈ ks, LogSound c.before.keccak c.after.keccak c.output.ops c.whitened) ∧
        CapacityKept (Kernel.spongeLog ks)) ∧
      (∀ c ∈ us, LogSound c.before.keccakState c.after.keccakState c.output.ops c.bytes) ∧
        CapacityKept (spongeLog us) := by
  obtain ⟨hgiven, htables, _⟩ := initInfnoise_sponge hinit
  have hstart : context.Tapped context₀.tables true :=
    ⟨⟨htables, hgiven ▸ dvd_zero 8, by omega⟩, (initInfnoise_initialised hlog hinit).started,
      fun hfalse => by cases hfalse⟩
  refine ⟨Kernel.readData_capacity hk, fun c hc => ?_,
    Kernel.capacityKept_of_kept (?_ : Tap.Kept 128 true _)⟩
  · have hI := hu.invariant_of
      (I := fun context => ∃ fresh, context.Tapped context₀.tables fresh)
      (P := fun c => c.input.raw = false)
      (fun c hstep hcall ⟨fresh, hI⟩ => ⟨_, (readStep_log hstep hcall hI).2.2⟩) hraw ⟨true, hstart⟩
    obtain ⟨fresh, hbefore⟩ := (hI.1 c hc).1
    exact (readStep_log (hu.step_of_mem hc) (hraw c hc) hbefore).1
  · rw [spongeLog, List.map_flatMap]
    exact Tap.Kept.run (I := fun fresh context => context.Tapped context₀.tables fresh)
      (P := fun c => c.input.raw = false)
      (fun c b hstep hcall hI => (readStep_log hstep hcall hI).2) hu hraw hstart

/-- One read of 32 bytes from the kernel driver, and one of 96 bytes from the library. -/
theorem sponge_capacity_read : ∃ (dev dev' : Kernel.Device) (k : Kernel.ReadRecord)
    (context context' : Context) (u : ReadRecord), Run Kernel.readStep dev [k] dev' ∧
      k.bytesReturned = 32 ∧
      initInfnoise tableLog blankContext none true false registerScript 371 = some (true, context) ∧
      Run readStep context [u] context' ∧ u.bytesReturned = 96 ∧
      CapacityKept (Kernel.spongeLog [k]) ∧ CapacityKept (spongeLog [u]) := by
  obtain ⟨j, dev, _, _, _, _, hread⟩ := Kernel.exists_warm_read
  obtain ⟨dev₁, entropy, _, hread⟩ := hread 1 (fun _ => 0) 32
  obtain ⟨r, hr⟩ : ∃ r, r = Kernel.absorbAndSqueeze dev₁ 1 entropy (fun _ => 0) 32 := ⟨_, rfl⟩
  let call : Kernel.ReadCall :=
    ⟨1, fun _ => Kernel.registerScript (512 * j), fun _ => 0, 32, false⟩
  let k : Kernel.ReadRecord := ⟨dev, call, r, r.dev⟩
  have hstep : Kernel.readStep dev call = some (r, r.dev) := by
    rw [Kernel.readStep, hread, hr]
    rfl
  have hrun : Run Kernel.readStep dev [k] r.dev := .single hstep
  have hret : r.ret = .ok 32 := by
    rw [hr, Kernel.absorbAndSqueeze_ret]
    rfl
  have hbytes : k.bytesReturned = 32 := by
    rw [Kernel.ReadRecord.bytesReturned, show k.output.ret = _ from hret]
  obtain ⟨context, context', u, hinit, hrun', _, _, hraw, _, _, hbytes', _⟩ :=
    exists_absorbed (fun _ => 0) (m := 3) (by norm_num)
  have hcapacity := sponge_capacity hrun tableLog_accurate hinit hrun' fun c hc => by
    rw [List.mem_singleton.mp hc]
    exact hraw
  exact ⟨dev, r.dev, k, context, context', u, hrun, hbytes, hinit, hrun', hbytes',
    hcapacity.1.2, hcapacity.2.2⟩

end Userspace
