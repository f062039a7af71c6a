import Infnoise.Userspace.Capacity
import Infnoise.Userspace.Pool
import Infnoise.Userspace.Whitening

/-!
# What the program prints

The main loop without `--dev-random`: every round reads into a fresh `result`, and hands what was
read to `fwrite`. What is printed over a whole run is what one sponge gives for the blocks that were
used, or the blocks themselves with `--raw`.
-/

namespace Userspace

open Core Reference
open Kernel (KeccakState SpongeOp kernelSponge spongeEvent absorbedBlock bufferBytes leadingBytes
  blockOf)

/-- `KeccakExtract` writes its lanes only. -/
lemma keccakExtract_of_le (state : KeccakState) (data : ℕ → Byte) {laneCount i : ℕ}
    (h : laneCount * 8 ≤ i) : keccakExtract state data laneCount i = data i :=
  if_neg (by omega)

attribute [local irreducible] keccakPermutation keccakAbsorb keccakExtract
  Kernel.infnoiseKeccakPermutation Kernel.infnoiseKeccakAbsorb

/-- The `resultSize` of `main`. -/
def resultSize (opts : OptStruct) : ℕ := if opts.outputMultiplier ≤ 2 ∨ opts.raw then 64 else 128

namespace RoundRecord

/-- The buffer after the call of `readData`. -/
def result (c : RoundRecord) : ℕ → Byte := c.output.read.result.getD c.input.result

/-- What `outputBytes` hands to `fwrite` in a round. -/
def stdout (opts : OptStruct) (c : RoundRecord) : List Byte :=
  match c.output.read.rc with
  | .error _ => []
  | .ok bytesWritten =>
    if opts.noOutput || opts.devRandom then [] else bufferBytes c.result bytesWritten

end RoundRecord

/-! ### The buffer -/

section

variable {context : Context} {script : UsbScript} {buffer : ℕ → Byte} {raw : Bool}
  {outputMultiplier : ℕ} {r : ReadResult}

/-- A chunk fills the buffer up to its end, and no further. -/
lemma squeezeChunk_stores (buffer : ℕ → Byte) (h : 32 ∣ context.keccakBytesGiven) :
    ∃ result, (squeezeChunk context (some buffer)).result = some result ∧
      (∀ i, (squeezeChunk context (some buffer)).written ≤ i → result i = buffer i) ∧
        (squeezeChunk context (some buffer)).count =
          (squeezeChunk context (some buffer)).written := by
  have hdvd : 8 ∣ chunkSize context := by
    rw [chunkSize]
    omega
  rw [squeezeChunk_result, squeezeChunk_written, squeezeChunk_count]
  exact ⟨_, rfl, fun i hi => keccakExtract_of_le _ _ hi, (Nat.div_mul_cancel hdvd).symm⟩

/-- A call returns the number of bytes that it has stored, unless it fails and stores none, and
leaves the rest of the buffer. -/
lemma ReadStep.stores (h : ReadStep context script (some buffer) raw outputMultiplier r)
    (hgiven : 32 ∣ context.keccakBytesGiven) :
    ∃ result, r.result = some result ∧ (∀ i, r.written ≤ i → result i = buffer i) ∧
      (r.rc = .ok r.written ∨ r.written = 0 ∧ ∃ e, r.rc = .error e) := by
  cases h with
  | usbFailed hzero husb => exact ⟨buffer, rfl, fun _ _ => rfl, .inr ⟨rfl, _, rfl⟩⟩
  | late hsampled hlate => exact ⟨buffer, rfl, fun _ _ => rfl, .inl rfl⟩
  | unhealthy hblock => exact ⟨buffer, rfl, fun _ _ => rfl, .inr ⟨rfl, _, rfl⟩⟩
  | rejected hblock hbad => exact ⟨buffer, rfl, fun _ _ => rfl, .inl rfl⟩
  | @accepted bytes context' hblock hgood =>
    cases raw with
    | true =>
      refine ⟨memcpy buffer 0 bytes 64, rfl, fun i hi => ?_, .inl rfl⟩
      change 64 ≤ i at hi
      exact if_neg (by omega)
    | false =>
      by_cases hm : outputMultiplier = 0
      · subst hm
        rw [processBytes_zero]
        refine ⟨_, rfl, fun i hi => if_neg fun hlt => ?_, .inl rfl⟩
        rw [Nat.zero_add] at hlt
        exact absurd hlt.2 (Nat.not_lt.mpr hi)
      · have hfund : 32 ∣ (context'.fund bytes outputMultiplier).keccakBytesGiven := by
          rw [Context.fund_keccakBytesGiven, bytesOfMultiplier_eq]
          omega
        obtain ⟨result, hresult, hframe, hcount⟩ := squeezeChunk_stores buffer hfund
        rw [processBytes_multiplier _ _ _ hm hblock.given_after]
        exact ⟨result, hresult, hframe, .inl (congrArg Except.ok hcount)⟩
  | chunk hpos =>
    obtain ⟨result, hresult, hframe, hcount⟩ := squeezeChunk_stores buffer hgiven
    exact ⟨result, hresult, hframe, .inl (congrArg Except.ok hcount)⟩

/-- No call returns more than 128 bytes. -/
lemma ReadStep.count_le (h : ReadStep context script (some buffer) raw outputMultiplier r)
    (hstarted : context.health.Started) {n : ℕ} (hrc : r.rc = .ok n) : n ≤ 128 := by
  by_cases hacc : r.accepted = true
  · cases hrc.symm.trans (h.count_of_accepted hstarted hacc)
    split_ifs <;> omega
  · rcases h.idle_or with ⟨_, _, hidle⟩ | ⟨_, _, _, _, rfl⟩ | ⟨_, rfl⟩
    · rcases hidle.rc_eq with hrc' | ⟨e, hrc'⟩
      · cases hrc.symm.trans hrc'
        exact Nat.zero_le _
      · cases hrc.symm.trans hrc'
    · exact absurd rfl hacc
    · cases hrc
      rw [squeezeChunk_count]
      exact chunkSize_le_chunk context

end

/-- The rounds of a program that has started read into a context that is initialised. -/
lemma run_initialised {opts : OptStruct} {p p' : Process} {cs : List RoundRecord}
    (h : Run (mainStep opts) p cs p') (hp : p.context.Initialised) :
    ∀ c ∈ cs, c.before.context.Initialised := by
  have hinv := h.invariant_of (I := fun p => p.context.Initialised) (P := fun _ => True)
    (fun c hstep _ hI =>
      readStep_initialised (c := RoundRecord.call opts c) (mainStep_cases hstep).1 hI)
    (fun _ _ => trivial) hp
  exact fun c hc => (hinv.1 c hc).1

/-- With small chunks the context stays small. -/
lemma run_small {opts : OptStruct} {p p' : Process} {cs : List RoundRecord}
    (h : Run (mainStep opts) p cs p') (hsmall : SmallChunks opts)
    (hp : p.context.Small opts.raw) : ∀ c ∈ cs, c.before.context.Small opts.raw := by
  have hinv := h.invariant_of (I := fun p => p.context.Small opts.raw) (P := fun _ => True)
    (fun c hstep _ hI =>
      call_small (c := RoundRecord.call opts c) (mainStep_cases hstep).1 rfl rfl hsmall hI)
    (fun _ _ => trivial) hp
  exact fun c hc => (hinv.1 c hc).1

/-- The first round of the program on the device of the register, which uses a block. -/
lemma exists_first_print (options : List CommandOption) (opts : OptStruct)
    (hconfigure : configure noEnvironment options = some opts) (hdev : opts.devRandom = false) :
    ∃ (p p' : Process) (c : RoundRecord),
      startMain tableLog noEnvironment options blankContext registerScript 371 = some (opts, p) ∧
      Run (mainStep opts) p [c] p' ∧ c.output.read.accepted = true := by
  obtain ⟨p, script, bytes, context, hstart, hreturned, _, hblock, haccepts⟩ :=
    exists_startMain hconfigure
  have hread := hblock.readData haccepts (some fun _ => 0) opts.raw opts.outputMultiplier
  have hstep : ∃ out p', mainStep opts p ⟨script, fun _ => 0, true⟩ = some (out, p') ∧
      out.read.accepted = true := by
    rw [mainStep, if_neg (by simp [hreturned]), hread, Option.map_some]
    split_ifs
    · exact ⟨_, _, rfl, rfl⟩
    · simp only [outputBytes, hdev]
      exact ⟨_, _, rfl, rfl⟩
  obtain ⟨out, p', hstep, hacc⟩ := hstep
  exact ⟨p, p', ⟨p, ⟨script, fun _ => 0, true⟩, out, p'⟩, hstart, .single hstep, hacc⟩

/-- In every run of the main loop, from every command line that is accepted: a call stores no byte
beyond the end of `result`, whose size is fixed before the loop, and only bytes that this call has
stored are printed or handed to the pool. -/
theorem result_in_bounds {log : Float → Float} (hlog : LogAccurate log) {env : Environment}
    {options : List CommandOption} {context : Context} {script : InitScript} {fuel : ℕ}
    {opts : OptStruct} {p p' : Process} {cs : List RoundRecord}
    (hstart : startMain log env options context script fuel = some (opts, p))
    (h : Run (mainStep opts) p cs p') :
    ∀ c ∈ cs, c.output.read.written ≤ resultSize opts ∧
      (∀ i, resultSize opts ≤ i → c.result i = c.input.result i) ∧
        (c.output.read.rc = .ok c.output.read.written ∨
          c.output.read.written = 0 ∧ ∃ e, c.output.read.rc = .error e) := by
  obtain ⟨hinit, hzero, _⟩ := startMain_cases hlog hstart
  intro c hc
  have hbefore := run_initialised h hinit c hc
  have hcall := (mainStep_cases (h.step_of_mem hc)).1
  obtain ⟨hread, _⟩ := readStep_cases hcall
  obtain ⟨result, hresult, hframe, hcount⟩ := hread.stores hbefore.given_dvd
  dsimp only [RoundRecord.call] at hread hresult hframe hcount
  have hfits : c.output.read.written ≤ resultSize opts := by
    rcases hcount with hrc | ⟨hnone, _⟩
    · rw [resultSize]
      split_ifs with hsize
      · have hsmall : SmallChunks opts := by
          rcases hsize with hm | hraw
          · exact .inr (by omega)
          · exact .inl hraw
        have hp : p.context.Small opts.raw := ⟨hinit, fun _ => hzero, hzero ▸ Nat.zero_le _⟩
        exact call_le (c := c.call opts) hcall rfl rfl hsmall (run_small h hsmall hp c hc) hrc
      · exact hread.count_le hbefore.started hrc
    · exact hnone ▸ Nat.zero_le _
  refine ⟨hfits, fun i hi => ?_, hcount⟩
  rw [RoundRecord.result, hresult]
  exact hframe i (hfits.trans hi)

/-- Without options the first block is stored in 64 bytes. -/
theorem result_in_bounds_default : ∃ (p p' : Process) (c : RoundRecord),
    startMain tableLog noEnvironment [] blankContext registerScript 371 = some (initOpts, p) ∧
    Run (mainStep initOpts) p [c] p' ∧ c.output.read.accepted = true ∧
    c.output.read.written ≤ 64 := by
  obtain ⟨p, p', c, hstart, hrun, hacc⟩ := exists_first_print [] initOpts rfl rfl
  exact ⟨p, p', c, hstart, hrun, hacc,
    (result_in_bounds tableLog_accurate hstart hrun c List.mem_cons_self).1⟩

/-! ### The stream -/

/-- The sponge behind what is printed. Without a multiplier the state is not permuted after its
bytes are taken. -/
def printSponge (outputMultiplier : ℕ) : Sponge KeccakState (Vector Byte 64) Byte :=
  if outputMultiplier = 0 then { kernelSponge with permute := id } else kernelSponge

/-- What is printed for a block: the whole bytes of its 437 bits, or 32 bytes for each unit of the
multiplier. -/
def printBudget (outputMultiplier : ℕ) : ℕ :=
  if outputMultiplier = 0 then 54 else 32 * outputMultiplier

/-- A program that has started without `--raw` has an empty sponge. -/
lemma startMain_sponge {log : Float → Float} {env : Environment} {options : List CommandOption}
    {context : Context} {script : InitScript} {fuel : ℕ} {opts : OptStruct} {p : Process}
    (h : startMain log env options context script fuel = some (opts, p)) (hraw : opts.raw = false) :
    p.context.keccakBytesGiven = 0 ∧ p.context.tables = keccakInitialize context.tables ∧
      p.context.keccakState = Kernel.infnoiseKeccakInit := by
  simp only [startMain, Option.bind_eq_bind, Option.bind_eq_some_iff] at h
  obtain ⟨opts', _, h⟩ := h
  split at h
  · rename_i context' hinit
    cases h
    rw [hraw] at hinit
    exact initInfnoise_sponge hinit
  · cases h

/-- What holds of the context between the rounds of whitened output. -/
structure Context.Printing (t : KeccakTables) (m : ℕ) (context : Context) : Prop where
  whitening : context.Whitening t
  started : context.health.Started
  given_eq : m = 0 → context.keccakBytesGiven = 0

/-- Without a multiplier the bytes of a block are all given at once. -/
lemma processBytes_zero_drain {t : KeccakTables} {context : Context} (h : context.Whitening t)
    (hgiven : context.keccakBytesGiven = 0) (hentropy : context.capEntropy.entropyThisTime = 437)
    (bytes buffer : ℕ → Byte) :
    (printSponge 0).drain 128 (kernelSponge.absorb context.keccakState (blockOf bytes), 54) =
      ((processBytes context bytes (some buffer) false 0).bytes,
        ((processBytes context bytes (some buffer) false 0).context.keccakState,
          (processBytes context bytes (some buffer) false 0).context.keccakBytesGiven)) := by
  have hstate : (context.capEntropy.absorb bytes).keccakState =
      kernelSponge.absorb context.keccakState (blockOf bytes) := by
    rw [Kernel.absorb_blockOf, keccakAbsorb_eq t, Context.absorb, Context.capEntropy_eq,
      h.tables_eq]
    rfl
  have hentropy' : (context.capEntropy.absorb bytes).entropyThisTime = 437 := hentropy
  rw [(processBytes_zero_whitening h bytes (some buffer)).2, hgiven, Filled.bytes,
    processBytes_zero]
  simp only [hentropy', hstate, Option.map_some, Option.getD_some]
  generalize kernelSponge.absorb context.keccakState (blockOf bytes) = state
  have hbytes : bufferBytes (memcpy buffer 0 (keccakExtract state (fun _ => 0)
      (u32 (437 + 63) / 64)) (437 / 8)) (437 / 8) = leadingBytes state 54 := by
    refine List.map_congr_left fun k hk => ?_
    rw [List.mem_range] at hk
    rw [memcpy_of_lt (Nat.zero_le k) (by omega), Nat.sub_zero, ← keccakExtract_eq state _ (by decide),
      Kernel.infnoiseKeccakExtract,
      memcpy_of_lt (Nat.zero_le k) (hk.trans_le (by decide)), Nat.sub_zero]
  rw [hbytes]
  rfl

/-- A call without a multiplier is a step of its sponge, or leaves it alone and returns nothing. -/
lemma readStep_sponge_zero {t : KeccakTables} {c : ReadRecord}
    (hstep : readStep c.before c.input = some (c.output, c.after)) (hcall : c.Whitened 0)
    (h : c.before.Printing t 0) :
    c.after.Printing t 0 ∧
      (spongeEvent c.output.ops = none → c.bytes = [] ∧
        c.after.keccakState = c.before.keccakState ∧
        c.after.keccakBytesGiven = c.before.keccakBytesGiven) ∧
      ∀ e, spongeEvent c.output.ops = some e →
        (printSponge 0).step 54 128 (c.before.keccakState, c.before.keccakBytesGiven) e =
          some (c.bytes, (c.after.keccakState, c.after.keccakBytesGiven)) := by
  obtain ⟨context, ⟨script, result, raw, m⟩, r, after⟩ := c
  obtain ⟨hraw, hmult, hresult⟩ := hcall
  dsimp only at hstep h hraw hmult hresult ⊢
  subst hraw hmult
  obtain ⟨buffer, rfl⟩ := Option.isSome_iff_exists.mp hresult
  obtain ⟨hread, rfl⟩ := readStep_cases hstep
  have hgiven := h.given_eq rfl
  have hstarted := h.started.of_config hread.config_eq
  by_cases hacc : r.accepted = true
  · have hentropy := hread.entropy_of_accepted h.started hacc
    rcases hread.idle_or with ⟨_, hnone, _⟩ | ⟨bytes, context', hblock, _, rfl⟩ | ⟨hpos, _⟩
    · rw [hnone] at hacc
      cases hacc
    · have hsponge : context'.tables = context.tables ∧
          context'.keccakState = context.keccakState := by
        obtain ⟨_, health, _, rfl⟩ := hblock.cases
        exact ⟨rfl, rfl⟩
      have hwhitening : context'.Whitening t :=
        ⟨hsponge.1.trans h.whitening.tables_eq, hblock.given_after ▸ dvd_zero 8,
          hblock.given_after ▸ Nat.zero_lt_succ _⟩
      obtain ⟨hwhitening', hgiven'⟩ := processBytes_zero_whitening hwhitening bytes (some buffer)
      rw [hblock.given_after] at hgiven'
      rw [Filled.toRead, (processBytes_keeps _ _ _ _ _).2] at hentropy
      have hdrain := processBytes_zero_drain hwhitening hblock.given_after hentropy bytes buffer
      refine ⟨⟨hwhitening', hstarted, fun _ => hgiven'⟩, (fun he => by cases he), fun e he => ?_⟩
      cases he
      rw [Sponge.step, if_pos hgiven]
      rw [hsponge.2] at hdrain
      exact congrArg some hdrain
    · exact absurd hgiven (Nat.ne_of_gt hpos)
  · rcases hread.idle_or with ⟨_, _, hidle⟩ | ⟨_, _, _, _, rfl⟩ | ⟨hpos, _⟩
    · have hgiven' := hidle.keccakBytesGiven_eq.trans hgiven
      rw [hidle.ops_eq]
      refine ⟨⟨⟨hidle.tables_eq.trans h.whitening.tables_eq, hgiven' ▸ dvd_zero 8,
        hgiven' ▸ Nat.zero_lt_succ _⟩, hstarted, fun _ => hgiven'⟩,
        fun _ => ⟨?_, hidle.keccakState_eq, hidle.keccakBytesGiven_eq⟩, fun e he => by cases he⟩
      rcases hidle.rc_eq with hrc | ⟨e, hrc⟩
      · rw [ReadRecord.bytes, hrc]
        rcases r.result with _ | result <;> simp [bufferBytes]
      · rw [ReadRecord.bytes, hrc]
    · exact absurd rfl hacc
    · exact absurd hgiven (Nat.ne_of_gt hpos)

/-- With any multiplier below `2 ^ 24`, a whitened call is a step of the sponge behind what is
printed, or leaves it alone and returns nothing. -/
lemma readStep_print {m : ℕ} (hm24 : m < 16777216) {t : KeccakTables} {c : ReadRecord}
    (hstep : readStep c.before c.input = some (c.output, c.after)) (hcall : c.Whitened m)
    (h : c.before.Printing t m) :
    c.after.Printing t m ∧
      (spongeEvent c.output.ops = none → c.bytes = [] ∧
        c.after.keccakState = c.before.keccakState ∧
        c.after.keccakBytesGiven = c.before.keccakBytesGiven) ∧
      ∀ e, spongeEvent c.output.ops = some e →
        (printSponge m).step (printBudget m) 128
            (c.before.keccakState, c.before.keccakBytesGiven) e =
          some (c.bytes, (c.after.keccakState, c.after.keccakBytesGiven)) := by
  by_cases hm : m = 0
  · subst hm
    exact readStep_sponge_zero hstep hcall h
  · obtain ⟨hwhitening, hrest⟩ :=
      readStep_sponge (Nat.one_le_iff_ne_zero.mpr hm) hm24 hstep hcall h.whitening
    obtain ⟨hread, hafter⟩ := readStep_cases hstep
    refine ⟨⟨hwhitening, ?_, fun hzero => absurd hzero hm⟩, ?_⟩
    · rw [hafter]
      exact h.started.of_config hread.config_eq
    · rw [printSponge, printBudget, if_neg hm, if_neg hm]
      exact hrest

/-- The block that a whitened call absorbs is that of its samples; it absorbs one if it uses one. -/
lemma ReadStep.absorbs {context : Context} {script : UsbScript} {result : Option (ℕ → Byte)}
    {outputMultiplier : ℕ} {r : ReadResult}
    (h : ReadStep context script result false outputMultiplier r) :
    (r.accepted = true ↔ (absorbedBlock r.ops).isSome) ∧ ∀ block ∈ absorbedBlock r.ops,
      ∃ bytes, PackedBits bytes script.inBuf 64 ∧ block = blockOf bytes := by
  rcases h.idle_or with ⟨_, hnone, hidle⟩ | ⟨bytes, context', hblock, _, rfl⟩ | ⟨_, rfl⟩
  · simp [hnone, hidle.ops_eq, absorbedBlock]
  · have hops : absorbedBlock (processBytes context' bytes result false outputMultiplier).ops =
        some (blockOf bytes) := by
      by_cases hm : outputMultiplier = 0
      · subst hm
        rw [processBytes_zero]
        rfl
      · rw [processBytes_multiplier _ _ _ hm hblock.given_after]
        rfl
    obtain ⟨hpacked, _⟩ := hblock.cases
    simp only [Filled.toRead, hops]
    refine ⟨by simp, fun block heq => ⟨bytes, hpacked, ?_⟩⟩
    exact (Option.mem_some_iff.mp heq).symm
  · simp [Filled.toRead, absorbedBlock]

/-- A raw call returns the block it uses, as it is, and otherwise nothing. -/
lemma ReadStep.raw_bytes {context : Context} {script : UsbScript} {buffer : ℕ → Byte}
    {outputMultiplier : ℕ} {r : ReadResult}
    (h : ReadStep context script (some buffer) true outputMultiplier r)
    (hgiven : context.keccakBytesGiven = 0) :
    (r.accepted = false → r.rc = .ok 0 ∨ ∃ e, r.rc = .error e) ∧
      (r.accepted = true → r.rc = .ok 64 ∧ ∃ bytes, PackedBits bytes script.inBuf 64 ∧
        r.result = some (memcpy buffer 0 bytes 64)) := by
  rcases h.idle_or with ⟨_, hnone, hidle⟩ | ⟨bytes, context', hblock, _, rfl⟩ | ⟨hpos, _⟩
  · refine ⟨fun _ => hidle.rc_eq, fun hacc => ?_⟩
    rw [hnone] at hacc
    cases hacc
  · obtain ⟨hpacked, _⟩ := hblock.cases
    exact ⟨(fun hacc => by cases hacc), fun _ => ⟨rfl, bytes, hpacked, rfl⟩⟩
  · exact absurd hgiven (Nat.ne_of_gt hpos)

section

variable {opts : OptStruct} {c : RoundRecord}

/-- What is printed in a round is what its call has returned. -/
lemma stdout_eq (h : mainStep opts c.before c.input = some (c.output, c.after))
    (hbefore : c.before.context.Initialised) (hno : opts.noOutput = false)
    (hdev : opts.devRandom = false) : c.stdout opts = (c.call opts).bytes := by
  obtain ⟨hread, _⟩ := readStep_cases (mainStep_cases h).1
  obtain ⟨result, hresult, _, _⟩ := hread.stores hbefore.given_dvd
  have houtput : (c.call opts).output = c.output.read := rfl
  rw [RoundRecord.stdout, ReadRecord.bytes, RoundRecord.result, houtput]
  change c.output.read.result = some result at hresult
  rcases c.output.read.rc with e | n
  · rfl
  · simp [hresult, hno, hdev]

/-- With `--raw` a round prints the block it uses, and otherwise nothing. -/
lemma stdout_raw (h : mainStep opts c.before c.input = some (c.output, c.after))
    (hbefore : c.before.context.Small opts.raw) (hraw : opts.raw = true)
    (hno : opts.noOutput = false) (hdev : opts.devRandom = false) :
    (c.output.read.accepted = false → c.stdout opts = []) ∧
      (c.output.read.accepted = true → ∃ bytes, PackedBits bytes c.input.script.inBuf 64 ∧
        c.stdout opts = bufferBytes bytes 64) := by
  obtain ⟨hread, _⟩ := readStep_cases (mainStep_cases h).1
  dsimp only [RoundRecord.call] at hread
  rw [hraw] at hread
  obtain ⟨hnothing, hblock⟩ := hread.raw_bytes (hbefore.raw_given hraw)
  constructor
  · intro hacc
    rcases hnothing hacc with hrc | ⟨e, hrc⟩
    · rw [RoundRecord.stdout, hrc]
      simp [bufferBytes]
    · rw [RoundRecord.stdout, hrc]
  · intro hacc
    obtain ⟨hrc, bytes, hpacked, hresult⟩ := hblock hacc
    refine ⟨bytes, hpacked, ?_⟩
    rw [RoundRecord.stdout, hrc, RoundRecord.result, hresult]
    simp only [hno, hdev, Bool.or_self, Bool.false_eq_true, if_false, Option.getD_some]
    refine List.map_congr_left fun k hk => ?_
    rw [List.mem_range] at hk
    rw [memcpy_of_lt (Nat.zero_le k) (by omega), Nat.sub_zero]

end

/-- What the program prints, in every run of its main loop without `--dev-random`. With `--raw` it
is the blocks it uses, one after the other; otherwise it is, with what is left to give at the end,
what one sponge gives for these blocks, in their order, and each block is made of the samples of its
round. The multiplier is below `2 ^ 24`, where the budget of a block wraps around. -/
theorem stdout_stream {log : Float → Float} (hlog : LogAccurate log) {env : Environment}
    {options : List CommandOption} {context : Context} {script : InitScript} {fuel : ℕ}
    {opts : OptStruct} {p p' : Process} {cs : List RoundRecord}
    (hstart : startMain log env options context script fuel = some (opts, p))
    (hno : opts.noOutput = false) (hdev : opts.devRandom = false)
    (hm24 : opts.outputMultiplier < 16777216) (h : Run (mainStep opts) p cs p') :
    (opts.raw = true → ∀ c ∈ cs, (c.output.read.accepted = false → c.stdout opts = []) ∧
      (c.output.read.accepted = true → ∃ bytes, PackedBits bytes c.input.script.inBuf 64 ∧
        c.stdout opts = bufferBytes bytes 64)) ∧
    (opts.raw = false →
      cs.flatMap (RoundRecord.stdout opts) ++ ((printSponge opts.outputMultiplier).giveAll 128
          (p'.context.keccakState, p'.context.keccakBytesGiven)).1 =
        ((printSponge opts.outputMultiplier).giveBlocks (printBudget opts.outputMultiplier) 128
          Kernel.infnoiseKeccakInit
          (cs.filterMap fun c => absorbedBlock c.output.read.ops)).1 ∧
      ∀ c ∈ cs, (c.output.read.accepted = true ↔ (absorbedBlock c.output.read.ops).isSome) ∧
        ∀ block ∈ absorbedBlock c.output.read.ops,
          ∃ bytes, PackedBits bytes c.input.script.inBuf 64 ∧ block = blockOf bytes) := by
  obtain ⟨hinit, hzero, _⟩ := startMain_cases hlog hstart
  constructor
  · intro hraw c hc
    have hp : p.context.Small opts.raw := ⟨hinit, fun _ => hzero, hzero ▸ Nat.zero_le _⟩
    exact stdout_raw (h.step_of_mem hc) (run_small h (.inl hraw) hp c hc) hraw hno hdev
  · intro hraw
    obtain ⟨_, htables, hstate⟩ := startMain_sponge hstart hraw
    have hprinting : p.context.Printing context.tables opts.outputMultiplier :=
      ⟨⟨htables, hzero ▸ dvd_zero 8, hzero ▸ Nat.zero_lt_succ _⟩, hinit.started, fun _ => hzero⟩
    have hcalls : ∀ c ∈ cs.map (RoundRecord.call opts),
        ReadRecord.Whitened opts.outputMultiplier c := by
      intro c hc
      obtain ⟨d, _, rfl⟩ := List.mem_map.mp hc
      exact ⟨hraw, rfl, rfl⟩
    obtain ⟨hrun, hblocks, hstream⟩ := Sponge.refines_of_step
      (fun context : Context => (context.keccakState, context.keccakBytesGiven))
      (fun c : ReadRecord => spongeEvent c.output.ops) ReadRecord.bytes
      (fun c hstep hcall hI => by
        obtain ⟨hI', hnone, hsome⟩ := readStep_print hm24 hstep hcall hI
        refine ⟨hI', fun he => ?_, hsome⟩
        obtain ⟨hbytes, hstate, hgiven⟩ := hnone he
        exact ⟨hbytes, by rw [hstate, hgiven]⟩)
      (mainStep_refines h) hcalls hprinting
    constructor
    · have hbudget : 0 < printBudget opts.outputMultiplier := by
        rw [printBudget]
        split_ifs <;> omega
      have hgive := Sponge.stream_append_giveAll hbudget (by norm_num) hrun
      rw [hstream, hblocks, Sponge.giveAll_of_eq (s := (_, _)) hzero, List.nil_append, hstate,
        List.flatMap_map, List.filterMap_map] at hgive
      simp only [Function.comp_def, ← Kernel.absorbedBlock_eq] at hgive
      refine Eq.trans ?_ hgive
      congr 1
      refine List.flatMap_congr fun c hc => ?_
      exact stdout_eq (h.step_of_mem hc) (run_initialised h hinit c hc) hno hdev
    · intro c hc
      obtain ⟨hread, _⟩ := readStep_cases (mainStep_cases (h.step_of_mem hc)).1
      dsimp only [RoundRecord.call] at hread
      rw [hraw] at hread
      exact hread.absorbs

/-- Without options, what is printed for the first block is what the sponge gives for it. -/
theorem stdout_stream_default : ∃ (p p' : Process) (c : RoundRecord) (block : Vector Byte 64),
    startMain tableLog noEnvironment [] blankContext registerScript 371 = some (initOpts, p) ∧
    Run (mainStep initOpts) p [c] p' ∧ absorbedBlock c.output.read.ops = some block ∧
    c.stdout initOpts ++ ((printSponge 0).giveAll 128
        (p'.context.keccakState, p'.context.keccakBytesGiven)).1 =
      ((printSponge 0).giveBlocks 54 128 Kernel.infnoiseKeccakInit [block]).1 := by
  obtain ⟨p, p', c, hstart, hrun, hacc⟩ := exists_first_print [] initOpts rfl rfl
  obtain ⟨hstream, hblocks⟩ := (stdout_stream tableLog_accurate hstart rfl rfl
    (Nat.zero_lt_succ _) hrun).2 rfl
  obtain ⟨block, hblock⟩ :=
    Option.isSome_iff_exists.mp ((hblocks c List.mem_cons_self).1.mp hacc)
  refine ⟨p, p', c, block, hstart, hrun, hblock, ?_⟩
  have hfilter : [c].filterMap (fun c => absorbedBlock c.output.read.ops) = [block] := by
    simp [hblock]
  rw [hfilter, List.flatMap_cons, List.flatMap_nil, List.append_nil] at hstream
  exact hstream

end Userspace
