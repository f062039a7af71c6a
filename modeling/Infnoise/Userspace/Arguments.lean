import Infnoise.Userspace.Entropy
import Infnoise.Userspace.Multiplier

/-!
# The arguments of a call of `readData`

`raw` and `outputMultiplier` are arguments of every call, but bytes left from an earlier block are
given before either is looked at.
-/

namespace Userspace

open Core Core.Binary64 Reference

attribute [local irreducible] keccakPermutation keccakAbsorb keccakExtract

/-- The size of `result` that the header asks for. -/
def bufferSize (raw : Bool) (outputMultiplier : ℕ) : ℕ :=
  if raw ∨ outputMultiplier ≤ 2 then 64 else 128

@[simp] lemma bufferSize_whitened (outputMultiplier : ℕ) :
    bufferSize false outputMultiplier = if outputMultiplier ≤ 2 then 64 else 128 := by
  simp [bufferSize]

/-- The call does what its arguments say: raw bytes are 64, and those of the samples read in this
call, and the buffer is large enough for what is stored in it. -/
structure ReadRecord.HonoursArguments (c : ReadRecord) : Prop where
  raw_exact : c.input.raw = true → 0 < c.bytesReturned →
    c.bytesReturned = 64 ∧ ∃ inBuf, c.output.samples = some inBuf ∧
      ∀ result, c.output.result = some result → PackedBits result inBuf 64
  fits : c.output.written ≤ bufferSize c.input.raw c.input.outputMultiplier

/-- What holds of a context between the calls: chunks are made of units of 32 bytes. -/
structure Context.Initialised (context : Context) : Prop where
  started : context.health.Started
  given_dvd : 32 ∣ context.keccakBytesGiven
  given_lt : context.keccakBytesGiven < 4294967296

lemma initInfnoise_initialised {log : Float → Float} (hlog : LogAccurate log)
    {context context' : Context} {serial : Option String} {keccak debug : Bool}
    {script : InitScript} {fuel : ℕ}
    (h : initInfnoise log context serial keccak debug script fuel = some (true, context')) :
    context'.Initialised := by
  obtain ⟨hgiven, hconfig, _⟩ := initInfnoise_cases h
  refine ⟨?_, hgiven ▸ dvd_zero 32, hgiven ▸ Nat.zero_lt_succ _⟩
  have hexpected : context'.health.expectedEntropyPerBit = log designK / log 2.0 := by
    simp only [HealthState.config, Prod.mk.injEq] at hconfig
    exact hconfig.2.2.1
  rw [HealthState.Started, hexpected]
  exact hlog.bounds

/-- A call keeps a context initialised. -/
lemma readStep_initialised {c : ReadRecord}
    (hstep : readStep c.before c.input = some (c.output, c.after))
    (h : c.before.Initialised) : c.after.Initialised := by
  have hlaw := readStep_lawful hstep h.given_lt
  refine ⟨?_, ?_, hlaw.after_lt h.given_lt⟩
  · obtain ⟨hread, hafter⟩ := readStep_cases hstep
    rw [hafter]
    exact h.started.of_config hread.config_eq
  · have hdvd := h.given_dvd
    cases hlaw with
    | chunk husb habs hbytes hafter => omega
    | funded husb habs hm hbytes hafter =>
      rw [bytesOfMultiplier_eq] at hbytes hafter
      omega
    | idle husb hidle hafter => omega

/-- A call that goes to the device honours its arguments. -/
lemma ReadStep.honours {context : Context} {call : ReadCall} {r : ReadResult}
    (h : ReadStep context call.script call.result call.raw call.outputMultiplier r)
    (hgiven : context.keccakBytesGiven = 0) (hstarted : context.health.Started) :
    ReadRecord.HonoursArguments ⟨context, call, r, r.context⟩ := by
  obtain ⟨script, result, raw, m⟩ := call
  rcases h.idle_or with ⟨_, _, hidle⟩ | ⟨bytes, context', hblock, _, rfl⟩ | ⟨hpos, _⟩
  · refine ⟨fun _ hpos => absurd hpos ?_, hidle.written_eq.le.trans (Nat.zero_le _)⟩
    rcases hidle.rc_eq with hrc | ⟨e, hrc⟩ <;> simp [ReadRecord.bytesReturned, hrc]
  · rcases raw with _ | _
    · refine ⟨fun hraw => absurd hraw Bool.false_ne_true, ?_⟩
      by_cases hm : m = 0
      · subst hm
        obtain ⟨hstarted', hlt⟩ := hblock.started hstarted
        have hcap := Context.capEntropy_eq_min hstarted' hlt
        change context'.capEntropy.entropyThisTime / 8 ≤ 64
        omega
      · simp only [Filled.toRead, processBytes_multiplier _ _ _ hm hblock.given_after,
          squeezeChunk_written, chunkSize, Context.fund_keccakBytesGiven, bytesOfMultiplier_eq,
          bufferSize_whitened]
        split_ifs <;> omega
    · refine ⟨fun _ _ => ⟨rfl, script.inBuf, rfl, ?_⟩, le_rfl⟩
      intro buffer hbuffer i hi j hj
      simp only [Filled.toRead, processBytes_raw] at hbuffer
      obtain ⟨buffer', _, rfl⟩ := Option.map_eq_some_iff.mp hbuffer
      rw [memcpy_of_lt (Nat.zero_le i) (by simpa using hi)]
      exact hblock.cases.1 i hi j hj
  · exact absurd hgiven (Nat.ne_of_gt hpos)

/-- In every run of calls on an initialised context, with any arguments: a call honours its
arguments exactly when nothing is left from an earlier block, or when it is a whitened call whose
buffer holds the next chunk. -/
theorem honoursArguments_iff {log : Float → Float} (hlog : LogAccurate log)
    {context₀ context context' : Context} {serial : Option String} {keccak debug : Bool}
    {script : InitScript} {fuel : ℕ}
    (hinit : initInfnoise log context₀ serial keccak debug script fuel = some (true, context))
    {cs : List ReadRecord} (h : Run readStep context cs context') :
    ∀ c ∈ cs, c.HonoursArguments ↔ c.before.keccakBytesGiven = 0 ∨
      c.input.raw = false ∧
        (2 < c.input.outputMultiplier ∨ c.before.keccakBytesGiven ≤ 64) := by
  intro c hc
  have hinv := h.invariant_of (I := Context.Initialised) (P := fun _ => True)
    (fun c hstep _ hI => readStep_initialised hstep hI) (fun _ _ => trivial)
    (initInfnoise_initialised hlog hinit)
  obtain ⟨hbefore, _⟩ := hinv.1 c hc
  have hstep := h.step_of_mem hc
  obtain ⟨before, call, r, after⟩ := c
  rw [readStep, Option.map_eq_some_iff] at hstep
  obtain ⟨r', hread, heq⟩ := hstep
  obtain ⟨rfl, rfl⟩ := Prod.mk.inj heq
  dsimp only at hread hbefore ⊢
  have hstep := readData_step hread
  by_cases hgiven : before.keccakBytesGiven = 0
  · exact ⟨fun _ => .inl hgiven, fun _ => hstep.honours hgiven hbefore.started⟩
  · -- the chunk comes from an earlier block, whatever the arguments
    have hdvd := hbefore.given_dvd
    rw [readData, if_neg hgiven, Option.some.injEq] at hread
    subst hread
    constructor
    · rintro ⟨hexact, hfits⟩
      have hraw : call.raw = false := by
        by_contra hne
        obtain ⟨_, inBuf, hsamples, _⟩ := hexact (by simpa using hne) (by
          simp only [ReadRecord.bytesReturned, Filled.toRead, squeezeChunk_count, chunkSize]
          omega)
        cases hsamples
      simp only [Filled.toRead, squeezeChunk_written, chunkSize, hraw, bufferSize_whitened] at hfits
      refine .inr ⟨hraw, ?_⟩
      split_ifs at hfits <;> omega
    · rintro (h0 | ⟨hraw, hsize⟩)
      · exact absurd h0 hgiven
      · refine ⟨fun hraw' => ?_, ?_⟩
        · rw [hraw] at hraw'
          cases hraw'
        · simp only [Filled.toRead, squeezeChunk_written, chunkSize, hraw, bufferSize_whitened]
          split_ifs <;> omega

/-- After a block with multiplier 10 come a call with multiplier 3 and a raw one, which is given the
last 64 whitened bytes of that block. -/
theorem honoursArguments_three : ∃ (context context' : Context) (c d e : ReadRecord),
    initInfnoise tableLog blankContext none true false registerScript 371 = some (true, context) ∧
    Run readStep context [c, d, e] context' ∧
    [c, d, e].map (fun f => (f.input.raw, f.input.outputMultiplier, f.bytesReturned)) =
      [(false, 10, 128), (false, 3, 128), (true, 3, 64)] ∧
    c.HonoursArguments ∧ d.HonoursArguments ∧ ¬ e.HonoursArguments := by
  obtain ⟨context, context₁, c, hinit, hrun₁, habs, _, hraw, hm, _, hbytes, hleft⟩ :=
    exists_absorbed (fun _ => 0) (m := 10) (by norm_num)
  have hgiven : c.before.keccakBytesGiven = 0 :=
    c.readsUsb_of_absorbs (hrun₁.step_of_mem List.mem_cons_self) habs
  have hleft₁ : context₁.keccakBytesGiven = 192 := hleft
  obtain ⟨context₂, d, hrun₂, hbefore₂, hinput₂, hbytes₂, hleft₂⟩ :=
    @exists_squeezed context₁ ⟨unplugged, some fun _ => 0, false, 3⟩ (by omega) (by omega)
  obtain ⟨context₃, e, hrun₃, hbefore₃, hinput₃, hbytes₃, _⟩ :=
    @exists_squeezed context₂ ⟨unplugged, some fun _ => 0, true, 3⟩ (by omega) (by omega)
  have hrun : Run readStep context [c, d, e] context₃ := hrun₁.append (hrun₂.append hrun₃)
  have hiff := honoursArguments_iff tableLog_accurate hinit hrun
  simp only [List.forall_mem_cons] at hiff
  obtain ⟨hc, hd, he, -⟩ := hiff
  refine ⟨context, context₃, c, d, e, hinit, hrun, ?_, hc.mpr (.inl hgiven), hd.mpr (.inr ?_), ?_⟩
  · simp only [List.map_cons, List.map_nil, hraw, hm, hbytes, hinput₂, hbytes₂, hinput₃, hbytes₃,
      hleft₂, hleft₁]
    rfl
  · rw [hinput₂]
    exact ⟨rfl, .inl (by norm_num)⟩
  · rw [he, hbefore₃, hinput₃]
    rintro (hzero | ⟨hwhitened, _⟩)
    · omega
    · cases hwhitened

/-- After a block with multiplier 10, a raw call returns 128 whitened bytes of that block. -/
theorem raw_call_squeezes : ∃ (context context' : Context) (c d : ReadRecord),
    initInfnoise tableLog blankContext none true false registerScript 371 = some (true, context) ∧
    Run readStep context [c, d] context' ∧ d.input.raw = true ∧ d.bytesReturned = 128 ∧
    ¬ d.HonoursArguments := by
  obtain ⟨context, context₁, c, hinit, hrun, _, _, _, _, _, _, hleft⟩ :=
    exists_absorbed (fun _ => 0) (m := 10) (by norm_num)
  have hgiven : context₁.keccakBytesGiven = 192 := hleft
  obtain ⟨context₂, d, hrun', -, hinput, hbytes, -⟩ :=
    @exists_squeezed context₁ ⟨unplugged, some fun _ => 0, true, 1⟩ (by omega) (by omega)
  have hraw : d.input.raw = true := by rw [hinput]
  have hbytes' : d.bytesReturned = 128 := by
    rw [hbytes, hgiven]
    rfl
  refine ⟨context, context₂, c, d, hinit, hrun.append hrun', hraw, hbytes', fun hhonours => ?_⟩
  have hexact := (hhonours.raw_exact hraw (by omega)).1
  omega

end Userspace
