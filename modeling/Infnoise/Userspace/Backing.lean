import Infnoise.Userspace.Credit

/-!
# Entropy credit and length

What the pool is credited with comes from the entropy of a block, and the length from the multiplier
and the chunks. The two are rounded apart: the 437 bits of a block are credited with 54 bytes, with
32, with none, and with whatever is left of an earlier block.
-/

namespace Userspace

open Core Core.Binary64 Reference

attribute [local irreducible] keccakPermutation keccakAbsorb keccakExtract

/-- The pool is credited with no more bits than it is handed. -/
def RoundRecord.Backed (c : RoundRecord) : Prop :=
  ∀ w, c.output.poolWrite = some w → w.entropyCount ≤ 8 * w.bufSize

/-- The bytes of a round can carry the 437 bits of a block: 55 bytes or more are still to be given,
samples that come too late and a block that is rejected find no measurement in the context, and a
block that is used is raw, or has a multiplier of at least two in 24 bits. -/
structure RoundRecord.Carries (opts : OptStruct) (c : RoundRecord) : Prop where
  chunk : c.squeezes → 55 ≤ c.before.context.keccakBytesGiven
  late : c.before.context.Sampled c.input.script → c.input.script.late →
    c.before.context.entropyThisTime = 0
  rejected : ∀ bytes context', c.before.context.Block c.input.script true bytes context' →
    context'.accepts = false → context'.entropyThisTime = 0
  accepted : ∀ bytes context', c.before.context.Block c.input.script true bytes context' →
    context'.accepts = true → opts.raw = true ∨ 2 ≤ opts.outputMultiplier % 16777216

section

variable {opts : OptStruct} {c : RoundRecord}

/-- With output off nothing is handed to the pool. -/
lemma backed_of_noOutput (h : mainStep opts c.before c.input = some (c.output, c.after))
    (hdev : opts.devRandom = true) (hno : opts.noOutput = true) : c.Backed := by
  intro w hw
  obtain ⟨hoff, _⟩ := mainStep_poolWrite h hdev hw
  cases hno.symm.trans hoff

/-- With output on, what counts is the value of the call and the entropy it leaves. -/
lemma backed_iff (h : mainStep opts c.before c.input = some (c.output, c.after))
    (hdev : opts.devRandom = true) (hno : opts.noOutput = false) :
    c.Backed ↔ ∀ n, c.output.read.rc = .ok n →
      c.output.read.context.entropyThisTime ≤ 8 * n := by
  constructor
  · intro hbacked n hrc
    obtain ⟨w, hw, hsize, _, hcount⟩ := mainStep_poolWrite_of_ok h hdev hno hrc
    rw [← hsize, ← hcount]
    exact hbacked w hw
  · intro hall w hw
    obtain ⟨_, hrc, _, hcount⟩ := mainStep_poolWrite h hdev hw
    rw [hcount]
    exact hall _ hrc

/-- A round that receives a block carries its credit, when what is not used was not measured and
what is used yields enough bytes. -/
lemma carries_of_block {ok : Bool} {bytes : ℕ → Byte} {context' : Context}
    (hblock : c.before.context.Block c.input.script ok bytes context')
    (hrejected : ok = true → context'.accepts = false → context'.entropyThisTime = 0)
    (haccepted : ok = true → context'.accepts = true →
      opts.raw = true ∨ 2 ≤ opts.outputMultiplier % 16777216) : c.Carries opts := by
  refine ⟨fun hpending => absurd hblock.given_eq hpending,
    fun _ hlate => absurd hlate hblock.inTime, ?_, ?_⟩
  · intro bytes₁ context₁ hblock₁
    obtain ⟨rfl, _, rfl⟩ := hblock.unique hblock₁
    exact hrejected rfl
  · intro bytes₁ context₁ hblock₁
    obtain ⟨rfl, _, rfl⟩ := hblock.unique hblock₁
    exact haccepted rfl

/-- The bytes of a block that is used are enough for its 437 bits when it is raw, or the multiplier
gives two units of 32 bytes. -/
lemma credit_le_count_iff {raw : Bool} {outputMultiplier : ℕ} :
    437 ≤ 8 * (if raw then 64 else if outputMultiplier = 0 then 54
        else min 128 (bytesOfMultiplier outputMultiplier)) ↔
      raw = true ∨ 2 ≤ outputMultiplier % 16777216 := by
  rw [bytesOfMultiplier_eq]
  split_ifs with hraw hm
  · simp [hraw]
  · simp [hraw, hm]
  · simp only [hraw, Bool.false_eq_true, false_or]
    omega

/-- With output on, a round backs its credit exactly when its bytes can carry it. -/
lemma backed_iff_carries (h : mainStep opts c.before c.input = some (c.output, c.after))
    (hdev : opts.devRandom = true) (hno : opts.noOutput = false) (hctx : c.before.context.Pending) :
    c.Backed ↔ c.Carries opts := by
  rw [backed_iff h hdev hno]
  obtain ⟨hread, _⟩ := readStep_cases (mainStep_cases h).1
  have hstarted := hctx.initialised.started
  obtain ⟨⟨context, pool, returned⟩, ⟨script, result, ok⟩, ⟨r, w⟩, p'⟩ := c
  simp only [RoundRecord.call] at hread
  dsimp only at hctx hstarted ⊢
  cases hread with
  | usbFailed hgiven husb =>
    refine ⟨fun _ => ⟨fun hpending => absurd hgiven hpending, fun hsampled => absurd hsampled husb,
      ?_, ?_⟩, fun _ n hn => by cases hn⟩
    · exact fun bytes context' hblock => absurd hblock.toSampled husb
    · exact fun bytes context' hblock => absurd hblock.toSampled husb
  | late hsampled hlate =>
    constructor
    · intro hall
      refine ⟨fun hpending => absurd hsampled.given_eq hpending,
        fun _ _ => Nat.le_zero.mp (hall 0 rfl), ?_, ?_⟩
      · exact fun bytes context' hblock => absurd hlate hblock.inTime
      · exact fun bytes context' hblock => absurd hlate hblock.inTime
    · intro hcarries n hn
      cases hn
      exact (hcarries.late hsampled hlate).le
  | unhealthy hblock =>
    constructor
    · exact fun _ => carries_of_block hblock (fun hok => by cases hok) fun hok => by cases hok
    · exact fun _ n hn => by cases hn
  | @rejected bytes context' hblock hbad =>
    constructor
    · intro hall
      refine carries_of_block hblock (fun _ _ => Nat.le_zero.mp (hall 0 rfl)) fun _ hgood => ?_
      cases hbad.symm.trans hgood
    · intro hcarries n hn
      cases hn
      exact (hcarries.rejected _ _ hblock hbad).le
  | @accepted bytes context' hblock hgood =>
    have hcall : ReadStep context script (some result) opts.raw opts.outputMultiplier _ :=
      .accepted hblock hgood
    have hrc := hcall.count_of_accepted hstarted rfl
    rw [hcall.entropy_of_accepted hstarted rfl]
    constructor
    · intro hall
      refine carries_of_block hblock (fun _ hbad => ?_) fun _ _ =>
        credit_le_count_iff.mp (hall _ hrc)
      cases hbad.symm.trans hgood
    · intro hcarries n hn
      cases hrc.symm.trans hn
      exact credit_le_count_iff.mpr (hcarries.accepted _ _ hblock hgood)
  | chunk hgiven =>
    have hentropy : ((squeezeChunk context (some result)).toRead none).context.entropyThisTime =
        437 := by
      rw [Filled.toRead, squeezeChunk_context]
      exact hctx.entropy_eq (Nat.ne_of_gt hgiven)
    have hrc : ((squeezeChunk context (some result)).toRead none).rc =
        .ok (min 128 context.keccakBytesGiven) :=
      congrArg Except.ok (squeezeChunk_count context (some result))
    rw [hentropy]
    constructor
    · intro hall
      have hle := hall _ hrc
      refine ⟨fun _ => ?_, fun hsampled => ?_, fun _ _ hblock => ?_, fun _ _ hblock => ?_⟩
      · change 55 ≤ context.keccakBytesGiven
        omega
      · exact absurd hsampled.given_eq (Nat.ne_of_gt hgiven)
      · exact absurd hblock.given_eq (Nat.ne_of_gt hgiven)
      · exact absurd hblock.given_eq (Nat.ne_of_gt hgiven)
    · intro hcarries n hn
      cases hrc.symm.trans hn
      have hle : 55 ≤ context.keccakBytesGiven := hcarries.chunk (Nat.ne_of_gt hgiven)
      omega

end

/-- In every run of the main loop with `--dev-random`, from every command line that is accepted: no
write is credited with more bits than it carries exactly when output is off or the bytes of every
round can carry its credit. -/
theorem backed_iff_forall_carries {log : Float → Float} (hlog : LogAccurate log)
    {env : Environment} {options : List CommandOption} {context : Context} {script : InitScript}
    {fuel : ℕ} {opts : OptStruct} {p p' : Process} {cs : List RoundRecord}
    (hstart : startMain log env options context script fuel = some (opts, p))
    (hdev : opts.devRandom = true) (h : Run (mainStep opts) p cs p') :
    (∀ c ∈ cs, c.Backed) ↔ opts.noOutput = true ∨ ∀ c ∈ cs, c.Carries opts := by
  obtain ⟨hinit, hgiven, _⟩ := startMain_cases hlog hstart
  have hinv := ((mainStep_refines h).invariant_of (I := Context.Pending) (P := fun _ => True)
    (fun c hstep _ hI => readStep_pending hstep hI) (fun _ _ => trivial)
    ⟨hinit, fun hpos => absurd hgiven hpos⟩).1
  by_cases hno : opts.noOutput = true
  · simp only [hno, true_or, iff_true]
    exact fun c hc => backed_of_noOutput (h.step_of_mem hc) hdev hno
  · rw [or_iff_right hno]
    exact forall₂_congr fun c hc => backed_iff_carries (h.step_of_mem hc) hdev (by simpa using hno)
      (hinv _ (List.mem_map_of_mem hc)).1

/-- A round that finds bytes left hands the next chunk to the pool. -/
lemma exists_chunk_round {m : ℕ} {p : Process} (hreturned : p.returned = false)
    (hpos : 0 < p.context.keccakBytesGiven) (hlt : p.context.keccakBytesGiven < 4294967296) :
    ∃ (p' : Process) (c : RoundRecord) (w : PoolInfo), Run (mainStep (devRandomOpts m)) p [c] p' ∧
      p'.returned = false ∧ c.output.poolWrite = some w ∧
      w.bufSize = min 128 p.context.keccakBytesGiven ∧
      w.entropyCount = p.context.entropyThisTime ∧
      p'.context.entropyThisTime = p.context.entropyThisTime ∧
      p'.context.keccakBytesGiven =
        p.context.keccakBytesGiven - min 128 p.context.keccakBytesGiven := by
  let round : Round := ⟨unplugged, fun _ => 0, true⟩
  have hread : readData p.context unplugged (some round.result) (devRandomOpts m).raw
      (devRandomOpts m).outputMultiplier =
        some ((squeezeChunk p.context (some round.result)).toRead none) := by
    rw [readData, if_neg (Nat.ne_of_gt hpos)]
  have hrc : ((squeezeChunk p.context (some round.result)).toRead none).rc =
      .ok (min 128 p.context.keccakBytesGiven) :=
    congrArg Except.ok (squeezeChunk_count p.context (some round.result))
  obtain ⟨w, hstep, hsize, _, hcount⟩ := @mainStep_of_ok (devRandomOpts m) p round _ _ rfl rfl
    hreturned hread hrc
  refine ⟨_, ⟨p, round, _, _⟩, w, .single hstep, rfl, rfl, hsize, ?_, ?_, ?_⟩
  · rw [hcount, Filled.toRead, squeezeChunk_context]
  · simp only [Filled.toRead, squeezeChunk_context]
  · simp only [Filled.toRead, squeezeChunk_context, chunkSize]
    exact subU32_of_le (min_le_right _ _) hlt

/-- With multiplier 10 the pool is handed 128, 128 and 64 bytes, each for a credit of 437 bits. -/
theorem backed_ten : ∃ (p p' : Process) (c d e : RoundRecord) (w w' w'' : PoolInfo),
    startMain tableLog noEnvironment [.devRandom, .multiplier "10"] blankContext registerScript
      371 = some (devRandomOpts 10, p) ∧
    Run (mainStep (devRandomOpts 10)) p [c, d, e] p' ∧
    [c, d, e].map (fun f => f.output.poolWrite) = [some w, some w', some w''] ∧
    [w, w', w''].map PoolInfo.bufSize = [128, 128, 64] ∧
    [w, w', w''].map PoolInfo.entropyCount = [437, 437, 437] ∧
    ∀ f ∈ [c, d, e], f.Carries (devRandomOpts 10) := by
  have hten : atoi "10" = (10 : ℕ) := by decide +kernel
  obtain ⟨p, p₁, c, w, hstart, hrun₁, hreturned₁, _, hw, _, hsize, hcount, hentropy, hgiven⟩ :=
    exists_first_round (configure_devRandom_multiplier hten) (by norm_num)
  have hgiven₁ : p₁.context.keccakBytesGiven = 192 := hgiven
  obtain ⟨p₂, d, w', hrun₂, hreturned₂, hw', hsize', hcount', hentropy', hgiven'⟩ :=
    exists_chunk_round (m := 10) hreturned₁ (by omega) (by omega)
  rw [hgiven₁] at hsize' hgiven'
  obtain ⟨p₃, e, w'', hrun₃, _, hw'', hsize'', hcount'', _⟩ :=
    exists_chunk_round (m := 10) hreturned₂ (by omega) (by omega)
  rw [hgiven'] at hsize''
  rw [hentropy] at hcount' hentropy'
  rw [hentropy'] at hcount''
  have hsize : w.bufSize = 128 := hsize
  have hbacked : ∀ f ∈ [c, d, e], f.Backed := by
    simp only [List.forall_mem_cons, RoundRecord.Backed, hw, hw', hw'', Option.some.injEq,
      forall_eq']
    exact ⟨by omega, by omega, by omega, List.forall_mem_nil _⟩
  have hrun : Run (mainStep (devRandomOpts 10)) p [c, d, e] p₃ :=
    hrun₁.append (hrun₂.append hrun₃)
  refine ⟨p, p₃, c, d, e, w, w', w'', hstart, hrun, ?_, ?_, ?_, ?_⟩
  · simp [hw, hw', hw'']
  · simp only [List.map_cons, List.map_nil, hsize, hsize', hsize'']
    rfl
  · simp only [List.map_cons, List.map_nil, hcount, hcount', hcount'']
  · exact ((backed_iff_forall_carries tableLog_accurate hstart rfl hrun).mp
      hbacked).resolve_left Bool.false_ne_true

/-- With multiplier 1 the first round hands over 32 bytes for a credit of 437 bits. -/
theorem credit_unbacked : ∃ (p p' : Process) (c : RoundRecord) (w : PoolInfo),
    startMain tableLog noEnvironment [.devRandom, .multiplier "1"] blankContext registerScript 371 =
      some (devRandomOpts 1, p) ∧
    Run (mainStep (devRandomOpts 1)) p [c] p' ∧ c.output.poolWrite = some w ∧ w.bufSize = 32 ∧
    w.entropyCount = 437 ∧ ¬ c.Backed := by
  have hone : atoi "1" = (1 : ℕ) := by decide +kernel
  obtain ⟨p, p', c, w, hstart, hrun, _, _, hw, _, hsize, hcount, _, _⟩ :=
    exists_first_round (configure_devRandom_multiplier hone) one_ne_zero
  have hsize' : w.bufSize = 32 := hsize
  refine ⟨p, p', c, w, hstart, hrun, hw, hsize', hcount, fun hbacked => ?_⟩
  have hle := hbacked w hw
  omega

end Userspace
