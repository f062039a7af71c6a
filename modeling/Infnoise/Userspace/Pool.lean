import Infnoise.Userspace.Rounds

/-!
# The buffer of the entropy pool

`inmWriteEntropyStart` allocates 64 bytes for the pool, and the lengths handed to it are those that
`readData` returns: the size of a block, or of a chunk of the bytes of the multiplier.
-/

namespace Userspace

open Core Core.Binary64 Reference

attribute [local irreducible] keccakPermutation keccakAbsorb keccakExtract

/-- Every length handed to the pool is within its buffer. -/
def PoolWritesFit (cs : List RoundRecord) : Prop :=
  ∀ c ∈ cs, ∀ w, c.output.poolWrite = some w → w.bufSize ≤ w.bufLen

/-- What is left to be given is at most the size of a block. -/
structure Context.Small (raw : Bool) (context : Context) : Prop where
  initialised : context.Initialised
  raw_given : raw = true → context.keccakBytesGiven = 0
  given_le : context.keccakBytesGiven ≤ 64

section

variable {context : Context} {script : UsbScript} {result : Option (ℕ → Byte)} {raw : Bool}
  {outputMultiplier : ℕ} {r : ReadResult}

/-- A call that uses a block returns the block, the bytes of its entropy, or its first chunk. -/
lemma ReadStep.count_of_accepted (h : ReadStep context script result raw outputMultiplier r)
    (hstarted : context.health.Started) (hacc : r.accepted = true) :
    r.rc = .ok (if raw then 64 else if outputMultiplier = 0 then 54
      else min 128 (bytesOfMultiplier outputMultiplier)) := by
  have hentropy := h.entropy_of_accepted hstarted hacc
  rcases h.idle_or with ⟨_, hnone, _⟩ | ⟨bytes, context', hblock, _, rfl⟩ | ⟨_, rfl⟩
  · rw [hnone] at hacc
    cases hacc
  · rcases raw with _ | _
    · by_cases hm : outputMultiplier = 0
      · subst hm
        change Except.ok (context'.capEntropy.entropyThisTime / 8) = _
        rw [show context'.capEntropy.entropyThisTime = 437 from hentropy]
        rfl
      · simp [hm, Filled.toRead, processBytes_multiplier _ _ _ hm hblock.given_after, chunkSize]
    · rfl
  · cases hacc

/-- A call that does not use a block returns a chunk of what is left, or nothing. -/
lemma ReadStep.count_of_not_accepted (h : ReadStep context script result raw outputMultiplier r)
    (hacc : r.accepted = false) {n : ℕ} (hrc : r.rc = .ok n) :
    n ≤ context.keccakBytesGiven := by
  rcases h.idle_or with ⟨_, _, hidle⟩ | ⟨_, _, _, _, rfl⟩ | ⟨_, rfl⟩
  · rcases hidle.rc_eq with hrc' | ⟨e, hrc'⟩
    · cases hrc.symm.trans hrc'
      exact Nat.zero_le _
    · cases hrc.symm.trans hrc'
  · cases hacc
  · cases hrc
    rw [squeezeChunk_count]
    exact chunkSize_le context

end

/-- The condition under which no chunk is larger than a block. -/
def SmallChunks (opts : OptStruct) : Prop :=
  opts.raw = true ∨ opts.outputMultiplier % 16777216 ≤ 2

lemma call_small {opts : OptStruct} {c : ReadRecord}
    (hstep : readStep c.before c.input = some (c.output, c.after))
    (hraw : c.input.raw = opts.raw) (hm : c.input.outputMultiplier = opts.outputMultiplier)
    (hsmall : SmallChunks opts) (h : c.before.Small opts.raw) : c.after.Small opts.raw := by
  have hinit := readStep_initialised hstep h.initialised
  have hlaw := readStep_lawful hstep h.initialised.given_lt
  obtain ⟨hread, hafter⟩ := readStep_cases hstep
  by_cases hopts : opts.raw = true
  · have hgiven : c.after.keccakBytesGiven = 0 := by
      rw [hraw, hopts] at hread
      rw [hafter]
      exact hread.given_of_unspent (h.raw_given hopts) fun _ => rfl
    exact ⟨hinit, fun _ => hgiven, hgiven ▸ Nat.zero_le _⟩
  · refine ⟨hinit, fun hraw => absurd hraw hopts, ?_⟩
    have hgiven := h.given_le
    rcases hsmall with hraw | hmod
    · exact absurd hraw hopts
    · cases hlaw with
      | chunk husb habs hbytes hafter => omega
      | funded husb habs hm' hbytes hafter =>
        rw [bytesOfMultiplier_eq, hm] at hafter
        omega
      | idle husb hidle hafter => omega

/-- With small chunks every call returns at most 64 bytes. -/
lemma call_le {opts : OptStruct} {c : ReadRecord}
    (hstep : readStep c.before c.input = some (c.output, c.after))
    (hraw : c.input.raw = opts.raw) (hm : c.input.outputMultiplier = opts.outputMultiplier)
    (hsmall : SmallChunks opts) (h : c.before.Small opts.raw) {n : ℕ}
    (hrc : c.output.rc = .ok n) : n ≤ 64 := by
  obtain ⟨hread, _⟩ := readStep_cases hstep
  by_cases hacc : c.output.accepted = true
  · cases hrc.symm.trans (hread.count_of_accepted h.initialised.started hacc)
    rw [hraw, hm, bytesOfMultiplier_eq]
    rcases hsmall with htrue | hmod
    · rw [if_pos htrue]
    · split_ifs <;> omega
  · exact (hread.count_of_not_accepted (by simpa using hacc) hrc).trans h.given_le

/-- The buffer keeps the size it was allocated with. -/
lemma bufLen_eq {opts : OptStruct} {p p' : Process} {cs : List RoundRecord}
    (h : Run (mainStep opts) p cs p') (hdev : opts.devRandom = true)
    (hbuf : p.pool.bufLen = buflen / 8) {c : RoundRecord} (hc : c ∈ cs) :
    c.before.pool.bufLen = 64 := by
  have hinv := h.invariant_of (I := fun p => p.pool.bufLen = buflen / 8) (P := fun _ => True)
    (fun c hstep _ hI => (((mainStep_cases hstep).2 hdev).1).trans hI) (fun _ _ => trivial) hbuf
  exact (hinv.1 c hc).1

/-- The rounds of a run are calls with the options of the command line. -/
lemma call_mem {opts : OptStruct} {p p' : Process} {cs : List RoundRecord}
    (h : Run (mainStep opts) p cs p') {c : ReadRecord} (hc : c ∈ cs.map (RoundRecord.call opts)) :
    readStep c.before c.input = some (c.output, c.after) ∧ c.input.raw = opts.raw ∧
      c.input.outputMultiplier = opts.outputMultiplier := by
  refine ⟨(mainStep_refines h).step_of_mem hc, ?_⟩
  obtain ⟨d, _, rfl⟩ := List.mem_map.mp hc
  exact ⟨rfl, rfl⟩

/-- In every run of the main loop with `--dev-random`, from every command line that is accepted:
the lengths handed to the pool are within its buffer exactly when output is off, or raw, or the
multiplier yields no more than 64 bytes for a block, unless no block is ever used. -/
theorem poolWritesFit_iff {log : Float → Float} (hlog : LogAccurate log) {env : Environment}
    {options : List CommandOption} {context : Context} {script : InitScript} {fuel : ℕ}
    {opts : OptStruct} {p p' : Process} {cs : List RoundRecord}
    (hstart : startMain log env options context script fuel = some (opts, p))
    (hdev : opts.devRandom = true) (h : Run (mainStep opts) p cs p') :
    PoolWritesFit cs ↔ (opts.noOutput = true ∨ opts.raw = true ∨
        opts.outputMultiplier % 16777216 ≤ 2) ∨
      ∀ c ∈ cs, c.output.read.accepted = false := by
  obtain ⟨hinit, hgiven, hbuf⟩ := startMain_cases hlog hstart
  have hrun := mainStep_refines h
  constructor
  · intro hfit
    by_contra hcon
    push Not at hcon
    obtain ⟨⟨hno, hraw, hmod⟩, c, hc, hacc⟩ := hcon
    have hstep := h.step_of_mem hc
    obtain ⟨hread, _⟩ := readStep_cases (mainStep_cases hstep).1
    have hI := (hrun.invariant_of (I := Context.Initialised) (P := fun _ => True)
      (fun c hstep _ hI => readStep_initialised hstep hI) (fun _ _ => trivial) hinit).1 _
      (List.mem_map_of_mem hc)
    -- the first chunk of the block is too long already
    have hrc := hread.count_of_accepted hI.1.started (by simpa using hacc)
    have hm0 : opts.outputMultiplier ≠ 0 := by
      rintro h0
      rw [h0] at hmod
      exact absurd hmod (by norm_num)
    simp only [RoundRecord.call, hraw, hm0, Bool.false_eq_true, if_false,
      bytesOfMultiplier_eq] at hrc
    obtain ⟨w, hw, hwsize, hwlen, _⟩ := mainStep_poolWrite_of_ok hstep hdev (by simpa using hno) hrc
    have hle := hfit c hc w hw
    rw [hwsize, hwlen, bufLen_eq h hdev hbuf hc] at hle
    omega
  · rintro (hopts | hnone) c hc w hw
    · have hstep := h.step_of_mem hc
      obtain ⟨hno, hrc, hlen, _⟩ := mainStep_poolWrite hstep hdev hw
      rcases hopts with hoff | hsmall
      · rw [hno] at hoff
        cases hoff
      · have hI := (hrun.invariant_of (I := Context.Small opts.raw)
          (P := fun c => c.input.raw = opts.raw ∧
            c.input.outputMultiplier = opts.outputMultiplier)
          (fun c hstep hP hI => call_small hstep hP.1 hP.2 hsmall hI)
          (fun c hc => (call_mem h hc).2)
          ⟨hinit, fun _ => hgiven, hgiven ▸ Nat.zero_le _⟩).1 _ (List.mem_map_of_mem hc)
        rw [hlen, bufLen_eq h hdev hbuf hc]
        exact call_le (mainStep_cases hstep).1 rfl rfl hsmall hI.1 hrc
    · have hstep := h.step_of_mem hc
      obtain ⟨_, hrc, hlen, _⟩ := mainStep_poolWrite hstep hdev hw
      have hI := (hrun.invariant_of (I := fun context => context.keccakBytesGiven = 0)
        (P := fun c => c.output.accepted = false) (fun c hstep hacc hI => by
          obtain ⟨hread, hafter⟩ := readStep_cases hstep
          rw [hafter]
          exact hread.given_of_unspent hI (by simp [hacc]))
        (fun c hc => by
          obtain ⟨d, hd, rfl⟩ := List.mem_map.mp hc
          exact hnone d hd) hgiven).1 _ (List.mem_map_of_mem hc)
      obtain ⟨hread, _⟩ := readStep_cases (mainStep_cases hstep).1
      have hle := hread.count_of_not_accepted (hnone c hc) hrc
      have hzero : c.before.context.keccakBytesGiven = 0 := hI.1
      simp only [RoundRecord.call, hzero] at hle
      rw [hlen, bufLen_eq h hdev hbuf hc]
      omega

/-- The first round of `main` with a multiplier, which uses a block. -/
lemma exists_first_round {options : List CommandOption} {m : ℕ}
    (hconfigure : configure noEnvironment options = some (devRandomOpts m)) (hm : m ≠ 0) :
    ∃ (p p' : Process) (c : RoundRecord) (w : PoolInfo),
      startMain tableLog noEnvironment options blankContext registerScript 371 =
        some (devRandomOpts m, p) ∧
      Run (mainStep (devRandomOpts m)) p [c] p' ∧ p'.returned = false ∧
      c.output.read.accepted = true ∧ c.output.poolWrite = some w ∧ w.bufLen = 64 ∧
      w.bufSize = min 128 (bytesOfMultiplier m) ∧ w.entropyCount = 437 ∧
      p'.context.entropyThisTime = 437 ∧
      p'.context.keccakBytesGiven = bytesOfMultiplier m - min 128 (bytesOfMultiplier m) := by
  obtain ⟨p, script, bytes, context, hstart, hreturned, hbuf, hblock, haccepts⟩ :=
    exists_startMain hconfigure
  have hstarted := (startMain_cases tableLog_accurate hstart).1.started
  let round : Round := ⟨script, fun _ => 0, true⟩
  have hread := hblock.readData haccepts (some round.result) (devRandomOpts m).raw
    (devRandomOpts m).outputMultiplier
  have hcall := readData_step hread
  have hrc := hcall.count_of_accepted hstarted rfl
  have hentropy := hcall.entropy_of_accepted hstarted rfl
  obtain ⟨w, hstep, hsize, hlen, hcount⟩ := @mainStep_of_ok (devRandomOpts m) p round
    _ _ rfl rfl hreturned hread hrc
  have hgiven : (processBytes context bytes (some round.result) false m).context.keccakBytesGiven =
      bytesOfMultiplier m - min 128 (bytesOfMultiplier m) := by
    rw [processBytes_multiplier _ _ _ hm hblock.given_after]
    simp only [squeezeChunk_context, chunkSize, Context.fund_keccakBytesGiven]
    exact subU32_of_le (min_le_right _ _) (bytesOfMultiplier_lt m)
  refine ⟨p, _, ⟨p, round, _, _⟩, w, hstart, .single hstep, rfl, rfl, rfl, hlen.trans hbuf, ?_,
    hcount.trans hentropy, hentropy, hgiven⟩
  rw [hsize]
  exact (if_neg Bool.false_ne_true).trans (if_neg hm)

/-- Samples that take a second. -/
def lateRound : UsbScript where
  start := ⟨0, 0⟩
  write := 512
  read := 512
  inBuf := fun _ => 0
  stop := ⟨1, 0⟩

lemma lateRound_late : lateRound.late := by
  change Float.ofNat maxMicrosecForSamples < diffTime ⟨0, 0⟩ ⟨1, 0⟩
  decide +kernel

/-- A round whose samples come too late hands an empty buffer to the pool, with the entropy that
stands in the context. -/
lemma exists_late_round {m : ℕ} {p : Process} (hreturned : p.returned = false)
    (hgiven : p.context.keccakBytesGiven = 0) :
    ∃ (p' : Process) (c : RoundRecord) (w : PoolInfo), Run (mainStep (devRandomOpts m)) p [c] p' ∧
      c.output.read.rc = .ok 0 ∧ c.output.poolWrite = some w ∧ w.bufSize = 0 ∧
      w.entropyCount = p.context.entropyThisTime := by
  let round : Round := ⟨lateRound, fun _ => 0, true⟩
  have hsampled : p.context.Sampled lateRound := ⟨hgiven, rfl, rfl⟩
  have hread := hsampled.readData_late lateRound_late (some round.result) (devRandomOpts m).raw
    (devRandomOpts m).outputMultiplier
  obtain ⟨w, hstep, hsize, _, hcount⟩ := @mainStep_of_ok (devRandomOpts m) p round _ _ rfl rfl
    hreturned hread rfl
  exact ⟨_, ⟨p, round, _, _⟩, w, .single hstep, rfl, rfl, hsize, hcount⟩

/-- With `--dev-random` alone a block is 64 bytes for the pool; samples that come too late are
none. -/
theorem poolWritesFit_default : ∃ (p p' : Process) (c d : RoundRecord) (w w' : PoolInfo),
    startMain tableLog noEnvironment [.devRandom] blankContext registerScript 371 =
      some (devRandomOpts 2, p) ∧
    Run (mainStep (devRandomOpts 2)) p [c, d] p' ∧ c.output.poolWrite = some w ∧ w.bufSize = 64 ∧
    d.output.poolWrite = some w' ∧ w'.bufSize = 0 ∧ PoolWritesFit [c, d] := by
  obtain ⟨p, p₁, c, w, hstart, hrun₁, hreturned, _, hw, _, hsize, _, _, hgiven⟩ :=
    exists_first_round configure_devRandom (by norm_num)
  obtain ⟨p', d, w', hrun₂, _, hw', hsize', _⟩ := exists_late_round (m := 2) hreturned hgiven
  have hrun := hrun₁.append hrun₂
  exact ⟨p, p', c, d, w, w', hstart, hrun, hw, hsize, hw', hsize',
    (poolWritesFit_iff tableLog_accurate hstart rfl hrun).mpr (.inl (.inr (.inr (by decide))))⟩

/-- With multiplier 3 it is 96 bytes, for a buffer of 64. -/
theorem pool_overflows : ∃ (p p' : Process) (c : RoundRecord) (w : PoolInfo),
    startMain tableLog noEnvironment [.devRandom, .multiplier "3"] blankContext registerScript 371 =
      some (devRandomOpts 3, p) ∧
    Run (mainStep (devRandomOpts 3)) p [c] p' ∧ c.output.poolWrite = some w ∧ w.bufSize = 96 ∧
    w.bufLen = 64 ∧ ¬ PoolWritesFit [c] := by
  have hthree : atoi "3" = (3 : ℕ) := by decide +kernel
  obtain ⟨p, p', c, w, hstart, hrun, _, _, hw, hlen, hsize, _, _, _⟩ :=
    exists_first_round (configure_devRandom_multiplier hthree) (by norm_num)
  have hsize' : w.bufSize = 96 := hsize
  refine ⟨p, p', c, w, hstart, hrun, hw, hsize', hlen, fun hfit => ?_⟩
  have hle := hfit c List.mem_cons_self w hw
  omega

end Userspace
