import Infnoise.Userspace.Arguments
import Infnoise.Userspace.Main

/-!
# Rounds of the main loop

What one round of the main loop does with `--dev-random`, and the calls of `readData` behind a run
of rounds.
-/

namespace Userspace

open Core Reference

attribute [local irreducible] keccakPermutation keccakAbsorb keccakExtract

/-- A round in a run of rounds. -/
abbrev RoundRecord := Call Process Round RoundOutput

/-- The call of `readData` in a round. -/
def RoundRecord.call (opts : OptStruct) (c : RoundRecord) : ReadRecord :=
  ⟨c.before.context,
    ⟨c.input.script, some c.input.result, opts.raw, opts.outputMultiplier⟩,
    c.output.read, c.after.context⟩

/-- A round calls `readData` once. With `--dev-random` it then hands the bytes to the pool, with
the entropy that stands in the context, unless it fails or output is off. -/
lemma mainStep_cases {opts : OptStruct} {c : RoundRecord}
    (h : mainStep opts c.before c.input = some (c.output, c.after)) :
    readStep (c.call opts).before (c.call opts).input = some (c.output.read, c.after.context) ∧
      (opts.devRandom = true → c.after.pool.bufLen = c.before.pool.bufLen ∧
        ((c.output.poolWrite = none ∧
            (opts.noOutput = true ∨ ∃ e, c.output.read.rc = .error e)) ∨
          ∃ n bytes, opts.noOutput = false ∧ c.output.read.rc = .ok n ∧
            c.output.poolWrite = some (inmWriteEntropyToPool c.before.pool bytes n
              c.output.read.context.entropyThisTime))) := by
  obtain ⟨p, round, out, p'⟩ := c
  dsimp only at h
  rw [mainStep] at h
  split at h
  · cases h
  · rw [Option.map_eq_some_iff] at h
    obtain ⟨read, hread, heq⟩ := h
    have hcall : readStep p.context ⟨round.script, some round.result, opts.raw,
        opts.outputMultiplier⟩ = some (read, read.context) := by
      rw [readStep, hread]
      rfl
    rcases hrc : read.rc with e | n
    · rw [hrc] at heq
      obtain ⟨rfl, rfl⟩ := Prod.mk.inj heq
      exact ⟨hcall, fun _ => ⟨rfl, .inl ⟨rfl, .inr ⟨e, hrc⟩⟩⟩⟩
    · rw [hrc] at heq
      dsimp only at heq
      split at heq
      · rename_i hno
        obtain ⟨rfl, rfl⟩ := Prod.mk.inj heq
        exact ⟨hcall, fun _ => ⟨rfl, .inl ⟨rfl, .inl hno⟩⟩⟩
      · rename_i hno
        obtain ⟨rfl, rfl⟩ := Prod.mk.inj heq
        refine ⟨hcall, fun hdev => ?_⟩
        simp only [outputBytes, hdev, Bool.not_true, Bool.false_eq_true, if_false,
          Option.getD_some]
        exact ⟨rfl, .inr ⟨n, _, by simpa using hno, hrc, rfl⟩⟩

/-- What a round hands to the pool: the count of the call, the entropy in the context, and the
buffer it found. -/
lemma mainStep_poolWrite {opts : OptStruct} {c : RoundRecord} {w : PoolInfo}
    (h : mainStep opts c.before c.input = some (c.output, c.after))
    (hdev : opts.devRandom = true) (hw : c.output.poolWrite = some w) :
    opts.noOutput = false ∧ c.output.read.rc = .ok w.bufSize ∧
      w.bufLen = c.before.pool.bufLen ∧
      w.entropyCount = c.output.read.context.entropyThisTime := by
  obtain ⟨_, ⟨hnone, _⟩ | ⟨n, bytes, hno, hrc, hsome⟩⟩ := (mainStep_cases h).2 hdev
  · rw [hnone] at hw
    cases hw
  · rw [hsome] at hw
    cases hw
    exact ⟨hno, hrc, rfl, rfl⟩

/-- A round whose call returns a count hands it to the pool, unless output is off. -/
lemma mainStep_poolWrite_of_ok {opts : OptStruct} {c : RoundRecord} {n : ℕ}
    (h : mainStep opts c.before c.input = some (c.output, c.after))
    (hdev : opts.devRandom = true) (hno : opts.noOutput = false)
    (hrc : c.output.read.rc = .ok n) :
    ∃ w, c.output.poolWrite = some w ∧ w.bufSize = n ∧
      w.bufLen = c.before.pool.bufLen ∧
      w.entropyCount = c.output.read.context.entropyThisTime := by
  obtain ⟨_, ⟨_, hoff | ⟨e, herr⟩⟩ | ⟨n', bytes, _, hrc', hsome⟩⟩ := (mainStep_cases h).2 hdev
  · rw [hno] at hoff
    cases hoff
  · rw [herr] at hrc
    cases hrc
  · cases hrc.symm.trans hrc'
    exact ⟨_, hsome, rfl, rfl, rfl⟩

/-- The rounds of a run are calls on its context. -/
lemma mainStep_refines {opts : OptStruct} {p p' : Process} {cs : List RoundRecord}
    (h : Run (mainStep opts) p cs p') :
    Run readStep p.context (cs.map (RoundRecord.call opts)) p'.context :=
  h.simulate (I := fun _ => True) Process.context (RoundRecord.call opts)
    (fun _ hstep _ => ⟨trivial, rfl, rfl, (mainStep_cases hstep).1⟩) trivial

/-- `main` enters its loop with an initialised context that has nothing to give and with a pool
buffer of 64 bytes. -/
lemma startMain_cases {log : Float → Float} (hlog : LogAccurate log) {env : Environment}
    {options : List CommandOption} {context : Context} {script : InitScript} {fuel : ℕ}
    {opts : OptStruct} {p : Process}
    (h : startMain log env options context script fuel = some (opts, p)) :
    p.context.Initialised ∧ p.context.keccakBytesGiven = 0 ∧ p.pool.bufLen = buflen / 8 := by
  simp only [startMain, Option.bind_eq_bind, Option.bind_eq_some_iff] at h
  obtain ⟨opts', _, h⟩ := h
  split at h
  · rename_i context' hinit
    cases h
    exact ⟨initInfnoise_initialised hlog hinit, (initInfnoise_cases hinit).1, rfl⟩
  · cases h

/-! ### A program that starts -/

/-- A round whose call returns a count, with `--dev-random` and output on. -/
lemma mainStep_of_ok {opts : OptStruct} {p : Process} {round : Round} {read : ReadResult} {n : ℕ}
    (hdev : opts.devRandom = true) (hno : opts.noOutput = false) (hreturned : p.returned = false)
    (hread : readData p.context round.script (some round.result) opts.raw opts.outputMultiplier =
      some read) (hrc : read.rc = .ok n) :
    ∃ w, mainStep opts p round = some (⟨read, some w⟩, ⟨read.context, w, false⟩) ∧
      w.bufSize = n ∧ w.bufLen = p.pool.bufLen ∧ w.entropyCount = read.context.entropyThisTime := by
  refine ⟨inmWriteEntropyToPool p.pool (read.result.getD round.result) n
    read.context.entropyThisTime, ?_, rfl, rfl, rfl⟩
  rw [mainStep, if_neg (by simp [hreturned]), hread, Option.map_some, hrc]
  simp [hno, outputBytes, hdev]

/-- An environment that sets none of the variables. -/
def noEnvironment : Environment := ⟨none, none, none⟩

/-- The options of `--dev-random` alone, and with a multiplier. -/
def devRandomOpts (m : ℕ) : OptStruct := { initOpts with devRandom := true, outputMultiplier := m }

lemma configure_devRandom : configure noEnvironment [.devRandom] = some (devRandomOpts 2) := rfl

lemma configure_devRandom_multiplier {optarg : String} {m : ℕ} (h : atoi optarg = m) :
    configure noEnvironment [.devRandom, .multiplier optarg] = some (devRandomOpts m) := by
  have hm : ¬ (m : ℤ) < 0 := not_lt.mpr (Int.natCast_nonneg m)
  simp [configure, processOption, h, hm, readMultiplier, initOpts, noEnvironment, devRandomOpts]

/-- `main` on the device of the register, and the block of its first round. -/
lemma exists_startMain {options : List CommandOption} {opts : OptStruct}
    (hconfigure : configure noEnvironment options = some opts) :
    ∃ p script bytes context',
      startMain tableLog noEnvironment options blankContext registerScript 371 = some (opts, p) ∧
      p.returned = false ∧ p.pool.bufLen = 64 ∧
      p.context.Block script true bytes context' ∧ context'.accepts = true := by
  obtain ⟨context, script, bytes, context', hinit, hblock, haccepts, _⟩ :=
    exists_accepted opts.serial (!opts.raw) opts.debug (le_refl 371)
  refine ⟨⟨context, inmWriteEntropyStart (buflen / 8), false⟩, script, bytes, context', ?_, rfl, rfl,
    hblock, haccepts⟩
  rw [startMain, hconfigure]
  simp [hinit]

end Userspace
