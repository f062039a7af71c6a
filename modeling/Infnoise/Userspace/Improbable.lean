import Infnoise.Kernel.EntropyGate
import Infnoise.Userspace.Stdout
import Infnoise.Userspace.Surprise

/-!
# How improbable a block is in userspace

The library uses a block that has 437 bits of entropy. They are bits of surprise: the tables of the
checker gave the samples of the block, one after the other, a probability of at most `2 ^ -435`. The
bit that is missing is the probability that goes from one block to the next; what the `double`
arithmetic rounds is below a billionth of a bit.
-/

namespace Userspace

open Core Reference
open Kernel (samplesOf)

attribute [local irreducible] keccakPermutation keccakAbsorb keccakExtract

/-- The probability of the samples of a run, each as the tables have it when it comes. -/
noncomputable def likelihood (cs : List (Call HealthState Kernel.Sample Bool)) : ℝ :=
  (cs.map fun c => c.before.frequency c.input).prod

/-! ### The samples of a block -/

namespace HealthState

variable {n : ℕ} {hc hc' : HealthState}

lemma frequency_pos (hc : HealthState) (x : Kernel.Sample) : 0 < hc.frequency x :=
  Core.frequency_pos _ _

/-- The level goes up by one in a round, or stays. -/
lemma countBit_iterate_level_le (hc : HealthState) (k : ℕ) :
    (countBit^[k] hc).entropyLevel ≤ hc.entropyLevel + k := by
  induction k with
  | zero => exact le_rfl
  | succ k ih =>
    rw [Function.iterate_succ_apply', countBit]
    split_ifs
    · exact (u32_le _).trans (Nat.succ_le_succ ih)
    · exact Nat.le_succ_of_le ih

/-- The level goes up by the surprise of a sample at most. -/
lemma InRange.level_le_surprise {x : Kernel.Sample} (h : hc.InRange n)
    (hadd : hc.addBit x = some (true, hc')) :
    hc'.entropyLevel + surprise hc'.reading.prob ≤
      hc.entropyLevel + surprise hc.reading.prob + (surprise (hc.frequency x) + 2 ^ (-50 : ℤ)) := by
  obtain ⟨f, k, rfl, -, hf, -, hupper, hprob⟩ := h.exists_rounds hadd
  obtain ⟨_, _, _, _, hentered⟩ := hc.enterLoop_eq x
  have hbefore : (hc.enterLoop x.evenBit x.oddBit x.even).entropyLevel = hc.entropyLevel := by
    rw [hentered]
    rfl
  have hlevel := countBit_iterate_level_le (hc.enterLoop x.evenBit x.oddBit x.even) k
  rw [hbefore] at hlevel
  have hcast : ((countBit^[k] (hc.enterLoop x.evenBit x.oddBit x.even)).entropyLevel : ℝ) ≤
      hc.entropyLevel + k := by
    exact_mod_cast hlevel
  have hpos : 0 < hc.reading.prob := lt_trans (by norm_num) h.prob_mem.1
  rw [hprob, surprise_mul_two_pow hpos hf, (finishBit_keeps _ _ _).2]
  linarith

/-- The level of a block is its surprise at most, up to one bit and the roundings. -/
lemma InRange.level_lt {cs : List (Call HealthState Kernel.Sample Bool)} (h : hc.InRange n)
    (hpos : 1 ≤ n) (hrun : Run HealthState.addBit hc cs hc') (htrue : ∀ c ∈ cs, c.output = true) :
    (hc'.entropyLevel - hc.entropyLevel - 1 - 2 ^ (-50 : ℤ) * cs.length : ℝ) <
      surprise (likelihood cs) := by
  have hstep : ∀ s x o s', HealthState.addBit s x = some (o, s') → s.InRange n → s'.InRange n := by
    intro s x o s' hadd hs
    obtain ⟨r, hr, hrange⟩ := hs.addBit hpos x
    obtain rfl := Option.some.inj (hr.symm.trans hadd)
    exact hrange
  obtain ⟨hcalls, hrange⟩ := hrun.invariant hstep h
  apply hrun.lt_surprise (fun hc => (hc.entropyLevel : ℝ)) (fun hc => hc.reading.prob)
    (fun c => c.before.frequency_pos c.input) h.prob_mem hrange.prob_mem
  intro c hc
  have hadd := hrun.step_of_mem hc
  rw [htrue c hc] at hadd
  exact (hcalls c hc).1.level_le_surprise hadd

end HealthState

/-- A block that is on target is improbable. -/
lemma likelihood_le {n : ℕ} {hc hc' : HealthState} {cs : List (Call HealthState Kernel.Sample Bool)}
    (h : hc.InRange n) (hpos : 1 ≤ n) (hzero : hc.entropyLevel = 0)
    (hrun : Run HealthState.addBit hc cs hc') (htrue : ∀ c ∈ cs, c.output = true)
    (hlen : cs.length = 512) (hlevel : 437 ≤ hc'.entropyLevel) :
    likelihood cs ≤ 1 / 2 ^ 435 := by
  have hpos' : 0 < likelihood cs :=
    List.prod_pos (List.forall_mem_map.mpr fun c _ => c.before.frequency_pos c.input)
  have hlt := h.level_lt hpos hrun htrue
  have hcast : (437 : ℝ) ≤ hc'.entropyLevel := by exact_mod_cast hlevel
  rw [hzero, hlen] at hlt
  have hle : (435 : ℕ) ≤ surprise (likelihood cs) := by
    norm_num at hlt ⊢
    linarith
  exact le_of_le_surprise hpos' hle

/-! ### The blocks of a run -/

lemma HealthState.Inv.inRange {hc : HealthState} (h : hc.Inv) : hc.InRange predictionBits :=
  ⟨h.n_eq, h.table_lt, h.prevBits_lt, h.probability⟩

lemma readData_inv {context : Context} (hinv : context.health.Inv) {script : UsbScript}
    {result : Option (ℕ → Byte)} {raw : Bool} {outputMultiplier : ℕ} {r : ReadResult}
    (h : readData context script result raw outputMultiplier = some r) : r.context.health.Inv := by
  obtain ⟨r', hread, hinv'⟩ := readData_returns hinv script result raw outputMultiplier
  obtain rfl := Option.some.inj (hread.symm.trans h)
  exact hinv'

lemma readStep_inv {context context' : Context} {call : ReadCall} {r : ReadResult}
    (h : readStep context call = some (r, context')) (hinv : context.health.Inv) :
    context'.health.Inv := by
  obtain ⟨r', hread, heq⟩ := Option.map_eq_some_iff.mp h
  obtain ⟨rfl, rfl⟩ := Prod.mk.inj heq
  exact readData_inv hinv hread

lemma warmupReads_inv {n : ℕ} {rounds : ℕ → UsbScript} {context context' : Context}
    (h : warmupReads n rounds context = some context') (hinv : context.health.Inv) :
    context'.health.Inv := by
  induction n generalizing rounds context with
  | zero =>
    obtain rfl := Option.some.inj h
    exact hinv
  | succ n ih =>
    obtain ⟨r, hread, hrest⟩ := Option.bind_eq_some_iff.mp h
    exact ih hrest (readData_inv hinv hread)

/-- `initInfnoise` leaves the health checker sound. -/
lemma initInfnoise_inv {log : Float → Float} {context context' : Context} {serial : Option String}
    {keccak debug : Bool} {script : InitScript} {fuel : ℕ}
    (h : initInfnoise log context serial keccak debug script fuel = some (true, context')) :
    context'.health.Inv := by
  rw [initInfnoise_eq] at h
  rcases hbefore : beforeWarmup log context serial keccak debug script with context₁ | context₁
  · rw [hbefore] at h
    cases h
  · rw [hbefore] at h
    obtain ⟨⟨k, context₂⟩, hloop, hafter⟩ := Option.map_eq_some_iff.mp h
    obtain ⟨n, _, hreads, _, _⟩ := warmupLoop_eq_some hloop (Nat.zero_lt_succ _)
    have hinv : context₁.health.Inv := by
      rw [(beforeWarmup_cases hbefore).1]
      exact inmHealthCheckStart_inv log context.health designK debug script.allocated
    rw [afterWarmup] at hafter
    split_ifs at hafter
    · cases hafter
    · cases hafter
      exact warmupReads_inv hreads hinv

lemma startMain_inv {log : Float → Float} {env : Environment} {options : List CommandOption}
    {context : Context} {script : InitScript} {fuel : ℕ} {opts : OptStruct} {p : Process}
    (h : startMain log env options context script fuel = some (opts, p)) :
    p.context.health.Inv := by
  simp only [startMain, Option.bind_eq_bind, Option.bind_eq_some_iff] at h
  obtain ⟨opts', _, h⟩ := h
  split at h
  · rename_i context' hinit
    cases h
    exact initInfnoise_inv hinit
  · cases h

/-- A call that uses a block has given its samples to the checker, and 437 bits were counted. -/
lemma ReadStep.checked_of_accepted {context : Context} {script : UsbScript}
    {result : Option (ℕ → Byte)} {raw : Bool} {outputMultiplier : ℕ} {r : ReadResult}
    (h : ReadStep context script result raw outputMultiplier r) (hstarted : context.health.Started)
    (hacc : r.accepted = true) :
    ∃ hc, Checked HealthState.addBit (samplesOf script.inBuf (buflen / 8))
      (inmClearEntropyLevel context.health) hc ∧ 437 ≤ hc.entropyLevel := by
  cases h with
  | usbFailed | late | unhealthy | rejected | chunk => cases hacc
  | @accepted bytes context' hblock hgood =>
    obtain ⟨hstarted', hlt⟩ := hblock.started hstarted
    rw [Context.accepts, Bool.and_eq_true] at hgood
    have htarget := (inmEntropyOnTarget_iff hstarted' hlt).mp hgood.2
    obtain ⟨-, health, -, rfl⟩ := hblock.cases
    exact ⟨health, (extractBytes_checked hblock.extracted).1, htarget⟩

/-- In every run of the main loop, from every command line that is accepted and whatever the device
sends: each block that a round uses was given a probability of at most `2 ^ -435` by the tables of
the checker. -/
theorem accepted_block_improbable {log : Float → Float} (hlog : LogAccurate log) {env : Environment}
    {options : List CommandOption} {context : Context} {script : InitScript} {fuel : ℕ}
    {opts : OptStruct} {p p' : Process} {cs : List RoundRecord}
    (hstart : startMain log env options context script fuel = some (opts, p))
    (h : Run (mainStep opts) p cs p') :
    ∀ c ∈ cs, c.output.read.accepted = true → ∃ ds hc,
      Run HealthState.addBit (inmClearEntropyLevel c.before.context.health) ds hc ∧
        ds.map Call.input = samplesOf c.input.script.inBuf (buflen / 8) ∧
        (∀ d ∈ ds, d.output = true) ∧ likelihood ds ≤ 1 / 2 ^ 435 := by
  intro c hc hacc
  have hstep : ∀ p round out p', mainStep opts p round = some (out, p') → p.context.health.Inv →
      p'.context.health.Inv := by
    intro p round out p' hround hinv
    exact readStep_inv (mainStep_cases (c := ⟨p, round, out, p'⟩) hround).1 hinv
  have hbefore := run_initialised h (startMain_cases hlog hstart).1 c hc
  have hinv := inmClearEntropyLevel_inv ((h.invariant hstep (startMain_inv hstart)).1 c hc).1
  obtain ⟨hread, _⟩ := readStep_cases (mainStep_cases (h.step_of_mem hc)).1
  obtain ⟨hc', ⟨ds, hrun, hin, htrue⟩, hlevel⟩ := hread.checked_of_accepted hbefore.started hacc
  have hlen : ds.length = 512 := by
    rw [← List.length_map (f := Call.input), hin, Kernel.samplesOf_length]
    rfl
  exact ⟨ds, hc', hrun, hin, htrue,
    likelihood_le hinv.inRange (by decide) rfl hrun htrue hlen hlevel⟩

/-- The first block of the program that prints. -/
theorem accepted_block_improbable_default : ∃ (p p' : Process) (c : RoundRecord)
    (ds : List (Call HealthState Kernel.Sample Bool)) (hc : HealthState),
    startMain tableLog noEnvironment [] blankContext registerScript 371 = some (initOpts, p) ∧
    Run (mainStep initOpts) p [c] p' ∧ c.output.read.accepted = true ∧
    Run HealthState.addBit (inmClearEntropyLevel c.before.context.health) ds hc ∧
    ds.map Call.input = samplesOf c.input.script.inBuf (buflen / 8) ∧
    likelihood ds ≤ 1 / 2 ^ 435 := by
  obtain ⟨p, p', c, hstart, hrun, hacc⟩ := exists_first_print [] initOpts rfl rfl
  obtain ⟨ds, hc, hds, hin, -, hle⟩ :=
    accepted_block_improbable tableLog_accurate hstart hrun c List.mem_cons_self hacc
  exact ⟨p, p', c, ds, hc, hstart, hrun, hacc, hds, hin, hle⟩

end Userspace
