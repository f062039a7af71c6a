import Infnoise.Kernel.Extraction
import Infnoise.Kernel.Tasks
import Infnoise.Kernel.Warmup

/-!
# The health-failure latch

`INFNOISE_HEALTH_FAIL` is set where a bit fails the health check and tested where a read path is
entered. What can come between the two is a retry of the transfer, and a reader that is past its
test.
-/

namespace Kernel

open Core

attribute [local irreducible] infnoiseKeccakPermutation infnoiseKeccakAbsorb

/-- Once the flag is set no step hands out bytes. -/
def Latched (cs : List DriverRecord) : Prop :=
  ∀ c ∈ cs, c.before.dev.healthFail = true → c.output.delivered = []

/-! ### Where a failure is caught -/

/-- Whether `infnoise_usb_transfer` makes another attempt after one that failed the health check. -/
def retriesFailure (scripts : ℕ → AttemptScript) : ℕ → Device → Bool
  | 0, _ => false
  | retries + 1, dev =>
    match infnoiseUsbTransferOnce dev (scripts (infnoiseMaxRetries - (retries + 1))) with
    | none => false
    | some (ret, dev) =>
      match afterAttempt dev (scripts (infnoiseMaxRetries - (retries + 1))) ret with
      | (some _, _) => false
      | (none, dev) =>
        if dev.healthFail then decide (0 < retries) else retriesFailure scripts retries dev

/-- When a bit fails in a transfer for a reader, it fails in the last attempt of the transfer, and
no other reader is past its test. -/
def DriverRecord.FailsAlone (c : DriverRecord) : Prop :=
  ∀ t input, c.input = .step t input → c.before.dev.healthFail = false →
    c.after.dev.healthFail = true →
      retriesFailure input.scripts infnoiseMaxRetries c.before.dev = false ∧
        ∀ t' ≠ t, (c.before.tasks t').pastTest = false

/-! ### One transfer -/

/-- An attempt that fails a bit returns an error. -/
lemma infnoiseUsbTransferOnce_error {dev dev' : Device} {script : AttemptScript}
    {ret : Except Errno ℕ} (h : infnoiseUsbTransferOnce dev script = some (ret, dev'))
    (hok : dev.healthFail = false) (hfail : dev'.healthFail = true) : ret = .error .eio := by
  obtain ⟨_, _, hkeep | ⟨_, hret⟩⟩ := infnoiseUsbTransferOnce_cases h
  · rw [hkeep, hok] at hfail
    cases hfail
  · exact hret

/-- A transfer in which a bit fails returns an error, unless it goes on to another attempt. -/
lemma transferLoop_error {scripts : ℕ → AttemptScript} {retries : ℕ} {last ret : Except Errno ℕ}
    {dev dev' : Device} (h : transferLoop scripts retries last dev = some (ret, dev'))
    (hok : dev.healthFail = false) (hfail : dev'.healthFail = true)
    (hretry : retriesFailure scripts retries dev = false) : ∃ e, ret = .error e := by
  induction retries generalizing last dev with
  | zero =>
    cases h
    rw [hok] at hfail
    cases hfail
  | succ retries ih =>
    simp only [transferLoop] at h
    simp only [retriesFailure] at hretry
    rcases honce : infnoiseUsbTransferOnce dev
      (scripts (infnoiseMaxRetries - (retries + 1))) with _ | ⟨ret₁, dev₁⟩
    · rw [honce] at h
      cases h
    · rw [honce] at h hretry
      obtain ⟨_, hflag, _, hret⟩ := afterAttempt_cases dev₁
        (scripts (infnoiseMaxRetries - (retries + 1))) ret₁
      rcases hafter : afterAttempt dev₁ (scripts (infnoiseMaxRetries - (retries + 1))) ret₁
        with ⟨_ | ret₂, dev₂⟩
      · simp only [hafter] at h hretry hflag
        rcases hdev₂ : dev₂.healthFail with _ | _
        · simp only [hdev₂, Bool.false_eq_true, if_false] at hretry
          exact ih h hdev₂ hretry
        · simp only [hdev₂, if_true, decide_eq_false_iff_not, Nat.not_lt, Nat.le_zero] at hretry
          subst hretry
          cases h
          exact ⟨_, infnoiseUsbTransferOnce_error honce hok (hflag ▸ hdev₂)⟩
      · simp only [hafter] at h hflag hret
        cases h
        rcases ret with e | entropy
        · exact ⟨e, rfl⟩
        · cases infnoiseUsbTransferOnce_error honce hok (hflag ▸ hfail)
          cases hret entropy rfl

/-- A read in which a bit fails returns an error, unless its transfer goes on to another attempt. -/
lemma infnoiseReadData_error {dev : Device} {multiplier : ℕ} {scripts : ℕ → AttemptScript}
    {result : ℕ → Byte} {maxLen : ℕ} {raw : Bool} {r : ReadResult}
    (h : infnoiseReadData dev multiplier scripts result maxLen raw = some r)
    (hok : dev.healthFail = false) (hfail : r.dev.healthFail = true)
    (hretry : retriesFailure scripts infnoiseMaxRetries dev = false) : ∃ e, r.ret = .error e := by
  have hloop : ∀ {ret dev'}, infnoiseUsbTransfer dev scripts = some (ret, dev') →
      dev'.healthFail = true → ∃ e, ret = .error e := fun htransfer hfail' =>
    transferLoop_error htransfer hok hfail' hretry
  cases infnoiseReadData_step h with
  | absent hpresent => exact ⟨_, rfl⟩
  | squeezed hpresent hraw hleft =>
    rw [squeezeLeft_dev] at hfail
    exact absurd hfail (by simp [hok])
  | failed hpresent htransfer => exact ⟨_, rfl⟩
  | rejected hpresent htransfer hbad =>
    obtain ⟨e, he⟩ := hloop htransfer hfail
    cases he
  | rawBlock hpresent htransfer hgood hraw =>
    obtain ⟨e, he⟩ := hloop htransfer hfail
    cases he
  | absorbed hpresent htransfer hgood hraw hleft =>
    rw [absorbAndSqueeze_dev, squeezeLeft_dev] at hfail
    obtain ⟨e, he⟩ := hloop htransfer hfail
    cases he

/-! ### Runs -/

/-- Before the warm-up ends nobody is past the test, and once the flag is set nobody is who can
still hand out bytes. -/
structure Driver.Closed (d : Driver) : Prop where
  early : d.Early
  late : d.dev.healthFail = true → ∀ t, (d.tasks t).pastTest = false

lemma infnoiseProbe_closed (clockBuf usbBuf readBuf outBuf : ℕ → Byte) (multiplier : ℕ)
    (rawMode : Bool) :
    (infnoiseProbe clockBuf usbBuf readBuf outBuf multiplier rawMode).Closed where
  early := infnoiseProbe_early _ _ _ _ _ _
  late _ _ := rfl

/-- A step of the warm-up work keeps the driver closed and hands out nothing. -/
lemma warmupStep_closed {d d' : Driver} {scripts : ℕ → AttemptScript} {discard : ℕ → Byte}
    {o : Output} (h : d.warmupStep scripts discard = some (o, d')) (hd : d.Closed) :
    d'.Closed ∧ o.delivered = [] := by
  obtain ⟨rfl, hstep⟩ := warmupStep_cases h
  refine ⟨⟨hstep.early hd.early, ?_⟩, rfl⟩
  -- whatever the warm-up work does to the flag, nobody is past the test
  have hnobody : d.warmup.early = true → ∀ t, (d.tasks t).pastTest = false :=
    fun hearly t => Task.pastTest_of_beforeTest ((hd.early hearly).2.2 t)
  cases hstep with
  | locks hw | reads hw _ _ _ | stops hw _ | gone hw _ | fails hw _ _ | succeeds hw _ _ =>
    exact fun _ => hnobody (hw ▸ rfl)
  | completes hw => exact hd.late

/-- A new call starts before its test. -/
lemma Driver.Closed.start {d : Driver} (hd : d.Closed) (t : ℕ) {task : Task}
    (htask : task.beforeTest = true) : (d.setTask t task).Closed := by
  refine ⟨hd.early.start t htask, fun hfail t' => ?_⟩
  simp only [setTask, Function.update_apply]
  split
  · exact Task.pastTest_of_beforeTest htask
  · exact hd.late hfail t'

/-- A step of a task keeps the driver closed when a bit that fails fails alone. -/
lemma TaskStep.closed {d d' : Driver} {t : ℕ} {input : StepInput} {o : Output}
    (h : TaskStep d t input o d') (hd : d.Closed)
    (halone : d.dev.healthFail = false → d'.dev.healthFail = true →
      retriesFailure input.scripts infnoiseMaxRetries d.dev = false ∧
        ∀ t' ≠ t, (d.tasks t').pastTest = false) : d'.Closed := by
  refine ⟨h.early hd.early, fun hfail t' => ?_⟩
  cases h with
  | moved hdev hwarmup hdone hcompletions htasks hearly hlate =>
    rw [hdev] at hfail
    rw [htasks, Function.update_apply]
    split
    · exact (hlate hfail (hd.late hfail t)).1
    · exact hd.late hfail t'
  | read hread hpast herror =>
    have hok : d.dev.healthFail = false := by
      by_contra hset
      rw [hd.late (by simpa using hset) t] at hpast
      cases hpast
    obtain ⟨hretry, hothers⟩ := halone hok hfail
    simp only [Driver.setTask, Function.update_apply]
    split
    · exact herror (infnoiseReadData_error hread hok hfail hretry)
    · rename_i hne
      exact hothers t' hne

/-- With the flag set, a step of a task in a closed driver hands out nothing. -/
lemma TaskStep.delivered_eq {d d' : Driver} {t : ℕ} {input : StepInput} {o : Output}
    (h : TaskStep d t input o d') (hd : d.Closed) (hfail : d.dev.healthFail = true) :
    o.delivered = [] := by
  cases h with
  | moved hdev hwarmup hdone hcompletions htasks hearly hlate =>
    exact (hlate hfail (hd.late hfail t)).2
  | read hread hpast herror => rfl

/-- A step in which a bit that fails fails alone keeps the driver closed, and hands out nothing once
the flag is set. -/
lemma step_closed {c : DriverRecord}
    (h : c.before.step c.input = some (c.output, c.after)) (halone : c.FailsAlone)
    (hd : c.before.Closed) :
    c.after.Closed ∧ (c.before.dev.healthFail = true → c.output.delivered = []) := by
  obtain ⟨d, a, o, d'⟩ := c
  dsimp only at h hd ⊢
  cases a with
  | warmup =>
    obtain ⟨hclosed, hsilent⟩ := warmupStep_closed h hd
    exact ⟨hclosed, fun _ => hsilent⟩
  | step t input =>
    have htask := taskStep_cases h
    exact ⟨htask.closed hd (halone t input rfl), htask.delivered_eq hd⟩
  | hwrngRead t | charRead t | ioctlGet t =>
    cases driverStep_cases h
    exact ⟨hd.start t rfl, fun _ => rfl⟩
  | ioctlSetRaw | setParameters =>
    cases driverStep_cases h
    exact ⟨⟨hd.early, hd.late⟩, fun _ => rfl⟩

/-- In a run that ends with the flag clear, no step has set it. -/
lemma failsAlone_of_clear {d d' : Driver} {cs : List DriverRecord} (h : Run Driver.step d cs d')
    (hclear : d'.dev.healthFail = false) : ∀ c ∈ cs, c.FailsAlone := by
  intro c hc t input _ _ hset
  obtain ⟨cs₁, cs₂, rfl⟩ := List.append_of_mem hc
  obtain ⟨d₁, _, h₁⟩ := Run.append_iff.mp h
  obtain ⟨_, _, h₂⟩ := Run.cons_iff.mp h₁
  have hend := (h₂.invariant (I := fun d => d.dev.healthFail = true)
    (fun _ _ _ _ hstep hI => step_healthFail hstep hI) hset).2
  rw [hclear] at hend
  cases hend

/-- Nor does a step of a run that starts with the flag set. -/
lemma failsAlone_of_set {d d' : Driver} {cs : List DriverRecord} (h : Run Driver.step d cs d')
    (hset : d.dev.healthFail = true) : ∀ c ∈ cs, c.FailsAlone := by
  intro c hc t input _ hok _
  have hbefore := ((h.invariant (I := fun d => d.dev.healthFail = true)
    (fun _ _ _ _ hstep hI => step_healthFail hstep hI) hset).1 c hc).1
  rw [hok] at hbefore
  cases hbefore

/-! ### A source that gets stuck -/

/-- The samples of a source that is stuck at one. -/
def stuckScript : AttemptScript := sampleScript fun _ => sampleOf true

/-- The checker in a run of at least `n` ones, which are not too many yet. -/
structure Health.Stuck (n : ℕ) (h : Health) : Prop where
  inv : h.Inv
  sampled : inmMinSampleSize < h.numBitsSampled
  le_seqOnes : n ≤ h.seqOnes
  seqOnes_le : h.seqOnes ≤ inmMaxSequence

/-- A one that passes makes the run longer. -/
lemma Health.Stuck.addBit {n : ℕ} {h h' : Health} (hstuck : h.Stuck n) {even : Bool}
    (hadd : infnoiseHealthAddBit h true true even = some (true, h')) : h'.Stuck (n + 1) := by
  have hselect : selectBit true true even = true := by rw [selectBit, ite_self]
  have hu : u32 (h.seqOnes + 1) = h.seqOnes + 1 := by
    have := hstuck.seqOnes_le
    simp only [inmMaxSequence] at this
    exact u32_of_lt (by omega)
  have hcheck : (h.observe true true even).checkStuck true =
      (decide (u32 (h.seqOnes + 1) > inmMaxSequence), { h.observe true true even with
        totalOnes := u32 (h.totalOnes + 1), seqOnes := u32 (h.seqOnes + 1), seqZeros := 0 }) :=
    if_pos hstuck.sampled
  rcases infnoiseHealthAddBit_cases hstuck.inv true true even with
    ⟨_, hadd'⟩ | ⟨hpass, k, _, _, hadd', hinv⟩
  · rw [hadd'] at hadd
    cases hadd
  · rw [hselect, hcheck, decide_eq_false_iff_not, hu, not_lt] at hpass
    rw [hadd'] at hadd
    obtain rfl := (Prod.mk.inj (Option.some.inj hadd)).2
    have hones : (Health.countBit^[k] (h.enterLoop true true even)).seqOnes = h.seqOnes + 1 := by
      rw [Health.countBit_iterate, Health.enterLoop, hselect, hcheck, Health.updateProb_eq]
      exact hu
    have hsampled : (Health.countBit^[k] (h.enterLoop true true even)).numBitsSampled =
        h.numBitsSampled := by
      rw [Health.countBit_iterate, Health.enterLoop, hselect, hcheck, Health.updateProb_eq]
      rfl
    have hfin := Health.finishBit_finished (by rw [hsampled]; exact hstuck.inv.numBitsSampled_lt)
      (selectBit true true even) even
    have hle := hstuck.le_seqOnes
    have hmin := hstuck.sampled
    refine ⟨hinv, ?_, ?_, ?_⟩
    · rw [hfin.numBitsSampled_eq, hsampled]
      simp only [inmMinSampleSize] at hmin ⊢
      split <;> omega
    · rw [hfin.seqOnes_eq, hones]
      omega
    · rw [hfin.seqOnes_eq, hones]
      exact hpass

/-- No block of ones passes. -/
lemma extractLoop_stuck {h h' : Health} (hstuck : h.Stuck 0) {inBuf outBuf outBuf' : ℕ → Byte}
    {ok : Bool} (hin : ∀ k < 512, inBuf k = sampleOf true)
    (hloop : forWhile 64 (extractByte inBuf) (outBuf, h) = some (ok, outBuf', h')) :
    ok = false := by
  rcases ok with _ | _
  · rfl
  · rw [extractByte_eq] at hloop
    have hend : h'.Stuck (8 * 64) := (checked_pack hloop).1.range_invariant
      (I := fun k (h : Health) => h.Stuck k) (fun k hk s t hadd hs => by
        rw [sampleAt, hin k hk, evenBitOf_sampleOf, oddBitOf_sampleOf] at hadd
        exact hs.addBit hadd) hstuck
    have hle : 8 * 64 ≤ h'.seqOnes := hend.le_seqOnes
    have hle' : h'.seqOnes ≤ 20 := hend.seqOnes_le
    omega

/-- An attempt that gets its samples from a stuck source sets the flag. -/
lemma infnoiseUsbTransferOnce_stuck {dev dev' : Device} {ret : Except Errno ℕ}
    (hstuck : dev.health.Stuck 0)
    (h : infnoiseUsbTransferOnce dev stuckScript = some (ret, dev')) : dev'.healthFail = true := by
  obtain ⟨usbBuf, readBuf, hreceive, hsamples⟩ :=
    receiveSamples_sampleScript (fun _ => sampleOf true) dev.usbBuf dev.readBuf
  rw [infnoiseUsbTransferOnce, stuckScript, hreceive] at h
  dsimp only at h
  rw [infnoiseExtractBytes, Option.map_eq_some_iff] at h
  obtain ⟨⟨ok, outBuf, health⟩, hloop, heq⟩ := h
  have hclear : (infnoiseHealthClearEntropy dev.health).Stuck 0 :=
    ⟨infnoiseHealthClearEntropy_inv hstuck.inv, hstuck.sampled, Nat.zero_le _, hstuck.seqOnes_le⟩
  obtain rfl := extractLoop_stuck hclear hsamples hloop
  obtain ⟨_, rfl⟩ := Prod.mk.inj heq
  rfl

/-- So does a transfer whose next attempt does. -/
lemma transferLoop_stuck {scripts : ℕ → AttemptScript} {retries : ℕ} {last ret : Except Errno ℕ}
    {dev dev' : Device} (hscript : scripts (infnoiseMaxRetries - (retries + 1)) = stuckScript)
    (hstuck : dev.health.Stuck 0)
    (h : transferLoop scripts (retries + 1) last dev = some (ret, dev')) :
    dev'.healthFail = true := by
  rw [transferLoop, hscript] at h
  rcases h₁ : infnoiseUsbTransferOnce dev stuckScript with _ | ⟨ret₁, dev₁⟩
  · simp only [h₁] at h
    cases h
  · simp only [h₁] at h
    have hfail := infnoiseUsbTransferOnce_stuck hstuck h₁
    obtain ⟨_, hflag, _⟩ := afterAttempt_cases dev₁ stuckScript ret₁
    rcases hafter : afterAttempt dev₁ stuckScript ret₁ with ⟨_ | ret₂, dev₂⟩
    · simp only [hafter] at h hflag
      rcases ret₁ with e | entropy
      · have hlevel : ReturnsLevel (.error e) dev₂ := fun _ heq => by cases heq
        exact (transferLoop_cases hlevel h).1.healthFail_mono (hflag.trans hfail)
      · cases hafter
    · simp only [hafter] at h hflag
      obtain ⟨_, rfl⟩ := Prod.mk.inj (Option.some.inj h)
      exact hflag.trans hfail

/-- A device that does not take the clock bytes in time. -/
def timeoutScript : AttemptScript where
  write := .error .etimedout
  reads := []
  recovery := ⟨fun _ => none, none, fun _ => none⟩

/-- Two attempts in which no sample arrives, then a source that is stuck. -/
def lateScripts (i : ℕ) : AttemptScript := if i < 2 then timeoutScript else stuckScript

/-- After an attempt that times out the driver makes another, whether it recovers or not. -/
lemma transferLoop_timeout {scripts : ℕ → AttemptScript} {retries : ℕ} {dev : Device}
    (hscript : scripts (infnoiseMaxRetries - (retries + 1)) = timeoutScript)
    (hpresent : dev.present = true) (hok : dev.healthFail = false) :
    ∃ dev', (∀ last, transferLoop scripts (retries + 1) last dev =
        transferLoop scripts retries (.error .etimedout) dev') ∧
      retriesFailure scripts (retries + 1) dev = retriesFailure scripts retries dev' ∧
      dev'.health = dev.health ∧ dev'.present = true ∧ dev'.healthFail = false := by
  have honce : infnoiseUsbTransferOnce dev timeoutScript = some (.error .etimedout, dev) := rfl
  have hrecovery : recoveryRequests timeoutScript.recovery =
      ([.resetSio, .setLatencyTimer, .setBaudrate, .setBitmode, .purgeRx, .purgeTx], none) := rfl
  obtain ⟨dev', hafter, hhealth, hpresent', hok'⟩ : ∃ dev',
      afterAttempt dev timeoutScript (.error .etimedout) = (none, dev') ∧
        dev'.health = dev.health ∧ dev'.present = true ∧ dev'.healthFail = false := by
    simp only [afterAttempt, infnoiseIsRecoverableError, infnoiseTryRecovery, hpresent, hrecovery,
      Bool.not_true, Bool.false_eq_true, if_false]
    split
    · exact ⟨_, rfl, rfl, rfl, hok⟩
    · exact ⟨_, rfl, rfl, rfl, hok⟩
  refine ⟨dev', fun last => ?_, ?_, hhealth, hpresent', hok'⟩
  · simp only [transferLoop, hscript, honce, hafter]
  · simp only [retriesFailure, hscript, honce, hafter, hok', Bool.false_eq_true, if_false]

/-- There is no attempt after the last one. -/
lemma retriesFailure_one (scripts : ℕ → AttemptScript) (dev : Device) :
    retriesFailure scripts 1 dev = false := by
  rw [retriesFailure]
  split
  · rfl
  · split
    · rfl
    · split
      · rfl
      · rfl

/-- The samples that fail come with the last attempt. -/
lemma lateScripts_fails {dev : Device} (hstuck : dev.health.Stuck 0)
    (hpresent : dev.present = true) (hok : dev.healthFail = false) :
    retriesFailure lateScripts infnoiseMaxRetries dev = false ∧
      ∀ ret dev', infnoiseUsbTransfer dev lateScripts = some (ret, dev') →
        dev'.healthFail = true := by
  obtain ⟨dev₁, hloop₁, hretries₁, hhealth₁, hpresent₁, hok₁⟩ :=
    @transferLoop_timeout lateScripts 2 dev rfl hpresent hok
  obtain ⟨dev₂, hloop₂, hretries₂, hhealth₂, hpresent₂, hok₂⟩ :=
    @transferLoop_timeout lateScripts 1 dev₁ rfl hpresent₁ hok₁
  have hstuck₂ : dev₂.health.Stuck 0 := by rwa [hhealth₂, hhealth₁]
  constructor
  · rw [infnoiseMaxRetries, hretries₁, hretries₂, retriesFailure_one]
  · intro ret dev' h
    rw [infnoiseUsbTransfer, infnoiseMaxRetries, hloop₁, hloop₂] at h
    exact transferLoop_stuck rfl hstuck₂ h

/-! ### Reads that take place -/

/-- What a step meets that does not look at it. -/
def StepInput.quiet : StepInput := ⟨fun _ => stuckScript, fun _ => 0, false, 0⟩

section

variable {d : Driver} {t : ℕ}

/-- A reader gets to the lock. -/
lemma exists_run_locking (max : ℕ) (ht : d.tasks t = .idle) (hpresent : d.dev.present = true)
    (hdone : d.warmupDone = true) (hfail : d.dev.healthFail = false) :
    ∃ cs, Run Driver.step d cs
      (d.setTask t (.hwrng ⟨max, false, d.infnoiseRawMode || d.rawMode⟩ .locking)) := by
  let call : HwrngCall := ⟨max, false, d.infnoiseRawMode || d.rawMode⟩
  have hentered := @step_setTask_hwrng t .quiet _ d d call _ _ (.enters hpresent (.inl rfl))
  have hwarm := @step_setTask_hwrng t .quiet _ d d call _ _ (.warm hdone)
  have htest := @step_setTask_hwrng t .quiet _ d d call _ _ (.healthy hfail)
  exact ⟨_, .cons (step_hwrngRead max ht) (.cons hentered (.cons hwarm (.cons htest (.nil _))))⟩

/-- The bits that fail in a run from `d` fail alone, when they do in the transfer of `t`. -/
def FailAlone (d : Driver) (t : ℕ) (scripts : ℕ → AttemptScript) (cs : List DriverRecord) : Prop :=
  retriesFailure scripts infnoiseMaxRetries d.dev = false →
    (∀ t' ≠ t, (d.tasks t').pastTest = false) → ∀ c ∈ cs, c.FailsAlone

/-- A reader at the lock takes it, reads and gives it back. -/
lemma exists_run_returning {call : HwrngCall} {scripts : ℕ → AttemptScript} {r : ReadResult}
    (ht : d.tasks t = .hwrng call .locking) (hlocked : d.locked = false)
    (hread : infnoiseReadData d.dev d.multiplier scripts (fun _ => 0) call.max call.raw = some r) :
    ∃ cs, Run Driver.step d cs
        ({ d with dev := r.dev }.setTask t (.hwrng call (.returning r.ret r.result))) ∧
      (∃ c ∈ cs, ∃ input, c.input = .step t input ∧ c.before.dev = d.dev ∧ c.after.dev = r.dev) ∧
      FailAlone d t scripts cs := by
  let input : StepInput := ⟨scripts, fun _ => 0, false, 0⟩
  have hlock : d.step (.step t input) =
      some (.silent, { d with locked := true }.setTask t (.hwrng call .locked)) :=
    step_of_hwrngStep ht (.locks hlocked)
  have hmove := @step_setTask_hwrng t input _ { d with locked := true }
    { d with locked := true, dev := r.dev } call _ _ (.reads hread)
  have hunlock := @step_setTask_hwrng t input _ { d with locked := true, dev := r.dev }
    { d with locked := false, dev := r.dev } call (.unlocking r.ret r.result) _ .unlocks
  rw [← hlocked] at hunlock
  refine ⟨_, .cons hlock (.cons hmove (.cons hunlock (.nil _))), ?_, ?_⟩
  · exact ⟨_, List.mem_cons_of_mem _ List.mem_cons_self, input, rfl, rfl, rfl⟩
  · intro hretry hothers c hc
    simp only [List.mem_cons, List.not_mem_nil, or_false] at hc
    rcases hc with rfl | rfl | rfl <;> intro t' input' hinput hok hset
    · exact absurd (hok.symm.trans hset) Bool.false_ne_true
    · obtain ⟨rfl, rfl⟩ := Action.step.inj hinput
      refine ⟨hretry, fun t' hne => ?_⟩
      rw [Driver.setTask_tasks_of_ne _ hne]
      exact hothers t' hne
    · exact absurd (hok.symm.trans hset) Bool.false_ne_true

end

/-- A raw read in which a bit fails sets the flag and leaves the bytes of the sponge. -/
lemma exists_readData_fails {dev : Device} {scripts : ℕ → AttemptScript}
    (hstuck : dev.health.Stuck 0) (hpresent : dev.present = true)
    (hfails : ∀ ret dev', infnoiseUsbTransfer dev scripts = some (ret, dev') →
      dev'.healthFail = true) (multiplier : ℕ) (result : ℕ → Byte) (maxLen : ℕ) :
    ∃ r, infnoiseReadData dev multiplier scripts result maxLen true = some r ∧
      r.dev.healthFail = true ∧ r.dev.keccakBytesLeft = dev.keccakBytesLeft ∧
      r.dev.present = true := by
  obtain ⟨r, hread⟩ := infnoiseReadData_returns hstuck.inv multiplier scripts result maxLen true
  refine ⟨r, hread, ?_⟩
  cases infnoiseReadData_step hread with
  | absent habsent =>
    rw [hpresent] at habsent
    cases habsent
  | squeezed _ hraw _ | absorbed _ _ _ hraw _ => cases hraw
  | failed _ htransfer | rejected _ htransfer _ | rawBlock _ htransfer _ _ =>
    obtain ⟨hframe, _⟩ := infnoiseUsbTransfer_cases htransfer
    have hflag := hfails _ _ htransfer
    exact ⟨hflag, hframe.keccakBytesLeft_eq, hframe.present_eq.trans hpresent⟩

/-- The checker of a device that was just read from is not in a long run of ones. -/
lemma Health.Fed.stuck {j : ℕ} {h : Health} (hfed : h.Fed (512 * j)) (hj : 157 ≤ j) :
    h.Stuck 0 where
  inv := hfed.inv
  sampled := by
    have := Meter.le_samples (by omega : 80000 ≤ 512 * j)
    rw [hfed.numBitsSampled_eq]
    simp only [inmMinSampleSize]
    omega
  le_seqOnes := Nat.zero_le _
  seqOnes_le := hfed.runs.ones_le.trans (by decide)

/-- A whitened read of 16 bytes from a warm device leaves another 16. -/
lemma exists_readData_half {j : ℕ} {dev : Device} (h : dev.Warming j) (h157 : 157 ≤ j)
    (h372 : j < 372) (hok : infnoiseHealthOk dev.health = true) :
    ∃ r, infnoiseReadData dev 1 (fun _ => registerScript (512 * j)) (fun _ => 0) 16 false = some r ∧
      r.ret = .ok 16 ∧ r.dev.health.Stuck 0 ∧ r.dev.keccakBytesLeft = 16 ∧
      r.dev.present = true ∧ r.dev.healthFail = false := by
  obtain ⟨dev', entropy, hloaded, hread⟩ := h.readData h157 h372 hok 1 (fun _ => 0) 16
  have hbudget : (dev'.absorb 1 entropy).keccakBytesLeft = 32 := rfl
  have hsize : squeezeSize (dev'.absorb 1 entropy) 16 = 16 := by
    rw [squeezeSize, hbudget]
    rfl
  have hleft : subU32 (dev'.absorb 1 entropy).keccakBytesLeft 16 = 16 := by
    rw [hbudget, subU32_of_le (by norm_num) (by norm_num)]
  refine ⟨_, hread, ?_⟩
  rw [absorbAndSqueeze_ret, absorbAndSqueeze_dev, squeezeLeft_dev, hsize, hleft]
  exact ⟨rfl, hloaded.fed.stuck (by omega), rfl, hloaded.present, hloaded.healthFail⟩

/-- A whole read. -/
lemma exists_run_read {d : Driver} {t max : ℕ} {raw : Bool} {scripts : ℕ → AttemptScript}
    {r : ReadResult} (ht : d.tasks t = .idle) (hpresent : d.dev.present = true)
    (hdone : d.warmupDone = true) (hfail : d.dev.healthFail = false) (hlocked : d.locked = false)
    (hraw : (d.infnoiseRawMode || d.rawMode) = raw)
    (hread : infnoiseReadData d.dev d.multiplier scripts (fun _ => 0) max raw = some r) :
    ∃ cs, Run Driver.step d cs { d with dev := r.dev } ∧
      (∃ c ∈ cs, c.output = ⟨deliveredBytes r.ret r.result, some r.ret⟩) ∧
      (∃ c ∈ cs, ∃ input, c.input = .step t input ∧ c.before.dev = d.dev ∧ c.after.dev = r.dev) ∧
      FailAlone d t scripts cs := by
  subst hraw
  let call : HwrngCall := ⟨max, false, d.infnoiseRawMode || d.rawMode⟩
  obtain ⟨cs₁, hrun₁⟩ := exists_run_locking max ht hpresent hdone hfail
  obtain ⟨cs₂, hrun₂, ⟨c, hc, hsets⟩, halone⟩ := @exists_run_returning
    (d.setTask t (.hwrng call .locking)) t call scripts r (Driver.setTask_tasks ..) hlocked hread
  let d₂ : Driver := { d.setTask t (.hwrng call .locking) with dev := r.dev }.setTask t
    (.hwrng call (.returning r.ret r.result))
  have hreturn : d₂.step (.step t .quiet) =
      some (⟨deliveredBytes r.ret r.result, some r.ret⟩, d₂.setTask t .idle) :=
    step_of_hwrngStep (Driver.setTask_tasks ..) .returns
  have hidle : d₂.setTask t .idle = { d with dev := r.dev } := by
    simp only [d₂, Driver.setTask_setTask]
    simp [Driver.setTask, ← ht]
  rw [hidle] at hreturn
  refine ⟨_, hrun₁.append (hrun₂.append (.single hreturn)), ?_, ?_, ?_⟩
  · exact ⟨_, List.mem_append_right _ (List.mem_append_right _ (List.mem_singleton_self _)), rfl⟩
  · exact ⟨c, List.mem_append_right _ (List.mem_append_left _ hc), hsets⟩
  · intro hretry hothers c hc
    rcases List.mem_append.mp hc with hc | hc
    · exact failsAlone_of_clear hrun₁ hfail c hc
    rcases List.mem_append.mp hc with hc | hc
    · refine halone hretry (fun t' hne => ?_) c hc
      rw [Driver.setTask_tasks_of_ne _ hne]
      exact hothers t' hne
    · -- the return leaves the device as it is
      rw [List.mem_singleton.mp hc]
      intro _ _ _ hok hset
      exact absurd (hok.symm.trans hset) Bool.false_ne_true

/-! ### Half a block -/

/-- No call is under way after the warm-up and a read of 16 bytes, and 16 bytes of the block are
left. -/
structure Driver.HalfRead (d : Driver) : Prop where
  idle : ∀ t, d.tasks t = .idle
  locked : d.locked = false
  warmupDone : d.warmupDone = true
  multiplier_eq : d.multiplier = 1
  whitened : (d.infnoiseRawMode || d.rawMode) = false
  present : d.dev.present = true
  healthFail : d.dev.healthFail = false
  stuck : d.dev.health.Stuck 0
  keccakBytesLeft_eq : d.dev.keccakBytesLeft = 16

/-- The warm-up, and a read of 16 bytes. -/
lemma exists_run_warm_read : ∃ cs d, Run Driver.step probed cs d ∧ d.HalfRead ∧
    ∃ c ∈ cs, c.output.delivered ≠ [] := by
  obtain ⟨j, dev, cs₁, h157, h372, hwarming, hok, ⟨hwarm, _⟩, _⟩ := exists_warmed
  obtain ⟨r, hread, hret, hstuck, hleft, hpresent, hfail⟩ :=
    exists_readData_half hwarming h157 h372 hok
  obtain ⟨cs₂, hrun, ⟨c, hc, hout⟩, _⟩ := @exists_run_read (warmed dev) 0 16 false
    (fun _ => registerScript (512 * j)) r rfl hwarming.present rfl hwarming.healthFail rfl rfl hread
  refine ⟨_, _, hwarm.append hrun, ?_, c, List.mem_append_right _ hc, ?_⟩
  · exact ⟨fun _ => rfl, rfl, rfl, rfl, rfl, hpresent, hfail, hstuck, hleft⟩
  · rw [hout, hret, deliveredBytes, bufferBytes]
    exact List.cons_ne_nil _ _

section

variable {d : Driver}

/-- A reader waits at the lock with the flag tested; a bit fails for another reader, which sets the
flag; then the first one takes the lock and is given what is left of the last block. -/
lemma Driver.HalfRead.exists_leak (h : d.HalfRead) :
    ∃ cs d', Run Driver.step d cs d' ∧ ¬ Latched cs := by
  obtain ⟨r, hread, hfail, hleft, hpresent⟩ := exists_readData_fails h.stuck h.present
    (fun _ _ => @transferLoop_stuck (fun _ => stuckScript) 2 _ _ _ _ rfl h.stuck) 1 (fun _ => 0) 16
  have hread₂ : infnoiseReadData r.dev 1 (fun _ => stuckScript) (fun _ => 0) 16 false =
      some (squeezeLeft r.dev (fun _ => 0) 16) := by
    rw [infnoiseReadData, hpresent, hleft, h.keccakBytesLeft_eq]
    rfl
  have hret : deliveredBytes (squeezeLeft r.dev (fun _ => 0) 16).ret
      (squeezeLeft r.dev (fun _ => 0) 16).result ≠ [] := by
    have hsize : squeezeSize r.dev 16 = 16 := by
      rw [squeezeSize, hleft, h.keccakBytesLeft_eq]
      rfl
    rw [squeezeLeft_ret, hsize, deliveredBytes, bufferBytes]
    exact List.cons_ne_nil _ _
  obtain ⟨r₂, hr₂⟩ : ∃ r₂, squeezeLeft r.dev (fun _ => 0) 16 = r₂ := ⟨_, rfl⟩
  have hfail₂ : r₂.dev.healthFail = true := by
    rw [← hr₂, squeezeLeft_dev]
    exact hfail
  rw [hr₂] at hread₂ hret
  obtain ⟨cs₁, hrun₁⟩ := exists_run_locking 16 (h.idle 1) h.present h.warmupDone h.healthFail
  rw [h.whitened] at hrun₁
  -- the other reader reads in raw mode
  let d₁ : Driver := { d.setTask 1 (.hwrng ⟨16, false, false⟩ .locking) with rawMode := true }
  have hioctl : (d.setTask 1 (.hwrng ⟨16, false, false⟩ .locking)).step (.ioctlSetRaw true) =
      some (.silent, d₁) := rfl
  have ht₂ : d₁.tasks 2 = .idle := by
    change (d.setTask 1 (.hwrng ⟨16, false, false⟩ .locking)).tasks 2 = .idle
    rw [Driver.setTask_tasks_of_ne _ (by decide), h.idle 2]
  obtain ⟨cs₂, hrun₂, _⟩ := @exists_run_read d₁ 2 16 true (fun _ => stuckScript) r ht₂ h.present
    h.warmupDone h.healthFail h.locked (Bool.or_true _) (h.multiplier_eq ▸ hread)
  -- the first one goes on
  let d₂ : Driver := { d₁ with dev := r.dev }
  have ht₁ : d₂.tasks 1 = .hwrng ⟨16, false, false⟩ .locking := Driver.setTask_tasks d 1 _
  obtain ⟨cs₃, hrun₃, _⟩ := @exists_run_returning d₂ 1 ⟨16, false, false⟩ (fun _ => stuckScript) r₂
    ht₁ h.locked (h.multiplier_eq ▸ hread₂)
  let d₃ : Driver :=
    { d₂ with dev := r₂.dev }.setTask 1 (.hwrng ⟨16, false, false⟩ (.returning r₂.ret r₂.result))
  have hend : d₃.step (.step 1 .quiet) =
      some (⟨deliveredBytes r₂.ret r₂.result, some r₂.ret⟩, d₃.setTask 1 .idle) :=
    step_of_hwrngStep (Driver.setTask_tasks ..) .returns
  refine ⟨_, _, hrun₁.append (.cons hioctl (hrun₂.append (hrun₃.append (.single hend)))), ?_⟩
  intro hlatched
  refine hret (hlatched ⟨d₃, .step 1 .quiet, ⟨deliveredBytes r₂.ret r₂.result, some r₂.ret⟩,
    d₃.setTask 1 .idle⟩ ?_ hfail₂)
  exact List.mem_append_right _ (List.mem_cons_of_mem _ (List.mem_append_right _
    (List.mem_append_right _ (List.mem_singleton_self _))))

/-- With the flag set a reader is refused, whatever the sponge has left. -/
lemma exists_run_refused {t : ℕ} (max : ℕ) (ht : d.tasks t = .idle)
    (hpresent : d.dev.present = true) (hdone : d.warmupDone = true)
    (hfail : d.dev.healthFail = true) :
    ∃ cs d', Run Driver.step d cs d' ∧
      ∃ c ∈ cs, c.before.dev = d.dev ∧ c.output.returned = some (.error .eio) := by
  let call : HwrngCall := ⟨max, false, d.infnoiseRawMode || d.rawMode⟩
  have hentered := @step_setTask_hwrng t .quiet _ d d call _ _ (.enters hpresent (.inl rfl))
  have hwarm := @step_setTask_hwrng t .quiet _ d d call _ _ (.warm hdone)
  have htest := @step_of_hwrngStep _ _ t .quiet _ _ _
    (Driver.setTask_tasks d t (.hwrng call .failTest)) (.failed hfail)
  refine ⟨_, _, .cons (step_hwrngRead max ht) (.cons hentered (.cons hwarm (.single htest))), _,
    List.mem_cons_of_mem _ (List.mem_cons_of_mem _ (List.mem_cons_of_mem _ List.mem_cons_self)),
    rfl, rfl⟩

/-- A raw read fails a bit in its last attempt, which sets the flag. The next reader would find 16
bytes in the sponge, and is refused. -/
lemma Driver.HalfRead.exists_refusal (h : d.HalfRead) :
    ∃ (cs : List DriverRecord) (d' : Driver), Run Driver.step d cs d' ∧ (∀ c ∈ cs, c.FailsAlone) ∧
      (∃ c ∈ cs, ∃ t input, c.input = .step t input ∧ c.before.dev.healthFail = false ∧
        c.after.dev.healthFail = true) ∧
      ∃ c ∈ cs, c.before.dev.healthFail = true ∧ c.before.dev.keccakBytesLeft = 16 ∧
        c.output.returned = some (.error .eio) := by
  obtain ⟨hretry, hfails⟩ := lateScripts_fails h.stuck h.present h.healthFail
  obtain ⟨r, hread, hfail, hleft, hpresent⟩ :=
    exists_readData_fails h.stuck h.present hfails 1 (fun _ => 0) 16
  have hioctl : d.step (.ioctlSetRaw true) = some (.silent, { d with rawMode := true }) := rfl
  obtain ⟨cs₁, hrun₁, _, ⟨c₁, hc₁, input, hinput, hbefore₁, hafter₁⟩, halone⟩ :=
    @exists_run_read { d with rawMode := true } 0 16 true lateScripts r (h.idle 0) h.present
      h.warmupDone h.healthFail h.locked (Bool.or_true _) (h.multiplier_eq ▸ hread)
  have hioctl' : ({ d with rawMode := true, dev := r.dev } : Driver).step (.ioctlSetRaw false) =
      some (.silent, { d with rawMode := false, dev := r.dev }) := rfl
  obtain ⟨cs₂, d₂, hrun₂, c₂, hc₂, hbefore₂, hreturned⟩ :=
    @exists_run_refused { d with rawMode := false, dev := r.dev } 1 16 (h.idle 1) hpresent
      h.warmupDone hfail
  have hrefused := Run.cons hioctl' hrun₂
  refine ⟨_, d₂, .cons hioctl (hrun₁.append hrefused), ?_, ⟨c₁, ?_, 0, input, hinput, ?_, ?_⟩,
    c₂, ?_, ?_, ?_, hreturned⟩
  · intro c hc
    rcases List.mem_cons.mp hc with rfl | hc
    · intro t input hstep
      cases hstep
    rcases List.mem_append.mp hc with hc | hc
    · exact halone hretry (fun t _ => by rw [h.idle t]; rfl) c hc
    · exact failsAlone_of_set hrefused hfail c hc
  · exact List.mem_cons_of_mem _ (List.mem_append_left _ hc₁)
  · rw [hbefore₁]
    exact h.healthFail
  · rw [hafter₁]
    exact hfail
  · exact List.mem_cons_of_mem _ (List.mem_append_right _ (List.mem_cons_of_mem _ hc₂))
  · rw [hbefore₂]
    exact hfail
  · rw [hbefore₂]
    exact hleft.trans h.keccakBytesLeft_eq

end

/-! ### The latch -/

/-- In every run of a device from its probe on, whatever the order of the steps: once the flag is
set no step hands out bytes, when every bit that fails for a reader fails alone. -/
theorem healthFail_latched {clockBuf usbBuf readBuf outBuf : ℕ → Byte} {multiplier : ℕ}
    {rawMode : Bool} {d : Driver} {cs : List DriverRecord}
    (h : Run Driver.step (infnoiseProbe clockBuf usbBuf readBuf outBuf multiplier rawMode) cs d)
    (halone : ∀ c ∈ cs, c.FailsAlone) : Latched cs := by
  have hinv := (h.invariant_of (I := Driver.Closed) (P := DriverRecord.FailsAlone)
    (fun c hstep hP hI => (step_closed hstep hP hI).1) halone
    (infnoiseProbe_closed clockBuf usbBuf readBuf outBuf multiplier rawMode)).1
  exact fun c hc => (step_closed (h.step_of_mem hc) (halone c hc) (hinv c hc).1).2

/-- A read is served, another one fails the health check in its last attempt, and the reader that
comes then is refused. -/
theorem healthFail_latched_refused : ∃ (cs : List DriverRecord) (d : Driver),
    Run Driver.step probed cs d ∧ (∃ c ∈ cs, c.output.delivered ≠ []) ∧
      (∃ c ∈ cs, ∃ t input, c.input = .step t input ∧ c.before.dev.healthFail = false ∧
        c.after.dev.healthFail = true) ∧
      (∃ c ∈ cs, c.before.dev.healthFail = true ∧ c.before.dev.keccakBytesLeft = 16 ∧
        c.output.returned = some (.error .eio)) ∧ Latched cs := by
  obtain ⟨cs₁, d₁, hrun₁, hhalf, c₁, hc₁, hdelivered⟩ := exists_run_warm_read
  obtain ⟨cs₂, d₂, hrun₂, halone, ⟨c₂, hc₂, hfails⟩, c₃, hc₃, hrefused⟩ := hhalf.exists_refusal
  have hrun := hrun₁.append hrun₂
  refine ⟨_, d₂, hrun, ⟨c₁, List.mem_append_left _ hc₁, hdelivered⟩,
    ⟨c₂, List.mem_append_right _ hc₂, hfails⟩, ⟨c₃, List.mem_append_right _ hc₃, hrefused⟩,
    healthFail_latched hrun fun c hc => ?_⟩
  rcases List.mem_append.mp hc with hc | hc
  · exact failsAlone_of_clear hrun₁ hhalf.healthFail c hc
  · exact halone c hc

/-- The latch can leak. -/
theorem healthFail_leaks : ∃ cs d, Run Driver.step probed cs d ∧ ¬ Latched cs := by
  obtain ⟨cs₁, d₁, hrun₁, hhalf, _⟩ := exists_run_warm_read
  obtain ⟨cs₂, d₂, hrun₂, hleak⟩ := hhalf.exists_leak
  exact ⟨_, d₂, hrun₁.append hrun₂, fun hlatched => hleak fun c hc =>
    hlatched c (List.mem_append_right _ hc)⟩

end Kernel
