import Infnoise.Kernel.Transitions

/-!
# Steps of the tasks

A step of a task reads from the device, under the lock and past the tests of the read path, or it
moves the task on and leaves the device alone. Until the warm-up work has decided how it ended, no
task gets to its tests.
-/

namespace Kernel

open Core

attribute [local irreducible] infnoiseKeccakPermutation infnoiseKeccakAbsorb

/-- A step in a run of the driver. -/
abbrev DriverRecord := Call Driver Action Output

/-! ### Where a task stands -/

/-- Whether a result is positive. -/
def isPositive : Except Errno ℕ → Bool
  | .ok (_ + 1) => true
  | _ => false

/-- Whether `infnoise_char_read` goes on with this result of `infnoise_read_data`: it copies bytes
out, or tries again. -/
def CharCall.goesOn (call : CharCall) (total : ℕ) : Except Errno ℕ → Bool
  | .error _ => false
  | .ok 0 => decide (total = 0) && !call.nonblock
  | .ok (_ + 1) => true

/-- Whether a task is past its test of the flag and can still hand out bytes. -/
def Task.pastTest : Task → Bool
  | .hwrng _ .locking => true
  | .hwrng _ .locked => true
  | .hwrng _ (.unlocking ret _) => isPositive ret
  | .hwrng _ (.returning ret _) => isPositive ret
  | .char call (.loop total) => decide (total < call.count)
  | .char _ (.locked _) => true
  | .char call (.unlocking total ret _) => call.goesOn total ret
  | .char call (.copying total ret _) => call.goesOn total ret
  | _ => false

/-! ### One step of a task -/

/-- Whether the warm-up work has yet to decide how it ended. -/
def WarmupPc.early : WarmupPc → Bool
  | .scheduled | .running _ | .checking _ => true
  | .completing | .finished => false

/-- Where a task can stand as long as the warm-up work has not ended. -/
def Task.beforeTest : Task → Bool
  | .idle | .ioctl _ => true
  | .hwrng _ .entered | .hwrng _ .waiting | .hwrng _ .warmupTest => true
  | .char _ .entered | .char _ .waiting => true
  | _ => false

lemma Task.pastTest_of_beforeTest {task : Task} (h : task.beforeTest = true) :
    task.pastTest = false := by
  cases task with
  | idle | ioctl => rfl
  | hwrng call pc => cases pc <;> first | rfl | cases h
  | char call pc => cases pc <;> first | rfl | cases h

/-- A step of a task reads from the device, or moves the task on and leaves the device alone. -/
inductive TaskStep (d : Driver) (t : ℕ) (input : StepInput) : Output → Driver → Prop where
  /-- The task moves on. Before the warm-up ends it stays before its test, and with the flag set
  it does not get past it. -/
  | moved {o : Output} {d' : Driver} {task : Task} (hdev : d'.dev = d.dev)
      (hwarmup : d'.warmup = d.warmup) (hdone : d'.warmupDone = d.warmupDone)
      (hcompletions : d'.completions ≤ d.completions)
      (htasks : d'.tasks = Function.update d.tasks t task)
      (hearly : d.warmupDone = false → d.completions = 0 → (d.tasks t).beforeTest = true →
        task.beforeTest = true)
      (hlate : d.dev.healthFail = true → (d.tasks t).pastTest = false →
        task.pastTest = false ∧ o.delivered = []) :
    TaskStep d t input o d'
  /-- The task, which is past its test, reads from the device. -/
  | read {maxLen : ℕ} {raw : Bool} {r : ReadResult} {task : Task}
      (hread : infnoiseReadData d.dev d.multiplier input.scripts input.buffer maxLen raw = some r)
      (hpast : (d.tasks t).pastTest = true)
      (herror : (∃ e, r.ret = .error e) → task.pastTest = false) :
    TaskStep d t input .silent ({ d with dev := r.dev }.setTask t task)

section

variable {d d' : Driver} {t : ℕ} {input : StepInput} {o : Output}

lemma HwrngStep.taskStep {call : HwrngCall} {pc : HwrngPc} (ht : d.tasks t = .hwrng call pc)
    (h : HwrngStep d t input call pc o d') : TaskStep d t input o d' := by
  have hafter : (Task.hwrng call pc).beforeTest = false → (d.tasks t).beforeTest ≠ true := by
    intro hpc hbefore
    rw [ht, hpc] at hbefore
    cases hbefore
  cases h with
  | absent | waits | enters | interrupted | cold | failed =>
    exact .moved rfl rfl rfl le_rfl rfl (fun _ _ _ => rfl) fun _ _ => ⟨rfl, rfl⟩
  | woken _ htoken =>
    exact .moved rfl rfl rfl (Nat.sub_le _ _) rfl (fun _ _ _ => rfl) fun _ _ => ⟨rfl, rfl⟩
  | warm hdone =>
    refine .moved rfl rfl rfl le_rfl rfl (fun hcold => ?_) fun _ _ => ⟨rfl, rfl⟩
    rw [hdone] at hcold
    cases hcold
  | healthy hfail =>
    refine .moved rfl rfl rfl le_rfl rfl (fun _ _ hbefore => absurd hbefore (hafter rfl)) ?_
    intro hset
    rw [hfail] at hset
    cases hset
  | locks =>
    refine .moved rfl rfl rfl le_rfl rfl (fun _ _ hbefore => absurd hbefore (hafter rfl)) ?_
    intro _ hpast
    rw [ht] at hpast
    cases hpast
  | reads hread => exact .read hread (by rw [ht]; rfl) fun ⟨e, he⟩ => by rw [he]; rfl
  | unlocks =>
    refine .moved rfl rfl rfl le_rfl rfl (fun _ _ hbefore => absurd hbefore (hafter rfl)) ?_
    intro _ hpast
    rw [ht] at hpast
    exact ⟨hpast, rfl⟩
  | @returns ret data =>
    refine .moved rfl rfl rfl le_rfl rfl (fun _ _ _ => rfl) fun _ hpast => ⟨rfl, ?_⟩
    rw [ht] at hpast
    rcases ret with e | _ | n
    · rfl
    · rfl
    · cases hpast

lemma CharStep.taskStep {call : CharCall} {pc : CharPc} (ht : d.tasks t = .char call pc)
    (h : CharStep d t input call pc o d') : TaskStep d t input o d' := by
  have hafter : (Task.char call pc).beforeTest = false → (d.tasks t).beforeTest ≠ true := by
    intro hpc hbefore
    rw [ht, hpc] at hbefore
    cases hbefore
  cases h with
  | cold | waits | interrupted | failed | ends | error | dry | again | signalled =>
    exact .moved rfl rfl rfl le_rfl rfl (fun _ _ _ => rfl) fun _ _ => ⟨rfl, rfl⟩
  | woken _ htoken =>
    -- there are no completions before the warm-up ends
    exact .moved rfl rfl rfl (Nat.sub_le _ _) rfl (fun _ hzero => absurd hzero htoken.ne')
      fun _ _ => ⟨rfl, rfl⟩
  | warm hdone =>
    refine .moved rfl rfl rfl le_rfl rfl (fun hcold => ?_) fun _ _ => ⟨rfl, rfl⟩
    rw [hdone] at hcold
    cases hcold
  | healthy hfail =>
    refine .moved rfl rfl rfl le_rfl rfl (fun _ _ hbefore => absurd hbefore (hafter rfl)) ?_
    intro hset
    rw [hfail] at hset
    cases hset
  | locks hmore =>
    refine .moved rfl rfl rfl le_rfl rfl (fun _ _ hbefore => absurd hbefore (hafter rfl)) ?_
    intro _ hpast
    rw [ht, Task.pastTest, decide_eq_false_iff_not] at hpast
    exact absurd hmore hpast
  | reads hread => exact .read hread (by rw [ht]; rfl) fun ⟨e, he⟩ => by rw [he]; rfl
  | unlocks =>
    refine .moved rfl rfl rfl le_rfl rfl (fun _ _ hbefore => absurd hbefore (hafter rfl)) ?_
    intro _ hpast
    rw [ht] at hpast
    exact ⟨hpast, rfl⟩
  | retries hnonblock =>
    -- the reader that tries again was past its test
    refine .moved rfl rfl rfl le_rfl rfl (fun _ _ hbefore => absurd hbefore (hafter rfl)) ?_
    intro _ hpast
    rw [ht, Task.pastTest, CharCall.goesOn, hnonblock] at hpast
    cases hpast
  | faults | copies =>
    refine .moved rfl rfl rfl le_rfl rfl (fun _ _ hbefore => absurd hbefore (hafter rfl)) ?_
    intro _ hpast
    rw [ht] at hpast
    cases hpast

/-- Every step of a task is one of the two kinds. -/
lemma taskStep_cases (h : d.step (.step t input) = some (o, d')) : TaskStep d t input o d' := by
  cases driverStep_cases h with
  | hwrng ht h => exact h.taskStep ht
  | char ht h => exact h.taskStep ht
  | ioctl ht h =>
    cases h with
    | locks | returns =>
      exact .moved rfl rfl rfl le_rfl rfl (fun _ _ _ => rfl) fun _ _ => ⟨rfl, rfl⟩

end

/-! ### Before the verdict -/

/-- Until the warm-up work takes its verdict, nobody has been let through. -/
def Driver.Early (d : Driver) : Prop :=
  d.warmup.early = true →
    d.warmupDone = false ∧ d.completions = 0 ∧ ∀ t, (d.tasks t).beforeTest = true

lemma infnoiseProbe_early (clockBuf usbBuf readBuf outBuf : ℕ → Byte) (multiplier : ℕ)
    (rawMode : Bool) :
    (infnoiseProbe clockBuf usbBuf readBuf outBuf multiplier rawMode).Early :=
  fun _ => ⟨rfl, rfl, fun _ => rfl⟩

/-- A new call starts before its test. -/
lemma Driver.Early.start {d : Driver} (hd : d.Early) (t : ℕ) {task : Task}
    (htask : task.beforeTest = true) : (d.setTask t task).Early := by
  intro hearly
  obtain ⟨hdone, hcompletions, htasks⟩ := hd hearly
  refine ⟨hdone, hcompletions, fun t' => ?_⟩
  simp only [setTask, Function.update_apply]
  split
  · exact htask
  · exact htasks t'

lemma TaskStep.early {d d' : Driver} {t : ℕ} {input : StepInput} {o : Output}
    (h : TaskStep d t input o d') (hd : d.Early) : d'.Early := by
  intro hw
  cases h with
  | moved hdev hwarmup hdone hcompletions htasks hearly hlate =>
    rw [hwarmup] at hw
    obtain ⟨hdone', hcompletions', htasks'⟩ := hd hw
    refine ⟨hdone.trans hdone', by omega, fun t' => ?_⟩
    rw [htasks, Function.update_apply]
    split
    · exact hearly hdone' hcompletions' (htasks' t)
    · exact htasks' t'
  | read hread hpast herror =>
    rw [Task.pastTest_of_beforeTest ((hd hw).2.2 t)] at hpast
    cases hpast

lemma WarmupStep.early {d d' : Driver} {scripts : ℕ → AttemptScript} {discard : ℕ → Byte}
    (h : WarmupStep d scripts discard d') (hd : d.Early) : d'.Early := by
  cases h with
  | locks hw | reads hw _ _ _ | stops hw _ =>
    have hearly : d.warmup.early = true := hw ▸ rfl
    exact fun _ => hd hearly
  | gone | fails | succeeds | completes =>
    intro hw
    cases hw

/-- A step is one of the warm-up work, or leaves the work where it is and changes the device only for
a reader that is past its test. -/
lemma step_cases {d d' : Driver} {a : Action} {o : Output} (h : d.step a = some (o, d')) :
    (∃ scripts discard, a = .warmup scripts discard ∧ WarmupStep d scripts discard d') ∨
      ((∀ scripts discard, a ≠ .warmup scripts discard) ∧ d'.warmup = d.warmup ∧
        (d'.dev = d.dev ∨ ∃ t, (d.tasks t).pastTest = true)) := by
  cases a with
  | warmup scripts discard => exact .inl ⟨scripts, discard, rfl, (warmupStep_cases h).2⟩
  | step t input =>
    right
    cases taskStep_cases h with
    | moved hdev hwarmup => exact ⟨nofun, hwarmup, .inl hdev⟩
    | read _ hpast => exact ⟨nofun, rfl, .inr ⟨t, hpast⟩⟩
  | hwrngRead | charRead | ioctlGet | ioctlSetRaw | setParameters =>
    right
    cases driverStep_cases h
    exact ⟨nofun, rfl, .inl rfl⟩

/-- Every step keeps it. -/
lemma step_early {d d' : Driver} {a : Action} {o : Output} (h : d.step a = some (o, d'))
    (hd : d.Early) : d'.Early := by
  cases a with
  | warmup => exact (warmupStep_cases h).2.early hd
  | step => exact (taskStep_cases h).early hd
  | hwrngRead t | charRead t | ioctlGet t =>
    cases driverStep_cases h
    exact hd.start t rfl
  | ioctlSetRaw | setParameters =>
    cases driverStep_cases h
    exact hd

/-! ### The flag of a failed health check -/

/-- Nothing clears the flag. -/
lemma infnoiseReadData_healthFail {dev : Device} {multiplier : ℕ} {scripts : ℕ → AttemptScript}
    {result : ℕ → Byte} {maxLen : ℕ} {raw : Bool} {r : ReadResult}
    (h : infnoiseReadData dev multiplier scripts result maxLen raw = some r)
    (hfail : dev.healthFail = true) : r.dev.healthFail = true := by
  cases infnoiseReadData_step h with
  | absent hpresent => exact hfail
  | squeezed hpresent hraw hleft =>
    rw [squeezeLeft_dev]
    exact hfail
  | failed hpresent htransfer | rejected hpresent htransfer hbad
  | rawBlock hpresent htransfer hgood hraw =>
    exact (infnoiseUsbTransfer_cases htransfer).1.healthFail_mono hfail
  | absorbed hpresent htransfer hgood hraw hleft =>
    rw [absorbAndSqueeze_dev, squeezeLeft_dev]
    exact (infnoiseUsbTransfer_cases htransfer).1.healthFail_mono hfail

/-- No step clears the flag. -/
lemma step_healthFail {d d' : Driver} {a : Action} {o : Output} (h : d.step a = some (o, d'))
    (hfail : d.dev.healthFail = true) : d'.dev.healthFail = true := by
  cases a with
  | warmup =>
    cases (warmupStep_cases h).2 with
    | reads _ _ _ hread => exact infnoiseReadData_healthFail hread hfail
    | fails => rfl
    | locks | stops | gone | succeeds | completes => exact hfail
  | step =>
    cases taskStep_cases h with
    | moved hdev =>
      rw [hdev]
      exact hfail
    | read hread => exact infnoiseReadData_healthFail hread hfail
  | hwrngRead | charRead | ioctlGet | ioctlSetRaw | setParameters =>
    cases driverStep_cases h
    exact hfail

/-! ### The device stays as it is plugged -/

lemma infnoiseReadData_present {dev : Device} {multiplier : ℕ} {scripts : ℕ → AttemptScript}
    {result : ℕ → Byte} {maxLen : ℕ} {raw : Bool} {r : ReadResult}
    (h : infnoiseReadData dev multiplier scripts result maxLen raw = some r) :
    r.dev.present = dev.present := by
  cases infnoiseReadData_step h with
  | absent => rfl
  | squeezed =>
    rw [squeezeLeft_dev]
  | failed _ htransfer | rejected _ htransfer | rawBlock _ htransfer =>
    exact (infnoiseUsbTransfer_cases htransfer).1.present_eq
  | absorbed _ htransfer =>
    rw [absorbAndSqueeze_dev, squeezeLeft_dev]
    exact (infnoiseUsbTransfer_cases htransfer).1.present_eq

lemma step_present {d d' : Driver} {a : Action} {o : Output} (h : d.step a = some (o, d')) :
    d'.dev.present = d.dev.present := by
  cases a with
  | warmup =>
    cases (warmupStep_cases h).2 with
    | reads _ _ _ hread => exact infnoiseReadData_present hread
    | locks | stops | gone | fails | succeeds | completes => rfl
  | step =>
    cases taskStep_cases h with
    | moved hdev => rw [hdev]
    | read hread => exact infnoiseReadData_present hread
  | hwrngRead | charRead | ioctlGet | ioctlSetRaw | setParameters =>
    cases driverStep_cases h
    rfl

end Kernel
