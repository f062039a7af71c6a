import Infnoise.Core.Ranking
import Infnoise.Kernel.Progress

/-!
# Calls come to an end

Every step of a call brings it closer to its return, except that a blocking read of the character
device that has read nothing tries again while the entropy is below the target. It looks for a
signal before it does. So a task makes only so many steps for the calls that it has made, whatever
the others do, and when nobody can go on every call has returned, or waits for a warm-up that is
over.
-/

namespace Kernel

open Core

attribute [local irreducible] infnoiseKeccakPermutation infnoiseKeccakAbsorb

/-! ### The steps that are left -/

/-- The most steps that `infnoise_hwrng_read` still makes. -/
def HwrngPc.stepsLeft : HwrngPc → ℕ
  | .entered => 8
  | .waiting => 7
  | .warmupTest => 6
  | .failTest => 5
  | .locking => 4
  | .locked => 3
  | .unlocking .. => 2
  | .returning .. => 1

/-- The most steps that `infnoise_char_read` still makes, if it does not try again: each round of
its loop takes four and copies a byte out at least. -/
def CharPc.stepsLeft (count : ℕ) : CharPc → ℕ
  | .entered => 4 * count + 4
  | .waiting => 4 * count + 3
  | .failTest => 4 * count + 2
  | .loop total => 4 * (count - total) + 1
  | .locked total => 4 * (count - total - 1) + 4
  | .unlocking total .. => 4 * (count - total - 1) + 3
  | .copying total .. => 4 * (count - total - 1) + 2

/-- The most steps that a task still makes in its call, if it does not try again. -/
def Task.stepsLeft : Task → ℕ
  | .idle => 0
  | .hwrng _ pc => pc.stepsLeft
  | .char call pc => pc.stepsLeft call.count
  | .ioctl locked => if locked then 1 else 2

/-- Those of the warm-up work. -/
def WarmupPc.stepsLeft : WarmupPc → ℕ
  | .scheduled => infnoiseWarmupRounds + 4
  | .running rounds => infnoiseWarmupRounds - rounds + 3
  | .checking _ => 2
  | .completing => 1
  | .finished => 0

/-- Those of the disconnect. -/
def DisconnectPc.stepsLeft : DisconnectPc → ℕ
  | .plugged => 6
  | .absent => 5
  | .completed => 4
  | .cancelled => 3
  | .unregistered => 2
  | .deregistered => 1
  | .freed => 0

/-- A blocking read that has read nothing tries again, as no signal is pending. -/
def Task.triesAgain (input : StepInput) : Task → Bool
  | .char call (.copying 0 (.ok 0) _) => !call.nonblock && !input.signal
  | _ => false

/-- What an action costs a task: a call that begins, or a round more of its loop. -/
def Action.cost (tasks : ℕ → Task) (t : ℕ) : Action → ℕ
  | .charRead t' count _ => if t' = t then 4 * count + 4 else 0
  | .hwrngRead t' .. => if t' = t then 8 else 0
  | .ioctlGet t' => if t' = t then 2 else 0
  | .step t' input => if t' = t ∧ (tasks t').triesAgain input = true then 4 else 0
  | _ => 0

/-- Whether an action is a step of the task in its call. -/
def Action.stepsIn (t : ℕ) : Action → Bool
  | .step t' _ => decide (t' = t)
  | _ => false

def Action.isWarmup : Action → Bool
  | .warmup .. => true
  | _ => false

/-- The action of the driver that an action of a session is. -/
def SessionAction.onDriver : SessionAction → Option Action
  | .charRead _ task count nonblock => some (.charRead task count nonblock)
  | .ioctlSetRaw _ raw => some (.ioctlSetRaw raw)
  | .ioctlGet _ task => some (.ioctlGet task)
  | .hwrngRead task max wait => some (.hwrngRead task max wait)
  | .setParameters multiplier rawMode => some (.setParameters multiplier rawMode)
  | .step task input => some (.step task input)
  | .warmup scripts discard => some (.warmup scripts discard)
  | .openFile _ | .releaseFile _ | .disconnect => none

def SessionAction.isDisconnect : SessionAction → Bool
  | .disconnect => true
  | _ => false

/-- What a step of a session costs a task. -/
def SessionRecord.cost (t : ℕ) (c : SessionRecord) : ℕ :=
  (c.input.onDriver.map (Action.cost c.before.driver.tasks t)).getD 0

/-- Whether it is a step of the task in its call. -/
def SessionRecord.stepsIn (t : ℕ) (c : SessionRecord) : Bool :=
  c.input.onDriver.any (Action.stepsIn t)

/-- Whether it is one of the warm-up work. -/
def SessionRecord.isWarmup (c : SessionRecord) : Bool :=
  c.input.onDriver.any Action.isWarmup

/-! ### What a step does to them -/

section

variable {d d' : Driver} {t : ℕ} {input : StepInput} {o : Output}

lemma HwrngStep.stepsLeft {call : HwrngCall} {pc : HwrngPc} (h : HwrngStep d t input call pc o d') :
    (d'.tasks t).stepsLeft < pc.stepsLeft := by
  cases h <;> simp [Task.stepsLeft, HwrngPc.stepsLeft]

lemma CharStep.stepsLeft {call : CharCall} {pc : CharPc} (h : CharStep d t input call pc o d') :
    (d'.tasks t).stepsLeft < pc.stepsLeft call.count +
      if (Task.char call pc).triesAgain input = true then 4 else 0 := by
  cases h with
  | @retries data hnonblock hsignal =>
    have hagain : (Task.char call (.copying 0 (.ok 0) data)).triesAgain input = true := by
      simp [Task.triesAgain, hnonblock, hsignal]
    rw [if_pos hagain]
    simp only [Driver.setTask_tasks, Task.stepsLeft, CharPc.stepsLeft]
    omega
  | _ =>
    refine Nat.lt_add_right _ ?_
    simp only [Driver.setTask_tasks, Task.stepsLeft, CharPc.stepsLeft]
    omega

/-- A step of a task in its call leaves less, and the others as they are. -/
lemma taskStep_stepsLeft (h : d.step (.step t input) = some (o, d')) :
    (d'.tasks t).stepsLeft < (d.tasks t).stepsLeft +
      if (d.tasks t).triesAgain input = true then 4 else 0 := by
  cases driverStep_cases h with
  | hwrng ht h =>
    rw [ht]
    exact Nat.lt_add_right _ h.stepsLeft
  | char ht h =>
    rw [ht]
    exact h.stepsLeft
  | ioctl ht h =>
    rw [ht]
    refine Nat.lt_add_right _ ?_
    cases h <;> simp [Task.stepsLeft]

/-- A step of the driver that is one of a task in its call lowers the steps left to it. No other
step raises them by more than it costs the task. -/
lemma step_stepsLeft {a : Action} (h : d.step a = some (o, d')) (t : ℕ) :
    (a.stepsIn t).toNat + (d'.tasks t).stepsLeft ≤ (d.tasks t).stepsLeft + a.cost d.tasks t := by
  have hstarts : ∀ (t' n : ℕ) (task : Task), task.stepsLeft = n → d.tasks t' = .idle →
      ((d.setTask t' task).tasks t).stepsLeft ≤
        (d.tasks t).stepsLeft + if t' = t then n else 0 := by
    rintro t' n task rfl hidle
    by_cases ht : t' = t
    · subst ht
      simp [hidle, Task.stepsLeft]
    · rw [Driver.setTask_tasks_of_ne d (Ne.symm ht), if_neg ht]
      exact le_rfl
  cases a with
  | step t' input =>
    by_cases ht : t' = t
    · subst ht
      have hstep := taskStep_stepsLeft h
      simp only [Action.stepsIn, Action.cost, decide_true, Bool.toNat_true, true_and]
      omega
    · obtain ⟨_, task, hmove⟩ := step_moves h
      rw [hmove.tasks_eq, Function.update_of_ne (Ne.symm ht)]
      simp [Action.stepsIn, ht]
  | hwrngRead t' | charRead t' | ioctlGet t' =>
    cases driverStep_cases h
    rename_i hidle
    simp only [Action.stepsIn, Bool.toNat_false, Nat.zero_add]
    exact hstarts t' _ _ rfl hidle
  | warmup => cases (warmupStep_cases h).2 <;> exact (Nat.zero_add _).le
  | ioctlSetRaw | setParameters =>
    cases driverStep_cases h
    exact (Nat.zero_add _).le

lemma WarmupStep.stepsLeft {scripts : ℕ → AttemptScript} {discard : ℕ → Byte}
    (h : WarmupStep d scripts discard d') : d'.warmup.stepsLeft < d.warmup.stepsLeft := by
  cases h with
  | locks hw | reads hw _ hrounds | stops hw | gone hw | fails hw | succeeds hw | completes hw =>
    rw [hw]
    simp only [WarmupPc.stepsLeft]
    omega

/-- A step of the warm-up work leaves less of it, and no other step changes that. -/
lemma step_warmupLeft {a : Action} (h : d.step a = some (o, d')) :
    a.isWarmup.toNat + d'.warmup.stepsLeft ≤ d.warmup.stepsLeft := by
  rcases step_cases h with ⟨scripts, discard, rfl, hw⟩ | ⟨hne, hw, _⟩
  · have hleft := hw.stepsLeft
    simp only [Action.isWarmup, Bool.toNat_true]
    omega
  · have hfalse : a.isWarmup = false := by
      cases a with
      | warmup scripts discard => exact absurd rfl (hne scripts discard)
      | _ => rfl
    rw [hfalse, hw]
    exact (Nat.zero_add _).le

end

section

variable {s s' : Session} {o : Output}

/-- A step of the disconnect leaves less of it, and the tasks and the work as they are. -/
lemma infnoiseDisconnect_stepsLeft (h : s.infnoiseDisconnect = some (o, s')) :
    s'.disconnect.stepsLeft < s.disconnect.stepsLeft ∧ s'.driver.tasks = s.driver.tasks ∧
      s'.driver.warmup = s.driver.warmup := by
  rw [Session.infnoiseDisconnect] at h
  rcases hpc : s.disconnect with _ | _ | _ | _ | _ | _ | _ <;> simp only [hpc] at h
  · cases h
    exact ⟨by simp [DisconnectPc.stepsLeft], rfl, rfl⟩
  · cases h
    exact ⟨by simp [DisconnectPc.stepsLeft], rfl, rfl⟩
  · split at h <;> cases h
    all_goals exact ⟨by simp [DisconnectPc.stepsLeft], rfl, rfl⟩
  · split_ifs at h
    cases h
    exact ⟨by simp [DisconnectPc.stepsLeft], rfl, rfl⟩
  · cases h
    exact ⟨by simp [DisconnectPc.stepsLeft], rfl, rfl⟩
  · cases h
    exact ⟨by simp [DisconnectPc.stepsLeft], rfl, rfl⟩
  · cases h

/-- A step of a session is a step of the driver, with as many completions as there are, or leaves
the tasks and the work as they are. -/
lemma Session.step_cases {a : SessionAction} (h : s.step a = some (o, s')) :
    (∃ (act : Action) (n n' : ℕ) (d' : Driver), a.onDriver = some act ∧
      ({ s.driver with completions := n } : Driver).step act = some (o, d') ∧
      s'.driver = { d' with completions := n' } ∧ s'.disconnect = s.disconnect) ∨
    a.onDriver = none ∧ s'.driver.tasks = s.driver.tasks ∧ s'.driver.warmup = s.driver.warmup ∧
      a.isDisconnect.toNat + s'.disconnect.stepsLeft ≤ s.disconnect.stepsLeft := by
  have hdriver : ∀ {s₀ s₁ : Session} {act : Action}, s₀.onDriver act = some (o, s₁) →
      a.onDriver = some act → s₀.driver = s.driver → s₀.disconnect = s.disconnect →
      s'.driver = s₁.driver → s'.disconnect = s₁.disconnect →
      ∃ (act : Action) (n n' : ℕ) (d' : Driver), a.onDriver = some act ∧
        ({ s.driver with completions := n } : Driver).step act = some (o, d') ∧
        s'.driver = { d' with completions := n' } ∧ s'.disconnect = s.disconnect := by
    intro s₀ s₁ act hact ha hd hdisconnect hd' hdisconnect'
    obtain ⟨n, n', d', hstep, rfl, _⟩ := Session.onDriver_cases hact
    exact ⟨act, n, n', d', ha, hd ▸ hstep, hd', hdisconnect'.trans hdisconnect⟩
  rw [Session.step.eq_def] at h
  cases a with
  | openFile file =>
    dsimp only at h
    rw [Session.infnoiseOpen] at h
    split_ifs at h <;> cases h <;> exact .inr ⟨rfl, rfl, rfl, (Nat.zero_add _).le⟩
  | releaseFile file =>
    dsimp only at h
    rw [Session.infnoiseRelease] at h
    split_ifs at h
    cases h
    exact .inr ⟨rfl, rfl, rfl, (Nat.zero_add _).le⟩
  | charRead | ioctlGet | hwrngRead =>
    dsimp only at h
    split_ifs at h
    rw [Session.startCall] at h
    exact .inl (hdriver h rfl rfl rfl rfl rfl)
  | ioctlSetRaw | warmup =>
    dsimp only at h
    split_ifs at h
    exact .inl (hdriver h rfl rfl rfl rfl rfl)
  | setParameters => exact .inl (hdriver h rfl rfl rfl rfl rfl)
  | step t input =>
    obtain ⟨⟨o', s₁⟩, hcall, heq⟩ := Option.map_eq_some_iff.mp h
    obtain ⟨rfl, rfl⟩ := Prod.mk.inj heq
    obtain ⟨calls, hcalls⟩ := s₁.endCall_eq t o'
    exact .inl (hdriver hcall rfl rfl rfl (by rw [hcalls]) (by rw [hcalls]))
  | disconnect =>
    obtain ⟨hlt, htasks, hwarmup⟩ := infnoiseDisconnect_stepsLeft h
    exact .inr ⟨rfl, htasks, hwarmup, (Nat.one_add _).symm ▸ hlt⟩

end

section

variable {c : SessionRecord}

lemma SessionRecord.task_stepsLeft (h : c.before.step c.input = some (c.output, c.after)) (t : ℕ) :
    (c.stepsIn t).toNat + (c.after.driver.tasks t).stepsLeft ≤
      (c.before.driver.tasks t).stepsLeft + c.cost t := by
  rcases Session.step_cases h with ⟨act, n, n', d', hact, hstep, hd, _⟩ | ⟨hnone, htasks, _, _⟩
  · have hleft := step_stepsLeft hstep t
    simp only [SessionRecord.stepsIn, SessionRecord.cost, hact, hd, Option.any_some,
      Option.map_some, Option.getD_some]
    exact hleft
  · simp [SessionRecord.stepsIn, SessionRecord.cost, hnone, htasks]

lemma SessionRecord.warmup_stepsLeft (h : c.before.step c.input = some (c.output, c.after)) :
    c.isWarmup.toNat + c.after.driver.warmup.stepsLeft ≤ c.before.driver.warmup.stepsLeft := by
  rcases Session.step_cases h with ⟨act, n, n', d', hact, hstep, hd, _⟩ | ⟨hnone, _, hwarmup, _⟩
  · have hleft := step_warmupLeft hstep
    simp only [SessionRecord.isWarmup, hact, hd, Option.any_some]
    exact hleft
  · simp [SessionRecord.isWarmup, hnone, hwarmup]

lemma SessionRecord.disconnect_stepsLeft (h : c.before.step c.input = some (c.output, c.after)) :
    c.input.isDisconnect.toNat + c.after.disconnect.stepsLeft ≤
      c.before.disconnect.stepsLeft := by
  rcases Session.step_cases h with ⟨act, _, _, _, hact, _, _, hdisconnect⟩ | ⟨_, _, _, hleft⟩
  · have hfalse : c.input.isDisconnect = false := by
      rcases hinput : c.input with _ | _ | _ | _ | _ | _ | _ | _ | _ | _
      case disconnect =>
        rw [hinput] at hact
        cases hact
      all_goals rfl
    rw [hfalse, hdisconnect]
    exact (Nat.zero_add _).le
  · exact hleft

end

/-- Calls come to an end. In every run of a session from its probe on in which no recovery reaches
`usb_reset_device`, a task makes no more steps than its calls cost it, the warm-up work and the
disconnect no more than they have; and where no party can make a step, every call has returned, or
waits for a warm-up that is over, and the disconnect is over or can go on. -/
theorem calls_end {clockBuf usbBuf readBuf outBuf : ℕ → Byte} {multiplier : ℕ}
    {rawMode hwrngReg : Bool} {s : Session} {cs : List SessionRecord}
    (h : Run Session.step (.probe
      (infnoiseProbe clockBuf usbBuf readBuf outBuf multiplier rawMode) hwrngReg) cs s)
    (hreset : ∀ c ∈ cs, c.input.WithoutReset) :
    (∀ t, cs.countP (SessionRecord.stepsIn t) ≤ (cs.map (SessionRecord.cost t)).sum) ∧
    cs.countP SessionRecord.isWarmup ≤ infnoiseWarmupRounds + 4 ∧
    cs.countP (fun c => c.input.isDisconnect) ≤ 6 ∧
    ((∀ p, ¬ s.CanMove p) →
      (∀ t, s.driver.tasks t = .idle ∨ (s.driver.tasks t).isWaiting = true ∧ s.tokens = 0 ∧
        s.driver.warmup = .finished) ∧
      (s.disconnect = .freed ∨ ∃ r, s.step .disconnect = some r)) := by
  have hfree : (cs.map fun _ => 0).sum = 0 := by simp
  refine ⟨fun t => ?_, ?_, ?_, fun hrest => ?_⟩
  · have hcount := Run.countP_add_le (fun s => (s.driver.tasks t).stepsLeft)
      (SessionRecord.stepsIn t) (SessionRecord.cost t) h
      fun c hc => SessionRecord.task_stepsLeft (h.step_of_mem hc) t
    have hidle : ((Session.probe (infnoiseProbe clockBuf usbBuf readBuf outBuf multiplier rawMode)
      hwrngReg).driver.tasks t).stepsLeft = 0 := rfl
    rw [hidle] at hcount
    omega
  · have hcount := Run.countP_add_le (fun s => s.driver.warmup.stepsLeft) SessionRecord.isWarmup
      (fun _ => 0) h fun c hc => SessionRecord.warmup_stepsLeft (h.step_of_mem hc)
    have hscheduled : (Session.probe (infnoiseProbe clockBuf usbBuf readBuf outBuf multiplier
      rawMode) hwrngReg).driver.warmup.stepsLeft = infnoiseWarmupRounds + 4 := rfl
    rw [hscheduled, hfree] at hcount
    omega
  · have hcount := Run.countP_add_le (fun s => s.disconnect.stepsLeft)
      (fun c => c.input.isDisconnect) (fun _ => 0) h
      fun c hc => SessionRecord.disconnect_stepsLeft (h.step_of_mem hc)
    have hplugged : (Session.probe (infnoiseProbe clockBuf usbBuf readBuf outBuf multiplier
      rawMode) hwrngReg).disconnect.stepsLeft = 6 := rfl
    rw [hplugged, hfree] at hcount
    exact (Nat.le_add_right _ _).trans hcount
  · have hs : s.Orderly :=
      (h.invariant_of (fun _ hstep _ hI => step_orderly hI hstep) hreset (probe_orderly ..)).2
    -- nobody waits for the holder of the lock, who could go on
    have hstuck : ∀ p, ¬ s.GoesOn p := by
      rintro p (hmoves | ⟨_, q, _, hmoves⟩)
      · exact hrest p hmoves
      · exact hrest q hmoves
    constructor
    · intro t
      by_cases hidle : s.driver.tasks t = .idle
      · exact .inl hidle
      · obtain ⟨hwaiting, htokens⟩ :=
          (hs.goesOn_task (Task.kind_ne_idle hidle)).resolve_left (hstuck _)
        refine .inr ⟨hwaiting, htokens, ?_⟩
        by_contra hw
        exact hstuck _ (hs.goesOn_warmup hw (hs.warmupQueued_of_tokens htokens))
    · by_cases hfreed : s.disconnect = .freed
      · exact .inl hfreed
      · rcases hs.disconnect_goesOn hfreed with hstep | ⟨_, hmoves⟩ | ⟨_, t, _, hgoes⟩
        · exact .inr hstep
        · exact absurd hmoves (hrest _)
        · exact absurd hgoes (hstuck _)

/-- Nobody can make a step when no call is under way and the warm-up work has returned. -/
lemma Session.not_canMove {s : Session} (hfinished : s.driver.warmup = .finished)
    (hidle : ∀ t, s.driver.tasks t = .idle) (p : Party) : ¬ s.CanMove p := by
  intro hmoves
  cases p with
  | warmup =>
    obtain ⟨⟨o, s'⟩, hstep⟩ := hmoves StepInput.quiet.scripts StepInput.quiet.buffer fun _ => rfl
    rcases Session.step_cases hstep with ⟨act, n, n', d', hact, hdriver, _⟩ | ⟨hnone, _⟩
    · cases hact
      have hleft := (warmupStep_cases hdriver).2.stepsLeft
      dsimp only at hleft
      rw [hfinished] at hleft
      exact absurd hleft (Nat.not_lt_zero _)
    · cases hnone
  | task t =>
    obtain ⟨⟨o, s'⟩, hstep⟩ := hmoves .quiet rfl fun _ => rfl
    rcases Session.step_cases hstep with ⟨act, n, n', d', hact, hdriver, _⟩ | ⟨hnone, _⟩
    · cases hact
      exact (step_moves hdriver).1 (congrArg Task.kind (hidle t))
    · cases hnone

/-- An ioctl, then the device is unplugged before its warm-up. The work returns, and no party can
make a step. -/
theorem calls_end_unplugged : ∃ (cs : List SessionRecord) (s : Session),
    Run Session.step (.probe probed true) cs s ∧
      cs.countP (SessionRecord.stepsIn 5) = 2 ∧ (cs.map (SessionRecord.cost 5)).sum = 2 ∧
      (∀ p, ¬ s.CanMove p) ∧ (∀ t, s.driver.tasks t = .idle ∨
        (s.driver.tasks t).isWaiting = true ∧ s.tokens = 0 ∧ s.driver.warmup = .finished) := by
  have hopen : (Session.probe probed true).step (.openFile 0) = some (_, _) := rfl
  have hrun := Run.cons hopen <| .cons (i := .ioctlGet 0 5) rfl <|
    .cons (i := .step 5 .quiet) rfl <| .cons (i := .step 5 .quiet) rfl <|
    .cons (i := .disconnect) rfl <| .cons (i := .warmup StepInput.quiet.scripts fun _ => 0) rfl <|
    .cons (i := .warmup StepInput.quiet.scripts fun _ => 0) rfl <|
    .cons (i := .warmup StepInput.quiet.scripts fun _ => 0) rfl <| .nil _
  have hidle : ∀ t, Function.update (Function.update (Function.update (fun _ => Task.idle) 5
      (.ioctl false)) 5 (.ioctl true)) 5 .idle t = Task.idle := by
    intro t
    by_cases ht : t = 5
    · subst ht
      rfl
    · simp only [Function.update_of_ne ht]
  refine ⟨_, _, hrun, rfl, rfl, Session.not_canMove rfl hidle,
    ((calls_end hrun ?_).2.2.2 (Session.not_canMove rfl hidle)).1⟩
  refine withoutReset_of_inputs [.openFile 0, .ioctlGet 0 5, .step 5 .quiet, .step 5 .quiet,
    .disconnect, .warmup StepInput.quiet.scripts fun _ => 0,
    .warmup StepInput.quiet.scripts fun _ => 0, .warmup StepInput.quiet.scripts fun _ => 0] rfl ?_
  simp only [List.forall_mem_cons]
  exact ⟨trivial, trivial, fun _ => rfl, fun _ => rfl, trivial, fun _ => rfl, fun _ => rfl,
    fun _ => rfl, List.forall_mem_nil _⟩

end Kernel
