import Infnoise.Kernel.Completion
import Infnoise.Kernel.Lifetime
import Infnoise.Kernel.Locking

/-!
# No deadlock

A task waits for the lock or for the warm-up, and the disconnect waits for the warm-up work and for
the calls of the hwrng core. Whoever holds the lock can go on, so those that wait for it wait for
somebody who can move. The warm-up work that has returned is the only thing a reader can wait for in
vain.

All this is about sessions in which no recovery reaches `usb_reset_device`. The driver has neither
`pre_reset` nor `post_reset`, so the USB core unbinds it in that call: `infnoise_disconnect` then
runs in the party that holds the lock, and can wait for this very party.
-/

namespace Kernel

open Core

attribute [local irreducible] infnoiseKeccakPermutation infnoiseKeccakAbsorb

/-- Whether the next step of a task is to take the lock. -/
def Task.wantsLock : Task → Bool
  | .hwrng _ .locking => true
  | .char call (.loop total) => decide (total < call.count)
  | .ioctl locked => !locked
  | _ => false

lemma Task.kind_ne_idle {task : Task} (h : task ≠ .idle) : task.kind ≠ .idle := by
  cases task with
  | idle => exact absurd rfl h
  | hwrng | char | ioctl => nofun

/-- The device carries out the configuration with which `infnoise_try_recovery` begins, so a recovery
after this attempt does not go on to `usb_reset_device`. -/
def AttemptScript.WithoutReset (script : AttemptScript) : Prop :=
  (infnoiseConfigureFtdi script.recovery.configure).2 = none

/-- No recovery in the step reaches `usb_reset_device`. -/
def SessionAction.WithoutReset : SessionAction → Prop
  | .step _ input => ∀ i, (input.scripts i).WithoutReset
  | .warmup scripts _ => ∀ i, (scripts i).WithoutReset
  | _ => True

lemma withoutReset_of_inputs {cs : List SessionRecord} (inputs : List SessionAction)
    (hinputs : cs.map Call.input = inputs) (h : ∀ a ∈ inputs, a.WithoutReset) :
    ∀ c ∈ cs, c.input.WithoutReset := by
  subst hinputs
  exact List.forall_mem_map.mp h

/-- A party can make a step, whatever else the device answers, when no signal is pending. -/
def Session.CanMove (s : Session) : Party → Prop
  | .warmup => ∀ scripts discard, (SessionAction.warmup scripts discard).WithoutReset →
      ∃ r, s.step (.warmup scripts discard) = some r
  | .task t => ∀ input : StepInput, input.signal = false →
      (SessionAction.step t input).WithoutReset → ∃ r, s.step (.step t input) = some r

/-- Whether the next step of a party is to take the lock. -/
def Driver.wantsLock (d : Driver) : Party → Bool
  | .warmup =>
    match d.warmup with
    | .scheduled => true
    | _ => false
  | .task t => (d.tasks t).wantsLock

/-- A party can make a step, or waits for the lock, and whoever holds it can. -/
def Session.GoesOn (s : Session) (p : Party) : Prop :=
  s.CanMove p ∨
    s.driver.wantsLock p = true ∧ ∃ q, s.driver.inSection q = true ∧ s.CanMove q

/-! ### Steps that can be made -/

section

variable {d : Driver} {t : ℕ} {input : StepInput}

lemma HwrngStep.exists_of_ready (hinv : d.dev.health.Inv) (hsignal : input.signal = false)
    (call : HwrngCall) (pc : HwrngPc) (hlock : pc = .locking → d.locked = false)
    (hwait : pc = .waiting → 0 < d.completions) : ∃ o d', HwrngStep d t input call pc o d' := by
  cases pc with
  | entered =>
    by_cases hpresent : d.dev.present = true
    · by_cases hgo : call.wait = false ∨ d.warmupDone = true
      · exact ⟨_, _, .enters hpresent hgo⟩
      · simp only [not_or, Bool.not_eq_false, Bool.not_eq_true] at hgo
        exact ⟨_, _, .waits hpresent hgo.1 hgo.2⟩
    · exact ⟨_, _, .absent (by simpa using hpresent)⟩
  | waiting => exact ⟨_, _, .woken hsignal (hwait rfl)⟩
  | warmupTest =>
    rcases hdone : d.warmupDone with _ | _
    · exact ⟨_, _, .cold hdone⟩
    · exact ⟨_, _, .warm hdone⟩
  | failTest =>
    rcases hfail : d.dev.healthFail with _ | _
    · exact ⟨_, _, .healthy hfail⟩
    · exact ⟨_, _, .failed hfail⟩
  | locking => exact ⟨_, _, .locks (hlock rfl)⟩
  | locked =>
    obtain ⟨r, hread⟩ := infnoiseReadData_returns hinv d.multiplier input.scripts input.buffer
      call.max call.raw
    exact ⟨_, _, .reads hread⟩
  | unlocking ret data => exact ⟨_, _, .unlocks⟩
  | returning ret data => exact ⟨_, _, .returns⟩

lemma CharStep.exists_of_ready (hinv : d.dev.health.Inv) (hsignal : input.signal = false)
    (call : CharCall) (pc : CharPc)
    (hlock : ∀ total, pc = .loop total → total < call.count → d.locked = false)
    (hwait : pc = .waiting → 0 < d.completions) : ∃ o d', CharStep d t input call pc o d' := by
  cases pc with
  | entered =>
    rcases hdone : d.warmupDone with _ | _
    · rcases hnonblock : call.nonblock with _ | _
      · exact ⟨_, _, .waits hdone hnonblock⟩
      · exact ⟨_, _, .cold hdone hnonblock⟩
    · exact ⟨_, _, .warm hdone⟩
  | waiting => exact ⟨_, _, .woken hsignal (hwait rfl)⟩
  | failTest =>
    rcases hfail : d.dev.healthFail with _ | _
    · exact ⟨_, _, .healthy hfail⟩
    · exact ⟨_, _, .failed hfail⟩
  | loop total =>
    by_cases hmore : total < call.count
    · exact ⟨_, _, .locks hmore (hlock total rfl hmore)⟩
    · exact ⟨_, _, .ends (not_lt.mp hmore)⟩
  | locked total =>
    obtain ⟨r, hread⟩ := infnoiseReadData_returns hinv d.multiplier input.scripts input.buffer
      (min (call.count - total) 128) (d.infnoiseRawMode || d.rawMode)
    exact ⟨_, _, .reads hread⟩
  | unlocking total ret data => exact ⟨_, _, .unlocks⟩
  | copying total ret data =>
    rcases ret with e | _ | n
    · exact ⟨_, _, .error⟩
    · rcases Nat.eq_zero_or_pos total with rfl | htotal
      · rcases hnonblock : call.nonblock with _ | _
        · exact ⟨_, _, .retries hnonblock hsignal⟩
        · exact ⟨_, _, .again hnonblock⟩
      · exact ⟨_, _, .dry htotal⟩
    · rcases lt_or_ge input.copied (n + 1) with hcopied | hcopied
      · exact ⟨_, _, .faults hcopied⟩
      · exact ⟨_, _, .copies hcopied⟩

/-- A task that is in a call can make a step when the lock is free for it and a completion is there
for it. -/
lemma exists_step (hinv : d.dev.health.Inv) (hsignal : input.signal = false)
    (hne : (d.tasks t).kind ≠ .idle) (hlock : (d.tasks t).wantsLock = true → d.locked = false)
    (hwait : (d.tasks t).isWaiting = true → 0 < d.completions) :
    ∃ r, d.step (.step t input) = some r := by
  rcases ht : d.tasks t with _ | ⟨call, pc⟩ | ⟨call, pc⟩ | locked
  · exact absurd (congrArg Task.kind ht) hne
  · rw [ht] at hlock hwait
    obtain ⟨o, d', hstep⟩ := HwrngStep.exists_of_ready (t := t) hinv hsignal call pc
      (by rintro rfl; exact hlock rfl) (by rintro rfl; exact hwait rfl)
    exact ⟨_, step_of_hwrngStep ht hstep⟩
  · rw [ht] at hlock hwait
    obtain ⟨o, d', hstep⟩ := CharStep.exists_of_ready (t := t) hinv hsignal call pc
      (by rintro total rfl hmore; exact hlock (by simpa [Task.wantsLock] using hmore))
      (by rintro rfl; exact hwait rfl)
    exact ⟨_, step_of_charStep ht hstep⟩
  · rw [Driver.step, ht]
    cases locked with
    | false =>
      rw [ht] at hlock
      exact ⟨_, lock_eq_some_iff.mpr ⟨hlock rfl, rfl⟩⟩
    | true => exact ⟨_, rfl⟩

/-- So can the warm-up work until it has returned. -/
lemma exists_warmupStep (hinv : d.dev.health.Inv) (hne : d.warmup ≠ .finished)
    (hlock : d.warmup = .scheduled → d.locked = false) (scripts : ℕ → AttemptScript)
    (discard : ℕ → Byte) : ∃ r, d.step (.warmup scripts discard) = some r := by
  rw [Driver.step, Driver.warmupStep]
  rcases hw : d.warmup with _ | rounds | rounds | _ | _
  · simp [hlock hw]
  · obtain ⟨r, hread⟩ := infnoiseReadData_returns hinv d.multiplier scripts discard 64 true
    dsimp only
    split_ifs
    · exact ⟨_, by rw [hread]; rfl⟩
    · exact ⟨_, rfl⟩
  · dsimp only
    split_ifs <;> exact ⟨_, rfl⟩
  · exact ⟨_, rfl⟩
  · exact absurd hw hne

end

/-! ### What holds in a session -/

/-- Whether `cancel_work_sync` has returned. -/
def DisconnectPc.cancelledYet : DisconnectPc → Bool
  | .cancelled | .unregistered | .deregistered | .freed => true
  | _ => false

/-- What holds in a session: the lock is kept, the health checker is sound, every call on the list is
one that a task is in, `complete_all` has been called before the work is cancelled, and work that is
cancelled is not under way. -/
structure Session.Orderly (s : Session) : Prop where
  lock : s.driver.LockKept
  health : s.driver.dev.health.Inv
  calls : ∀ call ∈ s.calls, (s.driver.tasks call.1).kind ≠ .idle
  completed : s.disconnect ≠ .plugged → s.disconnect ≠ .absent → s.completedAll = true
  cancelled : s.disconnect.cancelledYet = true →
    s.driver.warmup = .scheduled ∨ s.driver.warmup = .finished

lemma infnoiseReadData_healthInv {dev : Device} {multiplier : ℕ} {scripts : ℕ → AttemptScript}
    {result : ℕ → Byte} {maxLen : ℕ} {raw : Bool} {r : ReadResult} (hinv : dev.health.Inv)
    (h : infnoiseReadData dev multiplier scripts result maxLen raw = some r) : r.dev.health.Inv := by
  have hkept : ∀ {ret dev'}, infnoiseUsbTransfer dev scripts = some (ret, dev') →
      dev'.health.Inv := by
    intro ret dev' htransfer
    obtain ⟨ret', dev'', hreturns, hinv'⟩ := infnoiseUsbTransfer_returns hinv scripts
    obtain ⟨_, rfl⟩ := Prod.mk.inj (Option.some.inj (htransfer.symm.trans hreturns))
    exact hinv'
  cases infnoiseReadData_step h with
  | absent => exact hinv
  | squeezed =>
    rw [squeezeLeft_dev]
    exact hinv
  | failed _ htransfer | rejected _ htransfer | rawBlock _ htransfer =>
    have hinv' := hkept htransfer
    exact hinv'
  | absorbed _ htransfer =>
    have hinv' := hkept htransfer
    rw [absorbAndSqueeze_dev, squeezeLeft_dev]
    exact hinv'

lemma step_healthInv {d d' : Driver} {a : Action} {o : Output} (h : d.step a = some (o, d'))
    (hinv : d.dev.health.Inv) : d'.dev.health.Inv := by
  cases a with
  | warmup =>
    cases (warmupStep_cases h).2 with
    | reads _ _ _ hread => exact infnoiseReadData_healthInv hinv hread
    | locks | stops | gone | fails | succeeds | completes => exact hinv
  | step =>
    cases taskStep_cases h with
    | moved hdev =>
      rw [hdev]
      exact hinv
    | read hread => exact infnoiseReadData_healthInv hinv hread
  | hwrngRead | charRead | ioctlGet | ioctlSetRaw | setParameters =>
    cases driverStep_cases h
    exact hinv

section

variable {s s' : Session} {o : Output}

/-- A step of the driver keeps it, when the calls that are then on the list are under way. -/
lemma Session.Orderly.stepped (hs : s.Orderly) {a : Action} {n n' : ℕ} {d' : Driver}
    {calls : List (ℕ × Caller)}
    (hstep : ({ s.driver with completions := n } : Driver).step a = some (o, d'))
    (hqueued : ∀ scripts discard, a = .warmup scripts discard → s.disconnect.cancelledYet = false)
    (hcalls : ∀ call ∈ calls, (d'.tasks call.1).kind ≠ .idle) :
    ({ s with driver := { d' with completions := n' }, calls } : Session).Orderly := by
  have hhealth : d'.dev.health.Inv := step_healthInv hstep hs.health
  refine ⟨?_, hhealth, hcalls, hs.completed, fun hyet => ?_⟩
  · have hmove := step_lockMove (c := ⟨{ s.driver with completions := n }, a, o, d'⟩) hstep
    have hkept : ({ s.driver with completions := n } : Driver).LockKept := hs.lock
    exact hkept.step hmove.lock
  · rcases step_cases hstep with ⟨scripts, discard, rfl, _⟩ | ⟨_, hwarmup, _⟩
    · rw [hqueued scripts discard rfl] at hyet
      cases hyet
    · dsimp only
      rw [hwarmup]
      exact hs.cancelled hyet

/-- A step of the driver that ends no call. -/
lemma Session.Orderly.onDriver (hs : s.Orderly) {a : Action} (h : s.onDriver a = some (o, s'))
    (hqueued : ∀ scripts discard, a = .warmup scripts discard → s.disconnect.cancelledYet = false)
    (hkinds : ∀ d d' : Driver, d.step a = some (o, d') → ∀ t, (d.tasks t).kind ≠ .idle →
      (d'.tasks t).kind ≠ .idle) : s'.Orderly := by
  obtain ⟨n, n', d', hstep, rfl, _⟩ := Session.onDriver_cases h
  exact hs.stepped hstep hqueued fun call hcall => hkinds _ _ hstep _ (hs.calls call hcall)

/-- A call begins. -/
lemma Session.Orderly.startCall {t : ℕ} {caller : Caller} {a : Action} (hs : s.Orderly)
    (h : s.startCall t caller a = some (o, s'))
    (hqueued : ∀ scripts discard, a ≠ .warmup scripts discard)
    (hstarts : ∀ d d' : Driver, d.step a = some (o, d') → ∃ task : Task,
      d'.tasks = Function.update d.tasks t task ∧ task.kind ≠ .idle) : s'.Orderly := by
  obtain ⟨n, n', d', hstep, rfl, _⟩ := Session.onDriver_cases h
  obtain ⟨task, htasks, hkind⟩ := hstarts _ _ hstep
  refine hs.stepped hstep (fun scripts discard ha => absurd ha (hqueued scripts discard)) ?_
  intro call hcall
  rw [htasks]
  by_cases ht : call.1 = t
  · rw [ht, Function.update_self]
    exact hkind
  · rw [Function.update_of_ne ht]
    rcases List.mem_cons.mp hcall with rfl | hcall
    · exact absurd rfl ht
    · exact hs.calls call hcall

/-- A task makes a step in its call, which may return. -/
lemma Session.Orderly.taskStep {t : ℕ} {input : StepInput} (hs : s.Orderly)
    (h : s.onDriver (.step t input) = some (o, s')) : (s'.endCall t o).Orderly := by
  obtain ⟨n, n', d', hstep, rfl, _⟩ := Session.onDriver_cases h
  obtain ⟨_, task, hmove⟩ := step_moves hstep
  have hothers : ∀ call ∈ s.calls, call.1 ≠ t → (d'.tasks call.1).kind ≠ .idle := by
    intro call hcall ht
    rw [hmove.tasks_eq, Function.update_of_ne ht]
    exact hs.calls call hcall
  rw [Session.endCall]
  split_ifs with hreturned
  · refine hs.stepped hstep (fun _ _ ha => by cases ha) fun call hcall => ?_
    obtain ⟨hcall, ht⟩ := List.mem_filter.mp hcall
    exact hothers call hcall (by simpa using ht)
  · refine hs.stepped hstep (fun _ _ ha => by cases ha) fun call hcall => ?_
    by_cases ht : call.1 = t
    · rcases hmove.kind with ⟨_, hkind⟩ | ⟨hsome, _⟩
      · rw [hmove.tasks_eq, ht, Function.update_self, hkind, ← ht]
        exact hs.calls call hcall
      · exact absurd hsome hreturned
    · exact hothers call hcall ht

lemma infnoiseOpen_orderly {file : ℕ} (hs : s.Orderly) (h : s.infnoiseOpen file = some (o, s')) :
    s'.Orderly := by
  rw [Session.infnoiseOpen] at h
  split_ifs at h <;> cases h <;> exact ⟨hs.lock, hs.health, hs.calls, hs.completed, hs.cancelled⟩

lemma infnoiseRelease_orderly {file : ℕ} (hs : s.Orderly)
    (h : s.infnoiseRelease file = some (o, s')) : s'.Orderly := by
  rw [Session.infnoiseRelease] at h
  split_ifs at h
  cases h
  exact ⟨hs.lock, hs.health, hs.calls, hs.completed, hs.cancelled⟩

lemma infnoiseDisconnect_orderly (hs : s.Orderly) (h : s.infnoiseDisconnect = some (o, s')) :
    s'.Orderly := by
  rw [Session.infnoiseDisconnect] at h
  split at h
  · cases h
    refine ⟨hs.lock, hs.health, hs.calls, fun _ hne => absurd rfl hne, fun hyet => by cases hyet⟩
  · cases h
    exact ⟨hs.lock, hs.health, hs.calls, fun _ _ => rfl, fun hyet => by cases hyet⟩
  · rename_i hpc
    have hcompleted := hs.completed (by simp [hpc]) (by simp [hpc])
    split at h
    · rename_i hw
      cases h
      exact ⟨hs.lock, hs.health, hs.calls, fun _ _ => hcompleted, fun _ => .inl hw⟩
    · rename_i hw
      cases h
      exact ⟨hs.lock, hs.health, hs.calls, fun _ _ => hcompleted, fun _ => .inr hw⟩
    · cases h
  · rename_i hpc
    split_ifs at h
    cases h
    exact ⟨hs.lock, hs.health, hs.calls,
      fun _ _ => hs.completed (by simp [hpc]) (by simp [hpc]),
      fun _ => hs.cancelled (by rw [hpc]; rfl)⟩
  · rename_i hpc
    cases h
    exact ⟨hs.lock, hs.health, hs.calls,
      fun _ _ => hs.completed (by simp [hpc]) (by simp [hpc]),
      fun _ => hs.cancelled (by rw [hpc]; rfl)⟩
  · rename_i hpc
    cases h
    exact ⟨hs.lock, hs.health, hs.calls,
      fun _ _ => hs.completed (by simp [hpc]) (by simp [hpc]),
      fun _ => hs.cancelled (by rw [hpc]; rfl)⟩
  · cases h

/-- Every step keeps it. -/
lemma step_orderly {a : SessionAction} (hs : s.Orderly) (h : s.step a = some (o, s')) :
    s'.Orderly := by
  cases a with
  | openFile file => exact infnoiseOpen_orderly hs h
  | releaseFile file => exact infnoiseRelease_orderly hs h
  | charRead file t count nonblock | ioctlGet file t | hwrngRead t max wait =>
    rw [Session.step] at h
    split_ifs at h
    refine hs.startCall h (fun _ _ ha => by cases ha) fun d d' hd => ?_
    cases driverStep_cases hd
    exact ⟨_, rfl, fun hidle => by cases hidle⟩
  | ioctlSetRaw file raw =>
    rw [Session.step] at h
    split_ifs at h
    refine hs.onDriver h (fun _ _ ha => by cases ha) fun d d' hd t hne => ?_
    cases driverStep_cases hd
    exact hne
  | setParameters multiplier rawMode =>
    refine hs.onDriver h (fun _ _ ha => by cases ha) fun d d' hd t hne => ?_
    cases driverStep_cases hd
    exact hne
  | step t input =>
    obtain ⟨⟨o', s₁⟩, hdriver, heq⟩ := Option.map_eq_some_iff.mp h
    obtain ⟨rfl, rfl⟩ := Prod.mk.inj heq
    exact hs.taskStep hdriver
  | warmup scripts discard =>
    rw [Session.step] at h
    split_ifs at h with hqueued
    refine hs.onDriver h (fun _ _ _ => ?_) fun d d' hd t hne => ?_
    · rcases hpc : s.disconnect with _ | _ | _ | _ | _ | _ | _ <;>
        simp [Session.warmupQueued, hpc, DisconnectPc.cancelledYet] at hqueued ⊢
    · cases (warmupStep_cases hd).2 <;> exact hne
  | disconnect => exact infnoiseDisconnect_orderly hs h

end

lemma probe_orderly (clockBuf usbBuf readBuf outBuf : ℕ → Byte) (multiplier : ℕ)
    (rawMode hwrngReg : Bool) : (Session.probe
      (infnoiseProbe clockBuf usbBuf readBuf outBuf multiplier rawMode) hwrngReg).Orderly :=
  ⟨infnoiseProbe_lockKept .., infnoiseHealthInit_inv, (fun _ hcall => by cases hcall),
    fun hne => absurd rfl hne, (fun hyet => by cases hyet)⟩

/-! ### Who can move -/

section

variable {s : Session}

/-- The driver makes a step in a session when it can with as many completions as there are. -/
lemma Session.exists_onDriver {a : Action}
    (h : ∀ n, (s.tokens ≠ 0 → 0 < n) →
      ∃ r, ({ s.driver with completions := n } : Driver).step a = some r) :
    ∃ r, s.onDriver a = some r := by
  rw [Session.onDriver]
  split_ifs with hall
  · obtain ⟨⟨o, d'⟩, hstep⟩ := h (s.driver.completions + 1) fun _ => Nat.succ_pos _
    dsimp only
    rw [hstep]
    exact ⟨_, rfl⟩
  · obtain ⟨⟨o, d'⟩, hstep⟩ := h s.driver.completions fun htokens => by
      rw [Session.tokens, if_neg hall] at htokens
      exact Nat.pos_of_ne_zero (by simpa using htokens)
    rw [show s.driver.step a = some (o, d') from hstep]
    exact ⟨_, rfl⟩

/-- A task can make a step when the lock is free for it and a completion is there for it. -/
lemma Session.Orderly.canMove_task (hs : s.Orderly) {t : ℕ}
    (hne : (s.driver.tasks t).kind ≠ .idle)
    (hlock : (s.driver.tasks t).wantsLock = true → s.driver.locked = false)
    (hwait : (s.driver.tasks t).isWaiting = true → s.tokens ≠ 0) : s.CanMove (.task t) := by
  intro input hsignal _
  obtain ⟨⟨o, s'⟩, hstep⟩ := Session.exists_onDriver (s := s) (a := .step t input) fun n hn =>
    exists_step (d := { s.driver with completions := n }) hs.health hsignal hne hlock
      fun hwaiting => hn (hwait hwaiting)
  exact ⟨_, by rw [Session.step, hstep]; rfl⟩

/-- So can the warm-up work, while it has not returned and is not cancelled. -/
lemma Session.Orderly.canMove_warmup (hs : s.Orderly) (hne : s.driver.warmup ≠ .finished)
    (hlock : s.driver.warmup = .scheduled → s.driver.locked = false)
    (hqueued : s.warmupQueued = true) : s.CanMove .warmup := by
  intro scripts discard _
  rw [Session.step, if_pos hqueued]
  exact Session.exists_onDriver fun n _ =>
    exists_warmupStep (d := { s.driver with completions := n }) hs.health hne hlock scripts discard

/-- The disconnect cancels no work that is under way. -/
lemma Session.Orderly.warmupQueued (hs : s.Orderly)
    (hw : s.driver.warmup ≠ .scheduled ∧ s.driver.warmup ≠ .finished) : s.warmupQueued = true := by
  have hnot : s.disconnect.cancelledYet = false := by
    by_contra hyet
    rcases hs.cancelled (by simpa using hyet) with hsched | hfinished
    · exact hw.1 hsched
    · exact hw.2 hfinished
  rcases hpc : s.disconnect with _ | _ | _ | _ | _ | _ | _ <;>
    simp [Session.warmupQueued, hpc, DisconnectPc.cancelledYet] at hnot ⊢

/-- Whoever holds the lock can make a step. -/
lemma Session.Orderly.canMove_holder (hs : s.Orderly) {p : Party}
    (hp : s.driver.inSection p = true) : s.CanMove p := by
  cases p with
  | warmup =>
    change s.driver.warmup.inSection = true at hp
    have hw : s.driver.warmup ≠ .scheduled ∧ s.driver.warmup ≠ .finished := by
      constructor <;>
      · intro hw
        rw [hw] at hp
        cases hp
    exact hs.canMove_warmup hw.2 (fun hsched => absurd hsched hw.1) (hs.warmupQueued hw)
  | task t =>
    change (s.driver.tasks t).inSection = true at hp
    -- a task inside its section is in a call, and waits for nothing
    refine hs.canMove_task ?_ ?_ ?_ <;>
    · rcases ht : s.driver.tasks t with _ | ⟨call, pc⟩ | ⟨call, pc⟩ | locked
      · simp [ht, Task.inSection] at hp
      · cases pc <;> simp [ht, Task.inSection, Task.kind, Task.wantsLock, Task.isWaiting] at hp ⊢
      · cases pc <;> simp [ht, Task.inSection, Task.kind, Task.wantsLock, Task.isWaiting] at hp ⊢
      · obtain rfl : locked = true := by simpa [ht, Task.inSection] using hp
        simp [Task.kind, Task.wantsLock, Task.isWaiting]

lemma Session.Orderly.goesOn (hs : s.Orderly) {p : Party}
    (h : (s.driver.wantsLock p = true → s.driver.locked = false) → s.CanMove p) : s.GoesOn p := by
  by_cases hblocked : s.driver.wantsLock p = true ∧ s.driver.locked = true
  · obtain ⟨q, hq⟩ := hs.lock.locked_iff.mp hblocked.2
    exact .inr ⟨hblocked.1, q, hq, hs.canMove_holder hq⟩
  · refine .inl (h fun hwants => ?_)
    by_contra hlocked
    exact hblocked ⟨hwants, by simpa using hlocked⟩

/-- A task that is in a call goes on, unless it waits for a completion that is not there. -/
lemma Session.Orderly.goesOn_task (hs : s.Orderly) {t : ℕ} (hne : (s.driver.tasks t).kind ≠ .idle) :
    s.GoesOn (.task t) ∨ (s.driver.tasks t).isWaiting = true ∧ s.tokens = 0 := by
  by_cases hstuck : (s.driver.tasks t).isWaiting = true ∧ s.tokens = 0
  · exact .inr hstuck
  · refine .inl (hs.goesOn fun hlock => hs.canMove_task hne hlock ?_)
    intro hwaiting htokens
    exact hstuck ⟨hwaiting, htokens⟩

/-- The work goes on until it returns, as long as it is not cancelled. -/
lemma Session.Orderly.goesOn_warmup (hs : s.Orderly) (hne : s.driver.warmup ≠ .finished)
    (hqueued : s.warmupQueued = true) : s.GoesOn .warmup :=
  hs.goesOn fun hlock => hs.canMove_warmup hne
    (fun hw => hlock (by simp [Driver.wantsLock, hw])) hqueued

/-- While completions run out, the disconnect has not got to `complete_all`. -/
lemma Session.Orderly.warmupQueued_of_tokens (hs : s.Orderly) (htokens : s.tokens = 0) :
    s.warmupQueued = true := by
  have hnot : s.completedAll = false := by
    by_contra hall
    rw [Session.tokens, if_pos (by simpa using hall)] at htokens
    cases htokens
  have hdisconnect : s.disconnect = .plugged ∨ s.disconnect = .absent := by
    by_contra hne
    rw [not_or] at hne
    simp [hs.completed hne.1 hne.2] at hnot
  rcases hdisconnect with hpc | hpc <;> simp [Session.warmupQueued, hpc]

/-- The disconnect, until it has freed the device, can make a step, or waits for the work or for a
call of the hwrng core that goes on. -/
lemma Session.Orderly.disconnect_goesOn (hs : s.Orderly) (hfreed : s.disconnect ≠ .freed) :
    (∃ r, s.step .disconnect = some r) ∨ s.disconnect = .completed ∧ s.CanMove .warmup ∨
      s.disconnect = .cancelled ∧ ∃ t, (t, .hwrng) ∈ s.calls ∧ s.GoesOn (.task t) := by
  rw [Session.step, Session.infnoiseDisconnect]
  rcases hpc : s.disconnect with _ | _ | _ | _ | _ | _ | _
  · exact .inl ⟨_, rfl⟩
  · exact .inl ⟨_, rfl⟩
  · have hqueued : s.warmupQueued = true := by simp [Session.warmupQueued, hpc]
    by_cases hw : s.driver.warmup = .scheduled ∨ s.driver.warmup = .finished
    · rcases hw with hw | hw <;> exact .inl ⟨_, by simp only [hw]; rfl⟩
    · rw [not_or] at hw
      exact .inr (.inl ⟨rfl, hs.canMove_warmup hw.2 (fun hsched => absurd hsched hw.1) hqueued⟩)
  · by_cases hidle : ∀ call ∈ s.calls, call.2 ≠ .hwrng
    · exact .inl ⟨_, if_pos hidle⟩
    · refine .inr (.inr ⟨rfl, ?_⟩)
      simp only [not_forall, not_not] at hidle
      obtain ⟨⟨t, caller⟩, hcall, rfl⟩ := hidle
      have hall := hs.completed (by simp [hpc]) (by simp [hpc])
      refine ⟨t, hcall, (hs.goesOn_task (hs.calls _ hcall)).resolve_right ?_⟩
      rintro ⟨_, htokens⟩
      simp [Session.tokens, hall] at htokens
  · exact .inl ⟨_, rfl⟩
  · exact .inl ⟨_, rfl⟩
  · exact absurd hpc hfreed

end

/-- There is no deadlock, as long as no recovery reaches `usb_reset_device`: in every state that a
session can reach, a task that is in a call can make a step or waits for the holder of the lock, who
can; otherwise it waits for the warm-up, whose work goes on or has returned. The disconnect, once
under way, can make a step, or waits for the work or for a call of the hwrng core that goes on. -/
theorem no_deadlock {clockBuf usbBuf readBuf outBuf : ℕ → Byte} {multiplier : ℕ}
    {rawMode hwrngReg : Bool} {s : Session} {cs : List SessionRecord}
    (h : Run Session.step (.probe
      (infnoiseProbe clockBuf usbBuf readBuf outBuf multiplier rawMode) hwrngReg) cs s)
    (hreset : ∀ c ∈ cs, c.input.WithoutReset) :
    (∀ t, s.driver.tasks t ≠ .idle → s.GoesOn (.task t) ∨
      (s.driver.tasks t).isWaiting = true ∧ s.tokens = 0 ∧
        (s.GoesOn .warmup ∨ s.driver.warmup = .finished)) ∧
    (s.disconnect ≠ .freed → (∃ r, s.step .disconnect = some r) ∨
      s.disconnect = .completed ∧ s.CanMove .warmup ∨
      s.disconnect = .cancelled ∧ ∃ t, (t, .hwrng) ∈ s.calls ∧ s.GoesOn (.task t)) := by
  have hs : s.Orderly :=
    (h.invariant_of (fun _ hstep _ hI => step_orderly hI hstep) hreset (probe_orderly ..)).2
  constructor
  · intro t hne
    rcases hs.goesOn_task (Task.kind_ne_idle hne) with hgoes | ⟨hwaiting, htokens⟩
    · exact .inl hgoes
    · refine .inr ⟨hwaiting, htokens, ?_⟩
      by_cases hw : s.driver.warmup = .finished
      · exact .inr hw
      · exact .inl (hs.goesOn_warmup hw (hs.warmupQueued_of_tokens htokens))
  · exact fun hfreed => hs.disconnect_goesOn hfreed

/-- Two ioctls on a file: the second waits for the first, which holds the lock. -/
theorem no_deadlock_ioctls : ∃ (cs : List SessionRecord) (s : Session),
    Run Session.step (.probe probed true) cs s ∧
      s.driver.inSection (.task 0) = true ∧ s.driver.wantsLock (.task 1) = true ∧
        s.GoesOn (.task 1) := by
  have hopen : (Session.probe probed true).step (.openFile 0) = some (_, _) := rfl
  have hrun := Run.cons hopen <| .cons (i := .ioctlGet 0 0) rfl <|
    .cons (i := .ioctlGet 0 1) rfl <| .cons (i := .step 0 .quiet) rfl <| .nil _
  refine ⟨_, _, hrun, rfl, rfl,
    ((no_deadlock hrun ?_).1 1 (fun hidle => by cases hidle)).resolve_right ?_⟩
  · refine withoutReset_of_inputs
      [.openFile 0, .ioctlGet 0 0, .ioctlGet 0 1, .step 0 .quiet] rfl ?_
    simp only [List.forall_mem_cons]
    exact ⟨trivial, trivial, trivial, fun _ => rfl, List.forall_mem_nil _⟩
  · rintro ⟨hwaiting, _⟩
    cases hwaiting

end Kernel
