import Infnoise.Core.Mutex
import Infnoise.Kernel.History

/-!
# The device lock

`dev->lock` is taken by the warm-up work, the two read paths and the ioctls that look at the health
checker. In every run one party at most is between `mutex_lock` and `mutex_unlock`, and what the lock
protects changes only by its steps; `INFNOISE_HEALTH_FAIL` is set without the lock too.
-/

namespace Kernel

open Core

attribute [local irreducible] infnoiseKeccakPermutation infnoiseKeccakAbsorb

/-- Who can hold the lock. -/
inductive Party where
  | warmup
  | task (t : ℕ)
  deriving DecidableEq

/-- Whether a task is between `mutex_lock` and `mutex_unlock`. -/
def Task.inSection : Task → Bool
  | .hwrng _ .locked | .hwrng _ (.unlocking ..) => true
  | .char _ (.locked _) | .char _ (.unlocking ..) => true
  | .ioctl locked => locked
  | _ => false

def WarmupPc.inSection : WarmupPc → Bool
  | .running _ => true
  | _ => false

/-- Whether a party is between `mutex_lock` and `mutex_unlock`. -/
def Driver.inSection (d : Driver) : Party → Bool
  | .warmup => d.warmup.inSection
  | .task t => (d.tasks t).inSection

/-- The lock is held by the one party that is in its section. -/
def Driver.LockKept (d : Driver) : Prop := Exclusive d.locked d.inSection

/-- The party that makes a step. -/
def DriverRecord.party (c : DriverRecord) : Option Party :=
  match c.input with
  | .warmup .. => some .warmup
  | _ => c.task.map .task

/-- Two devices differ in the flag of the health check at most. -/
def Device.SameButFlag (dev dev' : Device) : Prop :=
  dev' = { dev with healthFail := dev'.healthFail }

@[refl] lemma Device.SameButFlag.refl (dev : Device) : dev.SameButFlag dev := rfl

lemma Device.SameButFlag.trans {dev dev' dev'' : Device} (h : dev.SameButFlag dev')
    (h' : dev'.SameButFlag dev'') : dev.SameButFlag dev'' := by
  rw [Device.SameButFlag] at *
  rw [h', h]

/-! ### One step -/

/-- What a step does to the lock, and who makes it when it changes what the lock protects. -/
structure LockMove (d : Driver) (party : Option Party) (d' : Driver) : Prop where
  lock : LockStep party d.locked d.inSection d'.locked d'.inSection
  dev : (∃ p, party = some p ∧ d.inSection p = true) ∨ d.dev.SameButFlag d'.dev

section

variable {d d' : Driver} {t : ℕ} {task : Task} {party : Option Party}

lemma inSection_setTask (d : Driver) (t : ℕ) (task : Task) :
    (d.setTask t task).inSection =
      Function.update d.inSection (.task t) task.inSection := by
  funext p
  cases p with
  | warmup => simp [Driver.inSection, Driver.setTask]
  | task t' =>
    by_cases ht : t' = t
    · subst ht
      simp [Driver.inSection]
    · simp [Driver.inSection, Driver.setTask_tasks_of_ne _ ht, ht]

/-- A task moves on, outside of its section or inside. -/
lemma LockMove.moves (hlocked : d'.locked = d.locked)
    (hinside : d'.inSection = Function.update d.inSection (.task t) task.inSection)
    (hsame : task.inSection = (d.tasks t).inSection)
    (hdev : (∃ p, party = some p ∧ d.inSection p = true) ∨ d.dev.SameButFlag d'.dev) :
    LockMove d party d' := by
  refine ⟨.stays hlocked ?_, hdev⟩
  rw [hinside, hsame]
  exact Function.update_eq_self (Party.task t) d.inSection

/-- A task takes the lock. -/
lemma LockMove.takes (hfree : d.locked = false) (hsection : task.inSection = true) :
    LockMove d (some (.task t)) ({ d with locked := true }.setTask t task) := by
  refine ⟨.takes (.task t) rfl hfree rfl ?_, .inr rfl⟩
  rw [inSection_setTask, hsection]
  rfl

/-- A task gives it back. -/
lemma LockMove.gives (ht : (d.tasks t).inSection = true) (hsection : task.inSection = false) :
    LockMove d (some (.task t)) ({ d with locked := false }.setTask t task) := by
  refine ⟨.gives (.task t) rfl ht rfl ?_, .inr rfl⟩
  rw [inSection_setTask, hsection]
  rfl

end

section

variable {d d' : Driver} {t : ℕ} {input : StepInput} {o : Output}

lemma HwrngStep.lockMove {call : HwrngCall} {pc : HwrngPc} (ht : d.tasks t = .hwrng call pc)
    (h : HwrngStep d t input call pc o d') : LockMove d (some (.task t)) d' := by
  cases h with
  | absent | waits | enters | interrupted | woken | cold | warm | failed | healthy | returns =>
    exact .moves rfl (inSection_setTask ..) (by rw [ht]; rfl) (.inr rfl)
  | locks hlocked => exact .takes hlocked rfl
  | reads =>
    refine .moves rfl (inSection_setTask ..) (by rw [ht]; rfl) (.inl ⟨_, rfl, ?_⟩)
    simp [Driver.inSection, ht, Task.inSection]
  | unlocks => exact .gives (by rw [ht]; rfl) rfl

lemma CharStep.lockMove {call : CharCall} {pc : CharPc} (ht : d.tasks t = .char call pc)
    (h : CharStep d t input call pc o d') : LockMove d (some (.task t)) d' := by
  cases h with
  | cold | waits | warm | interrupted | woken | failed | healthy | ends | error | dry | again
  | signalled | retries | faults | copies =>
    exact .moves rfl (inSection_setTask ..) (by rw [ht]; rfl) (.inr rfl)
  | locks _ hlocked => exact .takes hlocked rfl
  | reads =>
    refine .moves rfl (inSection_setTask ..) (by rw [ht]; rfl) (.inl ⟨_, rfl, ?_⟩)
    simp [Driver.inSection, ht, Task.inSection]
  | unlocks => exact .gives (by rw [ht]; rfl) rfl

lemma IoctlStep.lockMove {locked : Bool} (ht : d.tasks t = .ioctl locked)
    (h : IoctlStep d t locked o d') : LockMove d (some (.task t)) d' := by
  cases h with
  | locks hlocked => exact .takes hlocked rfl
  | returns => exact .gives (by rw [ht]; rfl) rfl

/-- The warm-up work takes the lock when it is free. -/
lemma warmupStep_free {scripts : ℕ → AttemptScript} {discard : ℕ → Byte}
    (h : d.warmupStep scripts discard = some (o, d')) (hw : d.warmup = .scheduled) :
    d.locked = false := by
  rw [Driver.warmupStep, hw] at h
  by_contra hlocked
  simp [hlocked] at h

lemma inSection_warmup (htasks : d'.tasks = d.tasks) :
    d'.inSection = Function.update d.inSection .warmup d'.warmup.inSection := by
  funext p
  cases p with
  | warmup => simp [Driver.inSection]
  | task t => simp [Driver.inSection, htasks]

/-- The work moves on, outside of its section or inside. -/
lemma LockMove.warmupMoves {party : Option Party} (hlocked : d'.locked = d.locked)
    (htasks : d'.tasks = d.tasks) (hsame : d'.warmup.inSection = d.warmup.inSection)
    (hdev : (∃ p, party = some p ∧ d.inSection p = true) ∨ d.dev.SameButFlag d'.dev) :
    LockMove d party d' := by
  refine ⟨.stays hlocked ?_, hdev⟩
  rw [inSection_warmup htasks, hsame]
  exact Function.update_eq_self Party.warmup d.inSection

lemma warmupStep_lockMove {scripts : ℕ → AttemptScript} {discard : ℕ → Byte}
    (h : d.warmupStep scripts discard = some (o, d')) : LockMove d (some .warmup) d' := by
  cases (warmupStep_cases h).2 with
  | locks hw =>
    exact ⟨.takes .warmup rfl (warmupStep_free h hw) rfl (inSection_warmup rfl), .inr rfl⟩
  | reads hw =>
    refine .warmupMoves rfl rfl (by rw [hw]; rfl) (.inl ⟨_, rfl, ?_⟩)
    simp [Driver.inSection, hw, WarmupPc.inSection]
  | stops hw =>
    refine ⟨.gives .warmup rfl ?_ rfl (inSection_warmup rfl), .inr rfl⟩
    simp [Driver.inSection, hw, WarmupPc.inSection]
  | gone hw | fails hw | succeeds hw | completes hw =>
    exact .warmupMoves rfl rfl (by rw [hw]; rfl) (.inr rfl)

end

/-- Every step of the driver is such a move. -/
lemma step_lockMove {c : DriverRecord} (h : c.before.step c.input = some (c.output, c.after)) :
    LockMove c.before c.party c.after := by
  obtain ⟨d, a, o, d'⟩ := c
  dsimp only at h
  cases driverStep_cases h with
  | warmup => exact warmupStep_lockMove h
  | hwrngRead hidle | charRead hidle | ioctlGet hidle =>
    exact .moves rfl (inSection_setTask ..) (by rw [hidle]; rfl) (.inr rfl)
  | ioctlSetRaw | setParameters => exact ⟨.stays rfl rfl, .inr rfl⟩
  | hwrng ht h => exact h.lockMove ht
  | char ht h => exact h.lockMove ht
  | ioctl ht h => exact h.lockMove ht

/-- A step that reads from the device is made inside a section. -/
lemma read_inSection {c : DriverRecord} (h : c.read ≠ none) :
    ∃ p, c.party = some p ∧ c.before.inSection p = true := by
  have hcall : c.readCall ≠ none := by
    intro hnone
    exact h (DriverRecord.read_eq_none hnone)
  obtain ⟨d, a, o, d'⟩ := c
  cases a with
  | warmup =>
    refine ⟨.warmup, rfl, ?_⟩
    rw [DriverRecord.readCall] at hcall
    rcases hw : d.warmup with _ | rounds | rounds | _ | _
    · simp [hw] at hcall
    · simp [Driver.inSection, hw, WarmupPc.inSection]
    all_goals simp [hw] at hcall
  | step t input =>
    refine ⟨.task t, rfl, ?_⟩
    rw [DriverRecord.readCall] at hcall
    rcases ht : d.tasks t with _ | ⟨call, pc⟩ | ⟨call, pc⟩ | locked
    · simp [ht] at hcall
    · cases pc <;> simp [ht, Driver.inSection, Task.inSection] at hcall ⊢
    · cases pc <;> simp [ht, Driver.inSection, Task.inSection] at hcall ⊢
    · simp [ht] at hcall
  | hwrngRead | charRead | ioctlSetRaw | ioctlGet | setParameters => exact absurd rfl hcall

/-! ### Runs -/

/-- The lock of the driver, and what it protects. -/
def driverMutex : Mutex Driver.step Party where
  locked := Driver.locked
  inside := Driver.inSection
  party := DriverRecord.party
  Same d d' := d.dev.SameButFlag d'.dev
  refl _ := rfl
  trans := Device.SameButFlag.trans
  moves _ hstep := (step_lockMove hstep).lock
  protects _ hstep := (step_lockMove hstep).dev

lemma infnoiseProbe_lockKept (clockBuf usbBuf readBuf outBuf : ℕ → Byte) (multiplier : ℕ)
    (rawMode : Bool) :
    (infnoiseProbe clockBuf usbBuf readBuf outBuf multiplier rawMode).LockKept := by
  have hinside : (infnoiseProbe clockBuf usbBuf readBuf outBuf multiplier rawMode).inSection =
      fun _ => false := by
    funext p
    cases p <;> rfl
  rw [Driver.LockKept, hinside]
  exact .free

/-- The lock excludes: in every run one party at most is in its section, just while the lock is held;
the steps that read from the device, and those that change what the lock protects, are made inside;
and between two steps of a party in its section the device stays as the party has left it. -/
theorem lock_excludes {clockBuf usbBuf readBuf outBuf : ℕ → Byte} {multiplier : ℕ} {rawMode : Bool}
    {d : Driver} {cs : List DriverRecord}
    (h : Run Driver.step (infnoiseProbe clockBuf usbBuf readBuf outBuf multiplier rawMode) cs d) :
    d.LockKept ∧
      (∀ c ∈ cs, c.before.LockKept ∧
        (c.read ≠ none ∨ ¬ c.before.dev.SameButFlag c.after.dev →
          ∃ p, c.party = some p ∧ c.before.inSection p = true)) ∧
      ∀ pre c mid e post p, cs = pre ++ c :: (mid ++ e :: post) → c.after.inSection p = true →
        (∀ x ∈ mid, x.party ≠ some p) →
          e.before.inSection p = true ∧ c.after.dev.SameButFlag e.before.dev := by
  obtain ⟨hkept, hend⟩ := driverMutex.kept h (infnoiseProbe_lockKept ..)
  refine ⟨hend, fun c hc => ⟨(hkept c hc).1, ?_⟩, ?_⟩
  · rintro (hread | hdev)
    · exact read_inSection hread
    · exact (step_lockMove (h.step_of_mem hc)).dev.resolve_right hdev
  · rintro pre c mid e post p rfl hp hothers
    obtain ⟨d₁, _, hrest⟩ := Run.append_iff.mp h
    obtain ⟨rfl, _, hrun⟩ := Run.cons_iff.mp hrest
    obtain ⟨d₂, hmid, hlast⟩ := Run.append_iff.mp hrun
    obtain ⟨rfl, _, _⟩ := Run.cons_iff.mp hlast
    exact driverMutex.others hmid (hkept c (by simp)).2 hp hothers

/-- An ioctl that has taken the lock keeps the warm-up work out. -/
theorem lock_excludes_ioctl : ∃ (cs : List DriverRecord) (d : Driver),
    Run Driver.step probed cs d ∧
      d.inSection (.task 0) = true ∧ d.inSection .warmup = false ∧ d.LockKept ∧
        ∀ scripts discard, d.step (.warmup scripts discard) = none := by
  have hstart : probed.step (.ioctlGet 0) = some (_, _) := rfl
  have hrun := Run.cons hstart <|
    .cons (i := .step 0 .quiet) rfl <| .nil _
  exact ⟨_, _, hrun, rfl, rfl, (lock_excludes hrun).1, fun _ _ => rfl⟩

end Kernel
