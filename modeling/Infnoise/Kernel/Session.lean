import Infnoise.Kernel.Transitions

/-!
# Files and unplugging

Model of `infnoise_open`, `infnoise_release` and `infnoise_disconnect` around the driver: files are
opened and released, calls go through open files or come from the hwrng core, and the device is
unplugged while all this goes on. A file keeps its pointer to the device structure, and
`usb_deregister_dev` prevents new opens and nothing else; `hwrng_unregister` waits for the calls of
the hwrng core that are on their way.
-/

namespace Kernel

open Core

/-- Where `infnoise_disconnect` stands. -/
inductive DisconnectPc where
  | plugged
  | absent
  | completed
  | cancelled
  | unregistered
  | deregistered
  | freed
  deriving DecidableEq

/-- Who makes a call. -/
inductive Caller where
  | hwrng
  | file (file : ℕ)
  deriving DecidableEq

/-- The driver, whether `complete_all` has been called and the hwrng is registered, the files that
are open, the calls on their way, and the disconnect. -/
structure Session where
  driver : Driver
  completedAll : Bool
  hwrngReg : Bool
  files : List ℕ
  calls : List (ℕ × Caller)
  disconnect : DisconnectPc

inductive SessionAction where
  | openFile (file : ℕ)
  | releaseFile (file : ℕ)
  | charRead (file task count : ℕ) (nonblock : Bool)
  | ioctlSetRaw (file : ℕ) (raw : Bool)
  | ioctlGet (file task : ℕ)
  | hwrngRead (task max : ℕ) (wait : Bool)
  | setParameters (multiplier : ℕ) (rawMode : Bool)
  | step (task : ℕ) (input : StepInput)
  | warmup (scripts : ℕ → AttemptScript) (discard : ℕ → Byte)
  | disconnect

namespace Session

/-- A step of the driver. After `complete_all` every wait finds a completion, and leaves it. -/
def onDriver (s : Session) (a : Action) : Option (Output × Session) :=
  if s.completedAll then
    let driver : Driver := { s.driver with completions := s.driver.completions + 1 }
    (driver.step a).map fun (o, d) =>
      (o, { s with driver := { d with completions := s.driver.completions } })
  else (s.driver.step a).map fun (o, d) => (o, { s with driver := d })

/-- A call begins. -/
def startCall (s : Session) (task : ℕ) (caller : Caller) (a : Action) : Option (Output × Session) :=
  { s with calls := (task, caller) :: s.calls }.onDriver a

/-- A call that returns is over. -/
def endCall (s : Session) (task : ℕ) (o : Output) : Session :=
  if o.returned.isSome then { s with calls := s.calls.filter fun call => call.1 ≠ task } else s

/-- `infnoise_open`. -/
def infnoiseOpen (s : Session) (file : ℕ) : Option (Output × Session) :=
  if file ∈ s.files then none
  else if !s.driver.dev.present then some (⟨[], some (.error .enodev)⟩, s)
  else some (⟨[], some (.ok 0)⟩, { s with files := file :: s.files })

/-- `infnoise_release`, when the last call on the file is over. -/
def infnoiseRelease (s : Session) (file : ℕ) : Option (Output × Session) :=
  if file ∈ s.files ∧ ∀ call ∈ s.calls, call.2 ≠ .file file then
    some (⟨[], some (.ok 0)⟩, { s with files := s.files.filter (· ≠ file) })
  else none

/-- `infnoise_disconnect`. `cancel_work_sync` takes the work back, or waits until it returns. -/
def infnoiseDisconnect (s : Session) : Option (Output × Session) :=
  match s.disconnect with
  | .plugged => some (.silent, { s with
      driver := { s.driver with dev := { s.driver.dev with present := false } }
      disconnect := .absent })
  | .absent => some (.silent, { s with completedAll := true, disconnect := .completed })
  | .completed =>
    match s.driver.warmup with
    | .scheduled | .finished => some (.silent, { s with disconnect := .cancelled })
    | _ => none
  | .cancelled =>
    if ∀ call ∈ s.calls, call.2 ≠ .hwrng then
      some (.silent, { s with hwrngReg := false, disconnect := .unregistered })
    else none
  | .unregistered => some (.silent, { s with disconnect := .deregistered })
  | .deregistered => some (.silent, { s with disconnect := .freed })
  | .freed => none

/-- The warm-up work can take a step. -/
def warmupQueued (s : Session) : Bool :=
  match s.disconnect with
  | .plugged | .absent | .completed => true
  | _ => false

/-- A step of the session. -/
def step (s : Session) : SessionAction → Option (Output × Session)
  | .openFile file => s.infnoiseOpen file
  | .releaseFile file => s.infnoiseRelease file
  | .charRead file task count nonblock =>
    if file ∈ s.files then s.startCall task (.file file) (.charRead task count nonblock) else none
  | .ioctlSetRaw file raw => if file ∈ s.files then s.onDriver (.ioctlSetRaw raw) else none
  | .ioctlGet file task =>
    if file ∈ s.files then s.startCall task (.file file) (.ioctlGet task) else none
  | .hwrngRead task max wait =>
    if s.hwrngReg then s.startCall task .hwrng (.hwrngRead task max wait) else none
  | .setParameters multiplier rawMode => s.onDriver (.setParameters multiplier rawMode)
  | .step task input =>
    (s.onDriver (.step task input)).map fun (o, s) => (o, s.endCall task o)
  | .warmup scripts discard => if s.warmupQueued then s.onDriver (.warmup scripts discard) else none
  | .disconnect => s.infnoiseDisconnect

/-- A session at the end of `infnoise_probe`, which goes on when the hwrng is not registered. -/
def probe (driver : Driver) (hwrngReg : Bool) : Session where
  driver
  completedAll := false
  hwrngReg
  files := []
  calls := []
  disconnect := .plugged

end Session

/-- A step in a run of a session. -/
abbrev SessionRecord := Call Session SessionAction Output

/-! ### Steps of the tasks -/

inductive TaskKind where
  | idle
  | hwrng
  | file
  deriving DecidableEq

/-- Where the calls of a task come from. -/
def Task.kind : Task → TaskKind
  | .idle => .idle
  | .hwrng .. => .hwrng
  | .char .. | .ioctl _ => .file

/-- Whether a task is blocked in `wait_for_completion_interruptible`. -/
def Task.isWaiting : Task → Bool
  | .hwrng _ .waiting | .char _ .waiting => true
  | _ => false

/-- Whether the next step of a task is to wait for the warm-up. -/
def Driver.startsWait (d : Driver) (t : ℕ) : Bool :=
  match d.tasks t with
  | .hwrng call .entered => d.dev.present && (call.wait && !d.warmupDone)
  | .char call .entered => !d.warmupDone && !call.nonblock
  | _ => false

/-- What a step of a task does to the tasks: its call goes on or returns, and a task that waits goes
on with a completion, or without one when a signal is pending. -/
structure TaskMove (d : Driver) (t : ℕ) (o : Output) (d' : Driver) (task : Task) : Prop where
  tasks_eq : d'.tasks = Function.update d.tasks t task
  warmup_eq : d'.warmup = d.warmup
  kind : o.returned = none ∧ task.kind = (d.tasks t).kind ∨ o.returned.isSome = true ∧ task = .idle
  isWaiting_eq : task.isWaiting = d.startsWait t
  completions : d'.completions = d.completions ∨ (d.tasks t).isWaiting = true ∧
    0 < d.completions ∧ d'.completions = d.completions - 1

section

variable {d d' : Driver} {t : ℕ} {input : StepInput} {o : Output}

lemma startsWait_of_tasks {task : Task} (ht : d.tasks t = task) :
    d.startsWait t = ({ d with tasks := fun _ => task } : Driver).startsWait t := by
  simp only [Driver.startsWait, ht]

lemma HwrngStep.taskMove {call : HwrngCall} {pc : HwrngPc} (ht : d.tasks t = .hwrng call pc)
    (h : HwrngStep d t input call pc o d') : ∃ task, TaskMove d t o d' task := by
  have hkind : ∀ pc', Task.kind (.hwrng call pc') = (d.tasks t).kind := fun _ => by rw [ht]; rfl
  have hstarts := startsWait_of_tasks ht
  cases h with
  | absent hpresent =>
    have hstarts : d.startsWait t = false := by simp [Driver.startsWait, ht, hpresent]
    exact ⟨_, rfl, rfl, .inr ⟨rfl, rfl⟩, hstarts.symm, .inl rfl⟩
  | waits hpresent hwait hdone =>
    have hstarts : d.startsWait t = true := by
      simp [Driver.startsWait, ht, hpresent, hwait, hdone]
    exact ⟨_, rfl, rfl, .inl ⟨rfl, hkind _⟩, hstarts.symm, .inl rfl⟩
  | enters hpresent hgo =>
    have hstarts : d.startsWait t = false := by
      rcases hgo with hwait | hdone
      · simp [Driver.startsWait, ht, hwait]
      · simp [Driver.startsWait, ht, hdone]
    exact ⟨_, rfl, rfl, .inl ⟨rfl, hkind _⟩, hstarts.symm, .inl rfl⟩
  | woken _ htoken =>
    exact ⟨_, rfl, rfl, .inl ⟨rfl, hkind _⟩, hstarts.symm, .inr ⟨by rw [ht]; rfl, htoken, rfl⟩⟩
  | interrupted | cold | failed | returns =>
    exact ⟨_, rfl, rfl, .inr ⟨rfl, rfl⟩, hstarts.symm, .inl rfl⟩
  | warm | healthy | locks | reads | unlocks =>
    exact ⟨_, rfl, rfl, .inl ⟨rfl, hkind _⟩, hstarts.symm, .inl rfl⟩

lemma CharStep.taskMove {call : CharCall} {pc : CharPc} (ht : d.tasks t = .char call pc)
    (h : CharStep d t input call pc o d') : ∃ task, TaskMove d t o d' task := by
  have hkind : ∀ pc', Task.kind (.char call pc') = (d.tasks t).kind := fun _ => by rw [ht]; rfl
  have hstarts := startsWait_of_tasks ht
  cases h with
  | cold hdone hnonblock =>
    have hstarts : d.startsWait t = false := by simp [Driver.startsWait, ht, hnonblock]
    exact ⟨_, rfl, rfl, .inr ⟨rfl, rfl⟩, hstarts.symm, .inl rfl⟩
  | waits hdone hnonblock =>
    have hstarts : d.startsWait t = true := by simp [Driver.startsWait, ht, hdone, hnonblock]
    exact ⟨_, rfl, rfl, .inl ⟨rfl, hkind _⟩, hstarts.symm, .inl rfl⟩
  | warm hdone =>
    have hstarts : d.startsWait t = false := by simp [Driver.startsWait, ht, hdone]
    exact ⟨_, rfl, rfl, .inl ⟨rfl, hkind _⟩, hstarts.symm, .inl rfl⟩
  | woken _ htoken =>
    exact ⟨_, rfl, rfl, .inl ⟨rfl, hkind _⟩, hstarts.symm, .inr ⟨by rw [ht]; rfl, htoken, rfl⟩⟩
  | interrupted | failed | ends | error | dry | again | signalled | faults =>
    exact ⟨_, rfl, rfl, .inr ⟨rfl, rfl⟩, hstarts.symm, .inl rfl⟩
  | healthy | locks | reads | unlocks | retries | copies =>
    exact ⟨_, rfl, rfl, .inl ⟨rfl, hkind _⟩, hstarts.symm, .inl rfl⟩

/-- Every step of a task is such a move, of a task that is in a call. -/
lemma step_moves (h : d.step (.step t input) = some (o, d')) :
    (d.tasks t).kind ≠ .idle ∧ ∃ task, TaskMove d t o d' task := by
  cases driverStep_cases h with
  | hwrng ht h => exact ⟨by rw [ht]; nofun, h.taskMove ht⟩
  | char ht h => exact ⟨by rw [ht]; nofun, h.taskMove ht⟩
  | ioctl ht h =>
    have hstarts := startsWait_of_tasks ht
    refine ⟨by rw [ht]; nofun, ?_⟩
    cases h with
    | locks => exact ⟨_, rfl, rfl, .inl ⟨rfl, by rw [ht]; rfl⟩, hstarts.symm, .inl rfl⟩
    | returns => exact ⟨_, rfl, rfl, .inr ⟨rfl, rfl⟩, hstarts.symm, .inl rfl⟩

end

/-! ### Steps of the driver in a session -/

lemma Session.endCall_eq (s : Session) (t : ℕ) (o : Output) :
    ∃ calls, s.endCall t o = { s with calls } := by
  rw [Session.endCall]
  split
  · exact ⟨_, rfl⟩
  · exact ⟨s.calls, rfl⟩

/-- A step of the driver, on completions that never run out after `complete_all`. -/
lemma Session.onDriver_cases {s s' : Session} {a : Action} {o : Output}
    (h : s.onDriver a = some (o, s')) : ∃ (n n' : ℕ) (d' : Driver),
      ({ s.driver with completions := n } : Driver).step a = some (o, d') ∧
      s' = { s with driver := { d' with completions := n' } } ∧
      (s.completedAll = true ∧ n' = s.driver.completions ∨
        n = s.driver.completions ∧ n' = d'.completions) := by
  rw [Session.onDriver] at h
  split at h
  · rename_i hall
    obtain ⟨⟨o', d'⟩, hstep, heq⟩ := Option.map_eq_some_iff.mp h
    obtain ⟨rfl, rfl⟩ := Prod.mk.inj heq
    exact ⟨_, _, d', hstep, rfl, .inl ⟨hall, rfl⟩⟩
  · obtain ⟨⟨o', d'⟩, hstep, heq⟩ := Option.map_eq_some_iff.mp h
    obtain ⟨rfl, rfl⟩ := Prod.mk.inj heq
    exact ⟨_, _, d', hstep, rfl, .inr ⟨rfl, rfl⟩⟩

end Kernel
