import Infnoise.Kernel.ReadData
import Infnoise.Keccak.Sources

/-!
# The kernel driver

Model of the warm-up work, the two read paths and the ioctls of `infnoise_main.c` on one device
that stays plugged in, from the end of `infnoise_probe` on. Any number of tasks run the read paths
and the ioctls; each step is one access to what they share, and `infnoise_read_data` under the lock
is one step. A step is `none` when the task is blocked, or when the doubling loop does not end.
-/

namespace Kernel

open Core

@[simp] def infnoiseWarmupRounds : ℕ := 5000

/-- A call of `infnoise_hwrng_read`, with the mode it found at its start. -/
structure HwrngCall where
  max : ℕ
  wait : Bool
  raw : Bool

/-- Where `infnoise_hwrng_read` stands. -/
inductive HwrngPc where
  | entered
  | waiting
  | warmupTest
  | failTest
  | locking
  | locked
  | unlocking (ret : Except Errno ℕ) (data : ℕ → Byte)
  | returning (ret : Except Errno ℕ) (data : ℕ → Byte)

/-- A call of `infnoise_char_read`. -/
structure CharCall where
  count : ℕ
  nonblock : Bool

/-- Where `infnoise_char_read` stands; `total` bytes are copied out. -/
inductive CharPc where
  | entered
  | waiting
  | failTest
  | loop (total : ℕ)
  | locked (total : ℕ)
  | unlocking (total : ℕ) (ret : Except Errno ℕ) (data : ℕ → Byte)
  | copying (total : ℕ) (ret : Except Errno ℕ) (data : ℕ → Byte)

/-- What a task does. The ioctls that read the health checker take the lock for it; what they copy
out are no random bytes. -/
inductive Task where
  | idle
  | hwrng (call : HwrngCall) (pc : HwrngPc)
  | char (call : CharCall) (pc : CharPc)
  | ioctl (locked : Bool)

/-- Where the warm-up work stands. -/
inductive WarmupPc where
  | scheduled
  | running (rounds : ℕ)
  | checking (rounds : ℕ)
  | completing
  | finished

/-- The device, the module parameters, and what the tasks share. -/
structure Driver where
  dev : Device
  multiplier : ℕ
  infnoiseRawMode : Bool
  rawMode : Bool
  warmupDone : Bool
  completions : ℕ
  locked : Bool
  warmup : WarmupPc
  tasks : ℕ → Task

/-- What a step meets: the answers of the device, the buffer to fill, whether a signal is pending
and how many bytes `copy_to_user` copies. -/
structure StepInput where
  scripts : ℕ → AttemptScript
  buffer : ℕ → Byte
  signal : Bool
  copied : ℕ

inductive Action where
  | warmup (scripts : ℕ → AttemptScript) (discard : ℕ → Byte)
  | hwrngRead (task max : ℕ) (wait : Bool)
  | charRead (task count : ℕ) (nonblock : Bool)
  | ioctlSetRaw (raw : Bool)
  | ioctlGet (task : ℕ)
  | setParameters (multiplier : ℕ) (rawMode : Bool)
  | step (task : ℕ) (input : StepInput)

/-- The bytes a step hands to a reader, and what the call returns when it ends. -/
structure Output where
  delivered : List Byte
  returned : Option (Except Errno ℕ)

/-- A step that hands out nothing and does not end a call. -/
def Output.silent : Output := ⟨[], none⟩

/-- The first bytes of a buffer. -/
def bufferBytes (buffer : ℕ → Byte) (n : ℕ) : List Byte := (List.range n).map buffer

/-- The bytes a result of `infnoise_read_data` stands for. -/
def deliveredBytes (ret : Except Errno ℕ) (data : ℕ → Byte) : List Byte :=
  match ret with
  | .ok n => bufferBytes data n
  | .error _ => []

namespace Driver

/-- Move a task on. -/
def setTask (d : Driver) (t : ℕ) (task : Task) : Driver :=
  { d with tasks := Function.update d.tasks t task }

@[simp] lemma setTask_tasks (d : Driver) (t : ℕ) (task : Task) :
    (d.setTask t task).tasks t = task := Function.update_self ..

lemma setTask_tasks_of_ne (d : Driver) {t t' : ℕ} (h : t' ≠ t) (task : Task) :
    (d.setTask t task).tasks t' = d.tasks t' := Function.update_of_ne h ..

lemma setTask_setTask (d : Driver) (t : ℕ) (task task' : Task) :
    (d.setTask t task).setTask t task' = d.setTask t task' := by
  rw [setTask, setTask, setTask, Function.update_idem]

def goto (d : Driver) (t : ℕ) (task : Task) : Option (Output × Driver) :=
  some (.silent, d.setTask t task)

/-- A call returns. -/
def finish (d : Driver) (t : ℕ) (ret : Except Errno ℕ) (delivered : List Byte) :
    Option (Output × Driver) :=
  some (⟨delivered, some ret⟩, d.setTask t .idle)

/-- `mutex_lock`. -/
def lock (d : Driver) (t : ℕ) (task : Task) : Option (Output × Driver) :=
  if d.locked then none else { d with locked := true }.goto t task

/-- `mutex_unlock`. -/
def unlock (d : Driver) (t : ℕ) (task : Task) : Option (Output × Driver) :=
  { d with locked := false }.goto t task

/-- `wait_for_completion_interruptible`. -/
def waitForCompletion (d : Driver) (t : ℕ) (signal : Bool) (task : Task) :
    Option (Output × Driver) :=
  if signal then d.finish t (.error .erestartsys) []
  else if d.completions = 0 then none
  else { d with completions := d.completions - 1 }.goto t task

/-- `infnoise_read_data` under the lock. -/
def readData (d : Driver) (t : ℕ) (input : StepInput) (maxLen : ℕ) (raw : Bool)
    (task : Except Errno ℕ → (ℕ → Byte) → Task) : Option (Output × Driver) :=
  (infnoiseReadData d.dev d.multiplier input.scripts input.buffer maxLen raw).map fun r =>
    (.silent, { d with dev := r.dev }.setTask t (task r.ret r.result))

/-- `infnoise_hwrng_read`. -/
def hwrngStep (d : Driver) (t : ℕ) (input : StepInput) (call : HwrngCall) :
    HwrngPc → Option (Output × Driver)
  | .entered =>
    if !d.dev.present then d.finish t (.error .enodev) []
    else if call.wait && !d.warmupDone then d.goto t (.hwrng call .waiting)
    else d.goto t (.hwrng call .warmupTest)
  | .waiting => d.waitForCompletion t input.signal (.hwrng call .warmupTest)
  | .warmupTest =>
    if !d.warmupDone then d.finish t (.ok 0) [] else d.goto t (.hwrng call .failTest)
  | .failTest =>
    if d.dev.healthFail then d.finish t (.error .eio) [] else d.goto t (.hwrng call .locking)
  | .locking => d.lock t (.hwrng call .locked)
  | .locked => d.readData t input call.max call.raw fun ret data => .hwrng call (.unlocking ret data)
  | .unlocking ret data => d.unlock t (.hwrng call (.returning ret data))
  | .returning ret data => d.finish t ret (deliveredBytes ret data)

/-- `infnoise_char_read`. -/
def charStep (d : Driver) (t : ℕ) (input : StepInput) (call : CharCall) :
    CharPc → Option (Output × Driver)
  | .entered =>
    if !d.warmupDone then
      if call.nonblock then d.finish t (.error .eagain) [] else d.goto t (.char call .waiting)
    else d.goto t (.char call .failTest)
  | .waiting => d.waitForCompletion t input.signal (.char call .failTest)
  | .failTest =>
    if d.dev.healthFail then d.finish t (.error .eio) [] else d.goto t (.char call (.loop 0))
  | .loop total =>
    if total < call.count then d.lock t (.char call (.locked total)) else d.finish t (.ok total) []
  | .locked total =>
    d.readData t input (min (call.count - total) 128) (d.infnoiseRawMode || d.rawMode)
      fun ret data => .char call (.unlocking total ret data)
  | .unlocking total ret data => d.unlock t (.char call (.copying total ret data))
  | .copying total (.error e) _ => d.finish t (if total ≠ 0 then .ok total else .error e) []
  | .copying total (.ok 0) _ =>
    if total > 0 then d.finish t (.ok total) []
    else if call.nonblock then d.finish t (.error .eagain) []
    else if input.signal then d.finish t (.error .erestartsys) []
    else d.goto t (.char call (.loop total))
  | .copying total (.ok (n + 1)) data =>
    if input.copied < n + 1 then d.finish t (.error .efault) (bufferBytes data input.copied)
    else
      some (⟨bufferBytes data (n + 1), none⟩, d.setTask t (.char call (.loop (total + (n + 1)))))

/-- `INFNOISE_GET_STATS` and `INFNOISE_GET_ENTROPY`. -/
def ioctlStep (d : Driver) (t : ℕ) : Bool → Option (Output × Driver)
  | false => d.lock t (.ioctl true)
  | true => { d with locked := false }.finish t (.ok 0) []

/-- `infnoise_warmup_work`. -/
def warmupStep (d : Driver) (scripts : ℕ → AttemptScript) (discard : ℕ → Byte) :
    Option (Output × Driver) :=
  match d.warmup with
  | .scheduled =>
    if d.locked then none else some (.silent, { d with locked := true, warmup := .running 0 })
  | .running rounds =>
    if !infnoiseHealthOk d.dev.health && decide (rounds < infnoiseWarmupRounds) && d.dev.present then
      (infnoiseReadData d.dev d.multiplier scripts discard 64 true).map fun r =>
        (.silent, { d with dev := r.dev, warmup := .running (rounds + 1) })
    else some (.silent, { d with locked := false, warmup := .checking rounds })
  | .checking rounds =>
    if !d.dev.present then some (.silent, { d with warmup := .finished })
    else if rounds ≥ infnoiseWarmupRounds then
      some (.silent, { d with dev := { d.dev with healthFail := true }, warmup := .completing })
    else some (.silent, { d with warmupDone := true, warmup := .completing })
  | .completing => some (.silent, { d with completions := d.completions + 1, warmup := .finished })
  | .finished => none

/-- A step of the driver. -/
def step (d : Driver) : Action → Option (Output × Driver)
  | .warmup scripts discard => d.warmupStep scripts discard
  | .hwrngRead t max wait =>
    match d.tasks t with
    | .idle => d.goto t (.hwrng ⟨max, wait, d.infnoiseRawMode || d.rawMode⟩ .entered)
    | _ => none
  | .charRead t count nonblock =>
    match d.tasks t with
    | .idle => d.goto t (.char ⟨count, nonblock⟩ .entered)
    | _ => none
  | .ioctlSetRaw raw => some (.silent, { d with rawMode := raw })
  | .ioctlGet t =>
    match d.tasks t with
    | .idle => d.goto t (.ioctl false)
    | _ => none
  | .setParameters multiplier rawMode =>
    some (.silent, { d with multiplier, infnoiseRawMode := rawMode })
  | .step t input =>
    match d.tasks t with
    | .idle => none
    | .hwrng call pc => d.hwrngStep t input call pc
    | .char call pc => d.charStep t input call pc
    | .ioctl locked => d.ioctlStep t locked

end Driver

/-- The driver at the end of `infnoise_probe`, on buffers that hold anything. -/
def infnoiseProbe (clockBuf usbBuf readBuf outBuf : ℕ → Byte) (multiplier : ℕ) (rawMode : Bool) :
    Driver where
  dev :=
    { clockBuf := infnoisePrepareClockBuffer clockBuf
      usbBuf
      readBuf
      outBuf
      health := infnoiseHealthInit
      keccak := infnoiseKeccakInit
      keccakBytesLeft := 0
      present := true
      healthFail := false
      bytesGenerated := 0
      usbErrors := 0
      consecutiveErrors := 0
      recoveries := 0 }
  multiplier
  infnoiseRawMode := rawMode
  rawMode := false
  warmupDone := false
  completions := 0
  locked := false
  warmup := .scheduled
  tasks := fun _ => .idle

/-- The driver of the examples. -/
def probed : Driver :=
  infnoiseProbe (fun _ => 0) (fun _ => 0) (fun _ => 0) (fun _ => 0) 1 false

end Kernel
