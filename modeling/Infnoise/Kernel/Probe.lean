import Infnoise.Core.Machine
import Infnoise.Core.Ownership
import Infnoise.Kernel.Device
import Mathlib.Algebra.Order.BigOperators.Group.List
import Mathlib.Data.Multiset.OrderedMonoid
import Mathlib.Tactic.Abel

/-!
# Probe and disconnect

Model of `infnoise_probe` and `infnoise_disconnect` on any number of devices, with what they acquire
and release: memory, references to the USB devices, minors and hwrngs. Every allocation can fail,
and so can everything that is asked of the device or of the kernel. The pointers of a device are the
data of its interface from the registration on; when a probe fails, the USB core clears that data.
-/

namespace Kernel

open Core

/-! ### The code -/

/-- What memory is allocated by. -/
inductive Memory where
  | kmalloc
  | vmalloc
  deriving DecidableEq

/-- The tables of `struct infnoise_health`. -/
structure HealthTables where
  onesEven : Option ℕ
  zerosEven : Option ℕ
  onesOdd : Option ℕ
  zerosOdd : Option ℕ
  deriving DecidableEq

/-- The address of a `struct infnoise_device`, the pointers in it, and whether its hwrng is
registered. -/
structure DeviceMemory where
  dev : ℕ
  clockBuf : Option ℕ
  usbBuf : Option ℕ
  readBuf : Option ℕ
  outBuf : Option ℕ
  health : HealthTables
  hwrngReg : Bool
  deriving DecidableEq

/-- What a probe meets: which allocations succeed, and the errors of what can fail otherwise. -/
structure ProbeScript where
  endpoints : Option Errno
  dev : Bool
  clockBuf : Bool
  usbBuf : Bool
  readBuf : Bool
  outBuf : Bool
  onesEven : Bool
  zerosEven : Bool
  onesOdd : Bool
  zerosOdd : Bool
  configure : FtdiAnswers
  testBuf : Bool
  testWrite : Option Errno
  testRead : Option Errno
  register : Option Errno
  hwrngRegister : Option Errno

/-- `-ENOMEM`. -/
def enomem : Errno := .other 12

/-- `infnoise_health_free`. -/
def infnoiseHealthFree (health : HealthTables) (heap : Heap Memory) :
    Option (HealthTables × Heap Memory) := do
  let heap ← heap.release .vmalloc health.onesEven
  let heap ← heap.release .vmalloc health.zerosEven
  let heap ← heap.release .vmalloc health.onesOdd
  let heap ← heap.release .vmalloc health.zerosOdd
  return (⟨none, none, none, none⟩, heap)

/-- The allocations of `infnoise_health_init`. -/
def allocateTables (A : Allocator Memory) (script : ProbeScript) (heap : Heap Memory) :
    HealthTables × Heap Memory :=
  let (onesEven, heap) := heap.allocate A .vmalloc script.onesEven
  let (zerosEven, heap) := heap.allocate A .vmalloc script.zerosEven
  let (onesOdd, heap) := heap.allocate A .vmalloc script.onesOdd
  let (zerosOdd, heap) := heap.allocate A .vmalloc script.zerosOdd
  (⟨onesEven, zerosEven, onesOdd, zerosOdd⟩, heap)

/-- `infnoise_health_init`: its error, the tables and the heap. -/
def initHealthTables (A : Allocator Memory) (script : ProbeScript) (heap : Heap Memory) :
    Option (Option Errno × HealthTables × Heap Memory) :=
  let (health, heap) := allocateTables A script heap
  if health.onesEven.isNone || health.zerosEven.isNone || health.onesOdd.isNone ||
      health.zerosOdd.isNone then
    (infnoiseHealthFree health heap).map fun r => (some enomem, r)
  else some (none, health, heap)

/-- `infnoise_test_transfer`: its error, and the heap. -/
def infnoiseTestTransfer (A : Allocator Memory) (script : ProbeScript) (heap : Heap Memory) :
    Option (Option Errno × Heap Memory) :=
  match heap.allocate A .kmalloc script.testBuf with
  | (none, heap) => some (some enomem, heap)
  | (some testBuf, heap) =>
    match script.testWrite with
    | some e => (heap.release .kmalloc (some testBuf)).map fun heap => (some e, heap)
    | none =>
      match script.testRead with
      | some e => (heap.release .kmalloc (some testBuf)).map fun heap => (some e, heap)
      | none => (heap.release .kmalloc (some testBuf)).map fun heap => (none, heap)

/-- The kernel memory, how often each USB device is referred to, the data of the interfaces that are
bound, the minors and the hwrngs that are registered. An interface stands for its device. -/
structure Bus where
  heap : Heap Memory
  refs : ℕ → ℕ
  intfdata : List (ℕ × DeviceMemory)
  minors : List ℕ
  hwrngs : List ℕ

namespace Bus

def empty : Bus := ⟨⟨∅, []⟩, fun _ => 0, [], [], []⟩

def usbGetDev (b : Bus) (intf : ℕ) : Bus :=
  { b with refs := Function.update b.refs intf (b.refs intf + 1) }

/-- `usb_put_dev`, which has no result when there is no reference. -/
def usbPutDev (b : Bus) (intf : ℕ) : Option Bus :=
  if b.refs intf = 0 then none
  else some { b with refs := Function.update b.refs intf (b.refs intf - 1) }

/-- `err_buffers`. -/
def errBuffers (b : Bus) (intf : ℕ) (dev : DeviceMemory) : Option Bus := do
  let heap ← b.heap.release .kmalloc dev.clockBuf
  let heap ← heap.release .kmalloc dev.usbBuf
  let heap ← heap.release .kmalloc dev.readBuf
  let heap ← heap.release .kmalloc dev.outBuf
  let b ← { b with heap }.usbPutDev intf
  let heap ← b.heap.release .kmalloc (some dev.dev)
  return { b with heap }

/-- `err_health`. -/
def errHealth (b : Bus) (intf : ℕ) (dev : DeviceMemory) : Option Bus := do
  let (health, heap) ← infnoiseHealthFree dev.health b.heap
  { b with heap }.errBuffers intf { dev with health }

/-- `infnoise_hwrng_register`. -/
def infnoiseHwrngRegister (b : Bus) (dev : DeviceMemory) (script : ProbeScript) :
    DeviceMemory × Bus :=
  match script.hwrngRegister with
  | some _ => (dev, b)
  | none => ({ dev with hwrngReg := true }, { b with hwrngs := dev.dev :: b.hwrngs })

/-- `infnoise_hwrng_unregister`, which has no result when the hwrng is not registered. -/
def infnoiseHwrngUnregister (b : Bus) (dev : DeviceMemory) : Option (DeviceMemory × Bus) :=
  if dev.hwrngReg then
    if dev.dev ∈ b.hwrngs then
      some ({ dev with hwrngReg := false }, { b with hwrngs := b.hwrngs.erase dev.dev })
    else none
  else some (dev, b)

/-- `infnoise_probe` from the configuration of the device on. -/
def probeDevice (A : Allocator Memory) (script : ProbeScript) (b : Bus) (intf : ℕ)
    (dev : DeviceMemory) : Option (Option Errno × Bus) :=
  match (infnoiseConfigureFtdi script.configure).2 with
  | some e => (b.errHealth intf dev).map fun b => (some e, b)
  | none =>
    (infnoiseTestTransfer A script b.heap).bind fun (error, heap) =>
      match error, script.register with
      | some e, _ | none, some e => ({ b with heap }.errHealth intf dev).map fun b => (some e, b)
      | none, none =>
        let (dev, b) := { b with heap, minors := intf :: b.minors }.infnoiseHwrngRegister dev script
        some (none, { b with intfdata := (intf, dev) :: b.intfdata })

/-- `infnoise_probe`: its error, and the bus after it. -/
def infnoiseProbe (A : Allocator Memory) (script : ProbeScript) (b : Bus) (intf : ℕ) :
    Option (Option Errno × Bus) :=
  match script.endpoints with
  | some e => some (some e, b)
  | none =>
    match b.heap.allocate A .kmalloc script.dev with
    | (none, heap) => some (some enomem, { b with heap })
    | (some dev, heap) =>
      let b := { b with heap }.usbGetDev intf
      let (clockBuf, heap) := b.heap.allocate A .kmalloc script.clockBuf
      let (usbBuf, heap) := heap.allocate A .kmalloc script.usbBuf
      let (readBuf, heap) := heap.allocate A .kmalloc script.readBuf
      let (outBuf, heap) := heap.allocate A .kmalloc script.outBuf
      let b := { b with heap }
      let dev := ⟨dev, clockBuf, usbBuf, readBuf, outBuf, ⟨none, none, none, none⟩, false⟩
      if clockBuf.isNone || usbBuf.isNone || readBuf.isNone || outBuf.isNone then
        (b.errBuffers intf dev).map fun b => (some enomem, b)
      else
        (initHealthTables A script b.heap).bind fun (error, health, heap) =>
          let b := { b with heap }
          let dev := { dev with health }
          match error with
          | some e => (b.errBuffers intf dev).map fun b => (some e, b)
          | none => b.probeDevice A script intf dev

/-- `infnoise_disconnect`; its last lines are those of `err_health`. -/
def infnoiseDisconnect (b : Bus) (intf : ℕ) : Option Bus :=
  match b.intfdata.lookup intf with
  | none => some b
  | some dev => do
    let (dev', b) ← b.infnoiseHwrngUnregister dev
    if intf ∈ b.minors then
      let b := { b with
        minors := b.minors.erase intf
        intfdata := b.intfdata.erase (intf, dev) }
      b.errHealth intf dev'
    else none

/-- What the USB core asks of the driver. -/
inductive Action where
  | probe (intf : ℕ) (script : ProbeScript)
  | disconnect (intf : ℕ)

inductive Answer where
  | probed (error : Option Errno)
  | disconnected
  deriving DecidableEq

/-- The USB core probes an interface that is not bound. -/
def Action.Enabled (b : Bus) : Action → Prop
  | .probe intf _ => (b.intfdata.lookup intf).isNone
  | .disconnect _ => True

/-- What the driver does when it is asked to; no result when a pointer is freed that is not to such
memory, or something is put back or unregistered that is not there. -/
def step (A : Allocator Memory) (b : Bus) : Action → Option (Answer × Bus)
  | .probe intf script =>
    if (b.intfdata.lookup intf).isNone then
      (b.infnoiseProbe A script intf).map fun (error, b) => (.probed error, b)
    else none
  | .disconnect intf => (b.infnoiseDisconnect intf).map fun b => (.disconnected, b)

end Bus

/-! ### The memory of a device -/

namespace HealthTables

/-- The cells that the tables are in. -/
def cells (health : HealthTables) : Multiset (ℕ × Memory) :=
  cell .vmalloc health.onesEven + (cell .vmalloc health.zerosEven +
    (cell .vmalloc health.onesOdd + cell .vmalloc health.zerosOdd))

@[simp] lemma cells_null : (⟨none, none, none, none⟩ : HealthTables).cells = 0 := by
  simp [cells]

end HealthTables

namespace DeviceMemory

/-- The cells of the buffers, and of the device itself. -/
def buffers (dev : DeviceMemory) : Multiset (ℕ × Memory) :=
  cell .kmalloc dev.clockBuf + (cell .kmalloc dev.usbBuf + (cell .kmalloc dev.readBuf +
    (cell .kmalloc dev.outBuf + cell .kmalloc (some dev.dev))))

/-- The cells that a device has. -/
def cells (dev : DeviceMemory) : Multiset (ℕ × Memory) := dev.health.cells + dev.buffers

/-- No pointer of the device is null. -/
def Complete (dev : DeviceMemory) : Prop :=
  dev.clockBuf.isSome ∧ dev.usbBuf.isSome ∧ dev.readBuf.isSome ∧ dev.outBuf.isSome ∧
    dev.health.onesEven.isSome ∧ dev.health.zerosEven.isSome ∧ dev.health.onesOdd.isSome ∧
      dev.health.zerosOdd.isSome

@[simp] lemma buffers_health (dev : DeviceMemory) (health : HealthTables) :
    { dev with health }.buffers = dev.buffers := rfl

@[simp] lemma cells_hwrngReg (dev : DeviceMemory) (hwrngReg : Bool) :
    { dev with hwrngReg }.cells = dev.cells := rfl

lemma mem_cells (dev : DeviceMemory) : (dev.dev, Memory.kmalloc) ∈ dev.cells := by
  simp [cells, buffers]

end DeviceMemory

section Steps

variable {A : Allocator Memory} {script : ProbeScript} {heap : Heap Memory} {b : Bus} {intf : ℕ}
  {dev : DeviceMemory} {m : Multiset (ℕ × Memory)}

/-- `infnoise_health_free` frees the tables that there are. -/
lemma infnoiseHealthFree_owns {health : HealthTables} (ho : heap.Owns (health.cells + m)) :
    ∃ heap', infnoiseHealthFree health heap = some (⟨none, none, none, none⟩, heap') ∧
      heap'.Owns m := by
  simp only [HealthTables.cells, add_assoc] at ho
  obtain ⟨heap₁, h₁, ho⟩ := ho.release
  obtain ⟨heap₂, h₂, ho⟩ := ho.release
  obtain ⟨heap₃, h₃, ho⟩ := ho.release
  obtain ⟨heap₄, h₄, ho⟩ := ho.release
  exact ⟨heap₄, by simp [infnoiseHealthFree, h₁, h₂, h₃, h₄], ho⟩

lemma allocateTables_owns (A : Allocator Memory) (script : ProbeScript) (ho : heap.Owns m) :
    (allocateTables A script heap).2.Owns ((allocateTables A script heap).1.cells + m) := by
  rcases h₁ : heap.allocate A .vmalloc script.onesEven with ⟨onesEven, heap₁⟩
  rcases h₂ : heap₁.allocate A .vmalloc script.zerosEven with ⟨zerosEven, heap₂⟩
  rcases h₃ : heap₂.allocate A .vmalloc script.onesOdd with ⟨onesOdd, heap₃⟩
  rcases h₄ : heap₃.allocate A .vmalloc script.zerosOdd with ⟨zerosOdd, heap₄⟩
  have hcells := (((ho.of_allocate h₁).of_allocate h₂).of_allocate h₃).of_allocate h₄
  simp only [allocateTables, h₁, h₂, h₃, h₄, HealthTables.cells]
  convert hcells using 1
  abel

/-- `infnoise_health_init` allocates all the tables, or none. -/
lemma initHealthTables_owns (A : Allocator Memory) (script : ProbeScript) (ho : heap.Owns m) :
    ∃ error health heap', initHealthTables A script heap = some (error, health, heap') ∧
      heap'.Owns (health.cells + m) ∧ (error.isSome → health = ⟨none, none, none, none⟩) ∧
        (error = none → health.onesEven.isSome ∧ health.zerosEven.isSome ∧
          health.onesOdd.isSome ∧ health.zerosOdd.isSome) := by
  have hcells := allocateTables_owns A script ho
  rcases htables : allocateTables A script heap with ⟨health, heap₁⟩
  rw [htables] at hcells
  simp only [initHealthTables, htables]
  split_ifs with hnull
  · obtain ⟨heap', hfree, ho'⟩ := infnoiseHealthFree_owns hcells
    refine ⟨some enomem, _, heap', by rw [hfree]; rfl, ?_, fun _ => rfl, (fun h => by cases h)⟩
    rwa [HealthTables.cells_null, zero_add]
  · refine ⟨none, health, heap₁, rfl, hcells, (fun h => by cases h), fun _ => ?_⟩
    simpa [Option.isNone_iff_eq_none, Option.isSome_iff_ne_none, and_assoc] using hnull

/-- `infnoise_test_transfer` frees its buffer, whatever the device answers. -/
lemma infnoiseTestTransfer_owns (A : Allocator Memory) (script : ProbeScript) (ho : heap.Owns m) :
    ∃ error heap', infnoiseTestTransfer A script heap = some (error, heap') ∧ heap'.Owns m := by
  rcases hbuf : heap.allocate A .kmalloc script.testBuf with ⟨_ | testBuf, heap₁⟩
  · have ho₁ := ho.of_allocate hbuf
    rw [cell_none, zero_add] at ho₁
    exact ⟨_, _, by rw [infnoiseTestTransfer, hbuf], ho₁⟩
  · obtain ⟨heap₂, hfree, ho₂⟩ := (ho.of_allocate hbuf).release
    simp only [infnoiseTestTransfer, hbuf]
    rcases script.testWrite with _ | e
    · rcases script.testRead with _ | e
      · exact ⟨_, heap₂, by simp only [hfree]; rfl, ho₂⟩
      · exact ⟨_, heap₂, by simp only [hfree]; rfl, ho₂⟩
    · exact ⟨_, heap₂, by simp only [hfree]; rfl, ho₂⟩

/-- `err_buffers` frees the buffers and the device, and puts the USB device back. -/
lemma Bus.errBuffers_owns (dev : DeviceMemory) (hrefs : b.refs intf ≠ 0)
    (ho : b.heap.Owns (dev.buffers + m)) :
    ∃ heap', b.errBuffers intf dev = some { b with
      heap := heap'
      refs := Function.update b.refs intf (b.refs intf - 1) } ∧ heap'.Owns m := by
  simp only [DeviceMemory.buffers, add_assoc] at ho
  obtain ⟨heap₁, h₁, ho⟩ := ho.release
  obtain ⟨heap₂, h₂, ho⟩ := ho.release
  obtain ⟨heap₃, h₃, ho⟩ := ho.release
  obtain ⟨heap₄, h₄, ho⟩ := ho.release
  obtain ⟨heap₅, h₅, ho⟩ := ho.release
  exact ⟨heap₅, by simp [errBuffers, usbPutDev, hrefs, h₁, h₂, h₃, h₄, h₅], ho⟩

/-- `err_health` frees all that a device has, and puts the USB device back. -/
lemma Bus.errHealth_owns (dev : DeviceMemory) (hrefs : b.refs intf ≠ 0)
    (ho : b.heap.Owns (dev.cells + m)) :
    ∃ heap', b.errHealth intf dev = some { b with
      heap := heap'
      refs := Function.update b.refs intf (b.refs intf - 1) } ∧ heap'.Owns m := by
  rw [DeviceMemory.cells, add_assoc] at ho
  obtain ⟨heap₁, hfree, ho⟩ := infnoiseHealthFree_owns ho
  obtain ⟨heap₂, hbuffers, ho⟩ :=
    Bus.errBuffers_owns (b := { b with heap := heap₁ }) { dev with health := _ } hrefs ho
  refine ⟨heap₂, ?_, ho⟩
  rw [errHealth, hfree]
  exact hbuffers

/-- What a probe leaves behind, where the heap is owned by `m` before it: nothing when it fails, and
a whole device that the interface is bound to when it does not. -/
inductive Bus.Probed (b : Bus) (intf : ℕ) (m : Multiset (ℕ × Memory)) : Option Errno → Bus → Prop
  | failed (e : Errno) (heap : Heap Memory) (ho : heap.Owns m) :
      Probed b intf m (some e) { b with heap }
  | bound (dev : DeviceMemory) (heap : Heap Memory) (ho : heap.Owns (dev.cells + m))
      (hcomplete : dev.Complete) :
      Probed b intf m none { b with
        heap
        refs := Function.update b.refs intf (b.refs intf + 1)
        intfdata := (intf, dev) :: b.intfdata
        minors := intf :: b.minors
        hwrngs := if dev.hwrngReg then dev.dev :: b.hwrngs else b.hwrngs }

/-- The error path of a probe undoes what the probe did. -/
lemma Bus.Probed.of_error (e : Errno) {heap' : Heap Memory} (ho' : heap'.Owns m) :
    b.Probed intf m (some e) { b.usbGetDev intf with
      heap := heap'
      refs := Function.update (b.usbGetDev intf).refs intf ((b.usbGetDev intf).refs intf - 1) } := by
  have hrefs : Function.update (b.usbGetDev intf).refs intf ((b.usbGetDev intf).refs intf - 1) =
      b.refs := by
    simp [usbGetDev]
  rw [hrefs]
  exact .failed e heap' ho'

lemma Bus.usbGetDev_refs_ne (b : Bus) (intf : ℕ) : (b.usbGetDev intf).refs intf ≠ 0 := by
  simp [usbGetDev]

/-- From the configuration on, a device is bound, or all that it has is freed. -/
lemma Bus.probeDevice_spec (A : Allocator Memory) (script : ProbeScript)
    (ho : heap.Owns (dev.cells + m)) (hcomplete : dev.Complete) (hreg : dev.hwrngReg = false) :
    ∃ error b', ({ b.usbGetDev intf with heap }).probeDevice A script intf dev = some (error, b') ∧
      b.Probed intf m error b' := by
  have hrefs : ({ b.usbGetDev intf with heap }).refs intf ≠ 0 := b.usbGetDev_refs_ne intf
  rw [probeDevice]
  rcases (infnoiseConfigureFtdi script.configure).2 with _ | e
  · obtain ⟨error, heap₁, htest, ho₁⟩ := infnoiseTestTransfer_owns A script ho
    simp only [htest, Option.bind_some]
    have hfails : ∀ e, ∃ error b', (({ b.usbGetDev intf with heap := heap₁ }).errHealth intf
        dev).map (fun b => (some e, b)) = some (error, b') ∧ b.Probed intf m error b' := by
      intro e
      obtain ⟨heap₂, herr, ho₂⟩ :=
        Bus.errHealth_owns (b := { b.usbGetDev intf with heap := heap₁ }) dev hrefs ho₁
      exact ⟨some e, _, by rw [herr]; rfl, .of_error e ho₂⟩
    rcases error with _ | e
    · rcases script.register with _ | e
      · rcases hhwrng : script.hwrngRegister with _ | e
        · refine ⟨none, _, rfl, ?_⟩
          simp only [infnoiseHwrngRegister, hhwrng]
          exact .bound { dev with hwrngReg := true } heap₁ ho₁ hcomplete
        · refine ⟨none, _, rfl, ?_⟩
          simp only [infnoiseHwrngRegister, hhwrng]
          have hbound : b.Probed intf m none _ := .bound dev heap₁ ho₁ hcomplete
          rwa [hreg] at hbound
      · exact hfails e
    · exact hfails e
  · obtain ⟨heap₂, herr, ho₂⟩ :=
      Bus.errHealth_owns (b := { b.usbGetDev intf with heap }) dev hrefs ho
    exact ⟨some e, _, by simp only [herr]; rfl, .of_error e ho₂⟩

/-- A probe returns, and frees just what is its own. -/
lemma Bus.infnoiseProbe_spec (A : Allocator Memory) (script : ProbeScript) (intf : ℕ)
    (ho : b.heap.Owns m) :
    ∃ error b', b.infnoiseProbe A script intf = some (error, b') ∧ b.Probed intf m error b' := by
  rw [infnoiseProbe]
  rcases script.endpoints with _ | e
  · rcases hdev : b.heap.allocate A .kmalloc script.dev with ⟨_ | dev, heap₀⟩
    · have ho₀ := ho.of_allocate hdev
      rw [cell_none, zero_add] at ho₀
      exact ⟨_, _, rfl, .failed enomem heap₀ ho₀⟩
    · rcases h₁ : heap₀.allocate A .kmalloc script.clockBuf with ⟨clockBuf, heap₁⟩
      rcases h₂ : heap₁.allocate A .kmalloc script.usbBuf with ⟨usbBuf, heap₂⟩
      rcases h₃ : heap₂.allocate A .kmalloc script.readBuf with ⟨readBuf, heap₃⟩
      rcases h₄ : heap₃.allocate A .kmalloc script.outBuf with ⟨outBuf, heap₄⟩
      have ho₄ : heap₄.Owns ((⟨dev, clockBuf, usbBuf, readBuf, outBuf, ⟨none, none, none, none⟩,
          false⟩ : DeviceMemory).buffers + m) := by
        have hcells := ((((ho.of_allocate hdev).of_allocate h₁).of_allocate h₂).of_allocate
          h₃).of_allocate h₄
        simp only [DeviceMemory.buffers]
        convert hcells using 1
        abel
      simp only [usbGetDev, h₁, h₂, h₃, h₄]
      split_ifs with hnull
      · obtain ⟨heap₅, herr, ho₅⟩ :=
          Bus.errBuffers_owns (b := { b.usbGetDev intf with heap := heap₄ }) _
            (b.usbGetDev_refs_ne intf) ho₄
        exact ⟨some enomem, _, congrArg (Option.map fun b => (some enomem, b)) herr,
          .of_error enomem ho₅⟩
      · obtain ⟨error, health, heap₅, hinit, ho₅, hfailed, hinitialised⟩ :=
          initHealthTables_owns A script ho₄
        simp only [hinit, Option.bind_some]
        rcases error with _ | e
        · apply Bus.probeDevice_spec A script
          · rw [DeviceMemory.cells, add_assoc]
            exact ho₅
          · have hsome := hinitialised rfl
            simp only [Bool.or_eq_true, not_or, Option.isNone_iff_eq_none, ← ne_eq,
              ← Option.isSome_iff_ne_none] at hnull
            exact ⟨hnull.1.1.1, hnull.1.1.2, hnull.1.2, hnull.2, hsome⟩
          · rfl
        · obtain rfl := hfailed rfl
          rw [HealthTables.cells_null, zero_add] at ho₅
          obtain ⟨heap₆, herr, ho₆⟩ :=
            Bus.errBuffers_owns (b := { b.usbGetDev intf with heap := heap₅ }) _
              (b.usbGetDev_refs_ne intf) ho₅
          exact ⟨some e, _, congrArg (Option.map fun b => (some e, b)) herr, .of_error e ho₆⟩
  · exact ⟨some e, b, rfl, .failed e b.heap ho⟩

end Steps

/-! ### Runs of the bus -/

namespace Bus

/-- What is acquired, and not released, is that of the interfaces that are bound. -/
structure Balanced (b : Bus) : Prop where
  owned : b.heap.Owns (b.intfdata.map fun p => p.2.cells).sum
  complete : ∀ p ∈ b.intfdata, p.2.Complete
  nodup : (b.intfdata.map Prod.fst).Nodup
  refs : ∀ intf, b.refs intf = (b.intfdata.map Prod.fst).count intf
  minors : b.minors.Perm (b.intfdata.map Prod.fst)
  hwrngs : b.hwrngs.Perm ((b.intfdata.filter fun p => p.2.hwrngReg).map fun p => p.2.dev)

/-- Two buses with the same resources; only the log of the memory may be another one. -/
def SameResources (b b' : Bus) : Prop :=
  b'.heap.cells = b.heap.cells ∧ b'.refs = b.refs ∧ b'.intfdata = b.intfdata ∧
    b'.minors = b.minors ∧ b'.hwrngs = b.hwrngs

variable {A : Allocator Memory} {b b' : Bus} {intf : ℕ} {dev : DeviceMemory}

lemma balanced_empty : empty.Balanced where
  owned := Heap.owns_empty []
  complete := by simp [empty]
  nodup := by simp [empty]
  refs := by simp [empty]
  minors := by simp [empty]
  hwrngs := by simp [empty]

/-- The hwrngs that are registered are in memory that is allocated. -/
lemma Balanced.get_hwrng (hb : b.Balanced) {a : ℕ} (ha : a ∈ b.hwrngs) :
    b.heap.get a = some .kmalloc := by
  obtain ⟨p, hp, rfl⟩ := List.mem_map.mp (hb.hwrngs.mem_iff.mp ha)
  rw [hb.owned.get_iff]
  have hmem : p.2.cells ∈ b.intfdata.map fun p => p.2.cells :=
    List.mem_map.mpr ⟨p, (List.mem_filter.mp hp).1, rfl⟩
  exact Multiset.mem_of_le (List.le_sum_of_mem hmem) p.2.mem_cells

/-- Without a bound interface there is nothing to release. -/
lemma Balanced.released (hb : b.Balanced) (hnone : b.intfdata = []) :
    empty.SameResources b := by
  have howned := hb.owned
  rw [hnone, List.map_nil, List.sum_nil] at howned
  refine ⟨?_, ?_, hnone, ?_, ?_⟩
  · exact Heap.cells_eq_of_get_eq fun a => howned.get_eq (Heap.owns_empty []) a
  · funext intf
    rw [hb.refs, hnone]
    rfl
  · have hminors := hb.minors
    rw [hnone] at hminors
    exact hminors.eq_nil
  · have hhwrngs := hb.hwrngs
    rw [hnone] at hhwrngs
    exact hhwrngs.eq_nil

/-- A probe that fails leaves the resources as they were. -/
lemma Probed.sameResources {m : Multiset (ℕ × Memory)} {e : Errno} (ho : b.heap.Owns m)
    (h : b.Probed intf m (some e) b') : b.SameResources b' := by
  cases h with
  | failed _ heap ho' =>
    exact ⟨Heap.cells_eq_of_get_eq fun a => ho'.get_eq ho a, rfl, rfl, rfl, rfl⟩

lemma Probed.balanced {error : Option Errno} (hb : b.Balanced)
    (hfresh : (b.intfdata.lookup intf).isNone)
    (h : b.Probed intf (b.intfdata.map fun p => p.2.cells).sum error b') : b'.Balanced := by
  cases h with
  | failed e heap ho => exact { hb with owned := ho }
  | bound dev heap ho hcomplete =>
    have hnotMem : intf ∉ b.intfdata.map Prod.fst := by
      rw [Option.isNone_iff_eq_none, List.lookup_eq_none_iff] at hfresh
      intro hmem
      obtain ⟨p, hp, rfl⟩ := List.mem_map.mp hmem
      simpa using hfresh p hp
    constructor
    · simpa using ho
    · intro p hp
      rcases List.mem_cons.mp hp with rfl | hp
      · exact hcomplete
      · exact hb.complete p hp
    · exact List.nodup_cons.mpr ⟨hnotMem, hb.nodup⟩
    · intro i
      rw [List.map_cons, List.count_cons]
      by_cases hi : i = intf
      · subst hi
        simp [hb.refs]
      · simp [hb.refs, hi, Ne.symm hi]
    · exact hb.minors.cons intf
    · rcases hreg : dev.hwrngReg with _ | _
      · simpa [hreg] using hb.hwrngs
      · simpa [hreg] using hb.hwrngs

/-- When the interface is bound, what is left after `infnoise_disconnect` is that of the others. -/
lemma Balanced.infnoiseDisconnect (hb : b.Balanced) (intf : ℕ) :
    ∃ b', b.infnoiseDisconnect intf = some b' ∧ b'.Balanced := by
  rcases hlookup : b.intfdata.lookup intf with _ | dev
  · exact ⟨b, by rw [Bus.infnoiseDisconnect, hlookup], hb⟩
  · have hmem : (intf, dev) ∈ b.intfdata := by
      obtain ⟨l₁, l₂, hl, _⟩ := List.lookup_eq_some_iff.mp hlookup
      simp [hl]
    have hperm := List.perm_cons_erase hmem
    have hfst := hperm.map Prod.fst
    rw [List.map_cons] at hfst
    have hnodup := List.nodup_cons.mp (hfst.nodup_iff.mp hb.nodup)
    have hminors := hb.minors.trans hfst
    have howned : b.heap.Owns
        (dev.cells + ((b.intfdata.erase (intf, dev)).map fun p => p.2.cells).sum) := by
      have hsum := (hperm.map fun p => p.2.cells).sum_eq
      rw [List.map_cons, List.sum_cons] at hsum
      exact hsum ▸ hb.owned
    have hrefs : b.refs intf = 1 := by
      rw [hb.refs, hfst.count_eq, List.count_cons_self, List.count_eq_zero_of_not_mem hnodup.1]
    -- the hwrng of the device, if it has one, is taken from those that are registered
    have hunregister : ∃ dev' hwrngs, dev'.cells = dev.cells ∧
        b.infnoiseHwrngUnregister dev = some (dev', { b with hwrngs }) ∧
          hwrngs.Perm (((b.intfdata.erase (intf, dev)).filter fun p => p.2.hwrngReg).map
            fun p => p.2.dev) := by
      have hhwrngs := hb.hwrngs.trans ((hperm.filter _).map _)
      rw [List.filter_cons] at hhwrngs
      rcases hreg : dev.hwrngReg with _ | _
      · rw [if_neg (by simp [hreg])] at hhwrngs
        exact ⟨dev, b.hwrngs, rfl, by simp [infnoiseHwrngUnregister, hreg], hhwrngs⟩
      · rw [if_pos (by simp [hreg]), List.map_cons] at hhwrngs
        have hdev : dev.dev ∈ b.hwrngs := hhwrngs.mem_iff.mpr List.mem_cons_self
        refine ⟨{ dev with hwrngReg := false }, b.hwrngs.erase dev.dev, rfl, ?_, ?_⟩
        · simp [infnoiseHwrngUnregister, hreg, hdev]
        · simpa using hhwrngs.erase dev.dev
    obtain ⟨dev', hwrngs, hcells, hunreg, hhwrngs⟩ := hunregister
    have hne : b.refs intf ≠ 0 := by simp [hrefs]
    rw [← hcells] at howned
    obtain ⟨heap', herr, ho'⟩ := errHealth_owns
      (b := { b with
        hwrngs := hwrngs
        minors := b.minors.erase intf
        intfdata := b.intfdata.erase (intf, dev) })
      dev' hne howned
    refine ⟨{ b with
      heap := heap'
      refs := Function.update b.refs intf (b.refs intf - 1)
      hwrngs := hwrngs
      minors := b.minors.erase intf
      intfdata := b.intfdata.erase (intf, dev) }, ?_, ?_⟩
    · rw [Bus.infnoiseDisconnect, hlookup]
      simp only [hunreg, Option.bind_eq_bind, Option.bind_some]
      rw [if_pos (hminors.mem_iff.mpr List.mem_cons_self)]
      exact herr
    · refine ⟨ho', fun p hp => hb.complete p (List.mem_of_mem_erase hp), hnodup.2, fun i => ?_, ?_,
        hhwrngs⟩
      · by_cases hi : i = intf
        · subst hi
          simp [hrefs, List.count_eq_zero_of_not_mem hnodup.1]
        · have hcount := hfst.count_eq i
          rw [List.count_cons_of_ne (Ne.symm hi)] at hcount
          simp [hi, hb.refs, hcount]
      · simpa using hminors.erase intf

/-- The driver returns from what it is asked to, and keeps the balance. -/
lemma Balanced.step (hb : b.Balanced) (A : Allocator Memory) {act : Action} (hact : act.Enabled b) :
    ∃ r, b.step A act = some r ∧ r.2.Balanced ∧
      ∀ e, r.1 = .probed (some e) → b.SameResources r.2 := by
  cases act with
  | probe intf script =>
    obtain ⟨error, b', hprobe, hprobed⟩ := infnoiseProbe_spec A script intf hb.owned
    refine ⟨(.probed error, b'),
      by simp [Bus.step, show (b.intfdata.lookup intf).isNone from hact, hprobe],
      hprobed.balanced hb hact, fun e he => ?_⟩
    cases he
    exact hprobed.sameResources hb.owned
  | disconnect intf =>
    obtain ⟨b', hdisconnect, hb'⟩ := hb.infnoiseDisconnect intf
    exact ⟨(.disconnected, b'), by rw [Bus.step, hdisconnect]; rfl, hb', fun e he => by cases he⟩

/-- A step is only made when the USB core asks for it. -/
lemma enabled_of_step {act : Action} {r : Answer × Bus} (h : b.step A act = some r) :
    act.Enabled b := by
  cases act with
  | probe intf script =>
    rw [Bus.step] at h
    split_ifs at h with hnone
    exact hnone
  | disconnect intf => trivial

lemma run_balanced {cs : List (Call Bus Action Answer)} (h : Run (Bus.step A) empty cs b) :
    (∀ c ∈ cs, c.before.Balanced ∧ c.after.Balanced) ∧ b.Balanced := by
  apply h.invariant (I := Balanced) _ balanced_empty
  intro s act answer s' hstep hs
  obtain ⟨r, hr, hr', _⟩ := hs.step A (enabled_of_step hstep)
  obtain rfl := Option.some.inj (hr.symm.trans hstep)
  exact hr'

/-- Whatever is plugged in and out, and whatever fails: the driver never frees or unregisters what
is not there, a probe that fails leaves the resources as they were, and what is acquired is that of
the interfaces that are bound, so that nothing is left when there are none. -/
theorem probes_balanced {cs : List (Call Bus Action Answer)} (h : Run (Bus.step A) empty cs b) :
    b.Balanced ∧ (∀ act : Action, act.Enabled b → (b.step A act).isSome) ∧
      (∀ c ∈ cs, ∀ e, c.output = .probed (some e) → c.before.SameResources c.after) ∧
        (∀ a ∈ b.hwrngs, b.heap.get a = some .kmalloc) ∧
          (b.intfdata = [] → empty.SameResources b) := by
  obtain ⟨hcs, hb⟩ := run_balanced h
  refine ⟨hb, fun act hact => ?_, fun c hc e he => ?_, fun a ha => hb.get_hwrng ha, hb.released⟩
  · obtain ⟨r, hr, _⟩ := hb.step A hact
    simp [hr]
  · have hstep := h.step_of_mem hc
    obtain ⟨r, hr, _, hsame⟩ := (hcs c hc).1.step A (enabled_of_step hstep)
    obtain rfl := Option.some.inj (hr.symm.trans hstep)
    exact hsame e he

/-- A probe to which everything is given. -/
def smoothScript : ProbeScript where
  endpoints := none
  dev := true
  clockBuf := true
  usbBuf := true
  readBuf := true
  outBuf := true
  onesEven := true
  zerosEven := true
  onesOdd := true
  zerosOdd := true
  configure _ := none
  testBuf := true
  testWrite := none
  testRead := none
  register := none
  hwrngRegister := none

/-- A probe and a second one that a table is missing in; then the first device is taken away. -/
theorem probes_balanced_two :
    ∃ (cs : List (Call Bus Action Answer)) (b : Bus),
      cs.map Call.output = [.probed none, .probed (some enomem), .disconnected] ∧
        b.Balanced ∧ b.intfdata = [] ∧ empty.SameResources b := by
  have hrun : ∃ cs b, Run (step (.ascending .kmalloc)) empty cs b ∧ cs.map Call.output =
      [.probed none, .probed (some enomem), .disconnected] ∧ b.intfdata = [] :=
    ⟨_, _, .cons (i := .probe 0 smoothScript) rfl <|
      .cons (i := .probe 1 { smoothScript with onesOdd := false }) rfl <|
        .cons (i := .disconnect 0) rfl <| .nil _, rfl, rfl⟩
  obtain ⟨cs, b, hcs, houtput, hnone⟩ := hrun
  obtain ⟨hb, _, _, _, hreleased⟩ := probes_balanced hcs
  exact ⟨cs, b, houtput, hb, hnone, hreleased hnone⟩

end Bus

end Kernel
