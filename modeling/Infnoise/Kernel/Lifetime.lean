import Infnoise.Kernel.Session
import Infnoise.Kernel.Tasks

/-!
# The lifetime of the device structure

`infnoise_disconnect` frees the device structure, and open files keep their pointers to it. No call
uses it after that in the runs in which no file is open when it is freed; a file that is open then
can use it at once.
-/

namespace Kernel

open Core

attribute [local irreducible] infnoiseKeccakPermutation infnoiseKeccakAbsorb

/-- Whether the next step of a task uses the device structure. Copying to the reader and returning
do not. -/
def Driver.usesDevice (d : Driver) (t : ℕ) : Bool :=
  match d.tasks t with
  | .idle => false
  | .hwrng _ (.returning ..) => false
  | .hwrng .. => true
  | .char call (.loop total) => decide (total < call.count)
  | .char _ (.copying ..) => false
  | .char .. => true
  | .ioctl _ => true

namespace SessionRecord

/-- Whether the step is one of a read, an ioctl or the warm-up work, and uses the device structure.
A read of the hwrng core looks at the mode when it starts. -/
def usesDevice (c : SessionRecord) : Bool :=
  match c.input with
  | .step t _ => c.before.driver.usesDevice t
  | .ioctlSetRaw .. | .hwrngRead .. | .warmup .. => true
  | _ => false

/-- The step frees the device structure. -/
def frees (c : SessionRecord) : Prop := c.input = .disconnect ∧ c.before.disconnect = .deregistered

/-- When the step frees the device structure, no file is open. -/
def FreesUnopened (c : SessionRecord) : Prop := c.frees → c.before.files = []

end SessionRecord

/-- The device structure is not used after it has been freed. -/
def LifetimeKept (cs : List SessionRecord) : Prop :=
  ∀ c ∈ cs, c.before.disconnect = .freed → c.usesDevice = false

def Caller.kind : Caller → TaskKind
  | .hwrng => .hwrng
  | .file _ => .file

/-- Whether `infnoise_hwrng_unregister` has returned. -/
def DisconnectPc.unregisteredYet : DisconnectPc → Bool
  | .unregistered | .deregistered | .freed => true
  | _ => false

/-- What holds in a session: every task in a call has its caller on the list, files in use are open,
the hwrng core makes no calls when it is unregistered, nothing is open when the device structure is
freed, and the device is absent from the start of the disconnect on. -/
structure Session.Tracked (s : Session) : Prop where
  calls : ∀ t, (s.driver.tasks t).kind ≠ .idle →
    ∃ caller, (t, caller) ∈ s.calls ∧ caller.kind = (s.driver.tasks t).kind
  files : ∀ call ∈ s.calls, ∀ file, call.2 = .file file → file ∈ s.files
  unregistered : s.disconnect.unregisteredYet = true →
    s.hwrngReg = false ∧ ∀ call ∈ s.calls, call.2 ≠ .hwrng
  freed : s.disconnect = .freed → s.files = []
  absent : s.disconnect ≠ .plugged → s.driver.dev.present = false

/-- When the device structure is freed, no task is in a call. -/
lemma Session.Tracked.idle {s : Session} (h : s.Tracked) (hfreed : s.disconnect = .freed) (t : ℕ) :
    (s.driver.tasks t).kind = .idle := by
  by_contra hne
  obtain ⟨caller, hmem, _⟩ := h.calls t hne
  cases caller with
  | hwrng => exact (h.unregistered (by rw [hfreed]; rfl)).2 _ hmem rfl
  | file file =>
    have hfile := h.files _ hmem file rfl
    rw [h.freed hfreed] at hfile
    cases hfile

/-- So no step uses it. -/
lemma Session.Tracked.usesDevice {c : SessionRecord} (h : c.before.Tracked)
    (hstep : c.before.step c.input = some (c.output, c.after))
    (hfreed : c.before.disconnect = .freed) : c.usesDevice = false := by
  obtain ⟨s, a, o, s'⟩ := c
  dsimp only at h hstep hfreed
  cases a with
  | step t input =>
    have hidle := h.idle hfreed t
    change s.driver.usesDevice t = false
    rw [Driver.usesDevice]
    rcases ht : s.driver.tasks t with _ | ⟨call, pc⟩ | ⟨call, pc⟩ | locked
    · rfl
    all_goals
      rw [ht] at hidle
      cases hidle
  | ioctlSetRaw file raw =>
    rw [Session.step, h.freed hfreed] at hstep
    cases hstep
  | hwrngRead t max wait =>
    rw [Session.step, (h.unregistered (by rw [hfreed]; rfl)).1] at hstep
    cases hstep
  | warmup scripts discard =>
    rw [Session.step, Session.warmupQueued, hfreed] at hstep
    cases hstep
  | openFile | releaseFile | charRead | ioctlGet | setParameters | disconnect => rfl

/-! ### Every step keeps it -/

section

variable {s s' : Session} {o : Output}

/-- A step of the driver that keeps the kinds of the tasks. -/
lemma Session.Tracked.onDriver {a : Action} (hs : s.Tracked) (h : s.onDriver a = some (o, s'))
    (hkinds : ∀ d d' : Driver, d.step a = some (o, d') → ∀ t, (d'.tasks t).kind = (d.tasks t).kind) :
    s'.Tracked := by
  obtain ⟨n, n', d', hstep, rfl, _⟩ := Session.onDriver_cases h
  have hkind := hkinds _ _ hstep
  refine ⟨fun t hne => ?_, hs.files, hs.unregistered, hs.freed, fun hplugged => ?_⟩
  · obtain ⟨caller, hmem, hcaller⟩ := hs.calls t (hkind t ▸ hne)
    exact ⟨caller, hmem, hcaller.trans (hkind t).symm⟩
  · exact (step_present hstep).trans (hs.absent hplugged)

/-- A call begins, of a caller that can make one. -/
lemma Session.Tracked.startCall {t : ℕ} {caller : Caller} {a : Action} (hs : s.Tracked)
    (h : s.startCall t caller a = some (o, s'))
    (hkinds : ∀ d d' : Driver, d.step a = some (o, d') → ∃ task : Task,
      d'.tasks = Function.update d.tasks t task ∧ task.kind = caller.kind)
    (hfile : ∀ file, caller = .file file → file ∈ s.files)
    (hhwrng : caller = .hwrng → s.hwrngReg = true) : s'.Tracked := by
  obtain ⟨n, n', d', hstep, rfl, _⟩ := Session.onDriver_cases h
  obtain ⟨task, htasks, hkind⟩ := hkinds _ _ hstep
  refine ⟨fun t' hne => ?_, fun call hcall file hcaller => ?_, fun hyet => ?_, hs.freed,
    fun hplugged => ?_⟩
  · dsimp only at hne ⊢
    rw [htasks] at hne ⊢
    by_cases ht : t' = t
    · subst ht
      rw [Function.update_self]
      exact ⟨caller, List.mem_cons_self, hkind.symm⟩
    · rw [Function.update_of_ne ht] at hne ⊢
      obtain ⟨caller', hmem, hcaller⟩ := hs.calls t' hne
      exact ⟨caller', List.mem_cons_of_mem _ hmem, hcaller⟩
  · rcases List.mem_cons.mp hcall with rfl | hcall
    · exact hfile file hcaller
    · exact hs.files call hcall file hcaller
  · obtain ⟨hreg, hcalls⟩ := hs.unregistered hyet
    refine ⟨hreg, fun call hcall => ?_⟩
    rcases List.mem_cons.mp hcall with rfl | hcall
    · rintro rfl
      rw [hhwrng rfl] at hreg
      cases hreg
    · exact hcalls call hcall
  · exact (step_present hstep).trans (hs.absent hplugged)

/-- A task makes a step in its call. -/
lemma Session.Tracked.goOn {t : ℕ} {input : StepInput} (hs : s.Tracked)
    (h : s.onDriver (.step t input) = some (o, s')) (ho : o.returned = none) : s'.Tracked := by
  refine hs.onDriver h fun d d' hstep t' => ?_
  obtain ⟨_, task, hmove⟩ := step_moves hstep
  rw [hmove.tasks_eq]
  by_cases ht : t' = t
  · subst ht
    rw [Function.update_self]
    rcases hmove.kind with ⟨_, hkind⟩ | ⟨hreturned, _⟩
    · exact hkind
    · rw [ho] at hreturned
      cases hreturned
  · rw [Function.update_of_ne ht]

/-- The call of a task returns. -/
lemma Session.Tracked.return {t : ℕ} {input : StepInput} (hs : s.Tracked)
    (h : s.onDriver (.step t input) = some (o, s')) (ho : o.returned.isSome = true) :
    ({ s' with calls := s'.calls.filter fun call => call.1 ≠ t } : Session).Tracked := by
  obtain ⟨n, n', d', hstep, rfl, _⟩ := Session.onDriver_cases h
  obtain ⟨_, task, hmove⟩ := step_moves hstep
  have hidle : task = .idle := by
    rcases hmove.kind with ⟨hnone, _⟩ | ⟨_, hidle⟩
    · rw [hnone] at ho
      cases ho
    · exact hidle
  refine ⟨fun t' hne => ?_, fun call hcall => hs.files call (List.mem_of_mem_filter hcall),
    fun hyet => ?_, hs.freed, fun hplugged => (step_present hstep).trans (hs.absent hplugged)⟩
  · dsimp only at hne ⊢
    rw [hmove.tasks_eq] at hne ⊢
    by_cases ht : t' = t
    · subst ht
      rw [Function.update_self, hidle] at hne
      exact absurd rfl hne
    · rw [Function.update_of_ne ht] at hne ⊢
      obtain ⟨caller, hmem, hcaller⟩ := hs.calls t' hne
      exact ⟨caller, List.mem_filter.mpr ⟨hmem, by simpa using ht⟩, hcaller⟩
  · obtain ⟨hreg, hcalls⟩ := hs.unregistered hyet
    exact ⟨hreg, fun call hcall => hcalls call (List.mem_of_mem_filter hcall)⟩

lemma infnoiseOpen_tracked {file : ℕ} (hs : s.Tracked)
    (h : s.infnoiseOpen file = some (o, s')) : s'.Tracked := by
  rw [Session.infnoiseOpen] at h
  split_ifs at h with hfile habsent
  · cases h
    exact hs
  · cases h
    refine ⟨hs.calls, fun call hcall f hf => List.mem_cons_of_mem _ (hs.files call hcall f hf),
      hs.unregistered, fun hfreed => ?_, hs.absent⟩
    -- files are opened while the device is present
    rw [hs.absent (by rw [hfreed]; nofun)] at habsent
    exact absurd rfl habsent

lemma infnoiseRelease_tracked {file : ℕ} (hs : s.Tracked)
    (h : s.infnoiseRelease file = some (o, s')) : s'.Tracked := by
  rw [Session.infnoiseRelease] at h
  split_ifs at h with hfile
  cases h
  refine ⟨hs.calls, fun call hcall f hf => ?_, hs.unregistered, fun hfreed => ?_, hs.absent⟩
  · refine List.mem_filter.mpr ⟨hs.files call hcall f hf, ?_⟩
    have hne : f ≠ file := by
      rintro rfl
      exact hfile.2 call hcall hf
    simpa using hne
  · have hfiles := hs.freed hfreed
    change s.files.filter _ = []
    rw [hfiles]
    rfl

lemma infnoiseDisconnect_tracked (hs : s.Tracked) (h : s.infnoiseDisconnect = some (o, s'))
    (hfrees : s.disconnect = .deregistered → s.files = []) : s'.Tracked := by
  rw [Session.infnoiseDisconnect] at h
  split at h
  · cases h
    exact ⟨hs.calls, hs.files, nofun, nofun, fun _ => rfl⟩
  · rename_i hpc
    cases h
    exact ⟨hs.calls, hs.files, nofun, nofun, fun _ => hs.absent (by rw [hpc]; nofun)⟩
  · rename_i hpc
    have habsent := hs.absent (by rw [hpc]; nofun)
    split at h <;> cases h <;> exact ⟨hs.calls, hs.files, nofun, nofun, fun _ => habsent⟩
  · rename_i hpc
    split_ifs at h with hidle
    cases h
    exact ⟨hs.calls, hs.files, fun _ => ⟨rfl, hidle⟩, nofun,
      fun _ => hs.absent (by rw [hpc]; nofun)⟩
  · rename_i hpc
    cases h
    exact ⟨hs.calls, hs.files, fun _ => hs.unregistered (by rw [hpc]; rfl), nofun,
      fun _ => hs.absent (by rw [hpc]; nofun)⟩
  · rename_i hpc
    cases h
    exact ⟨hs.calls, hs.files, fun _ => hs.unregistered (by rw [hpc]; rfl), fun _ => hfrees hpc,
      fun _ => hs.absent (by rw [hpc]; nofun)⟩
  · cases h

end

/-- Every step keeps it, when no file is open as the device structure is freed. -/
lemma step_tracked {c : SessionRecord} (hstep : c.before.step c.input = some (c.output, c.after))
    (hfrees : c.FreesUnopened) (hs : c.before.Tracked) : c.after.Tracked := by
  obtain ⟨s, a, o, s'⟩ := c
  dsimp only at hstep hs ⊢
  cases a with
  | openFile file => exact infnoiseOpen_tracked hs hstep
  | releaseFile file => exact infnoiseRelease_tracked hs hstep
  | charRead file t count nonblock | ioctlGet file t =>
    rw [Session.step] at hstep
    split_ifs at hstep with hfile
    refine hs.startCall hstep (fun d d' hd => ?_) (fun file' hfile' => ?_) nofun
    · cases driverStep_cases hd
      exact ⟨_, rfl, rfl⟩
    · cases hfile'
      exact hfile
  | hwrngRead t max wait =>
    rw [Session.step] at hstep
    split_ifs at hstep with hreg
    refine hs.startCall hstep (fun d d' hd => ?_) nofun fun _ => hreg
    cases driverStep_cases hd
    exact ⟨_, rfl, rfl⟩
  | ioctlSetRaw file raw =>
    rw [Session.step] at hstep
    split_ifs at hstep
    refine hs.onDriver hstep fun d d' hd t => ?_
    cases driverStep_cases hd
    rfl
  | setParameters multiplier rawMode =>
    refine hs.onDriver hstep fun d d' hd t => ?_
    cases driverStep_cases hd
    rfl
  | step t input =>
    obtain ⟨⟨o', s₁⟩, hdriver, heq⟩ := Option.map_eq_some_iff.mp hstep
    obtain ⟨rfl, rfl⟩ := Prod.mk.inj heq
    rw [Session.endCall]
    split_ifs with ho
    · exact hs.return hdriver ho
    · exact hs.goOn hdriver (by simpa using ho)
  | warmup scripts discard =>
    rw [Session.step] at hstep
    split_ifs at hstep
    refine hs.onDriver hstep fun d d' hd t => ?_
    cases (warmupStep_cases hd).2 <;> rfl
  | disconnect => exact infnoiseDisconnect_tracked hs hstep fun hpc => hfrees ⟨rfl, hpc⟩

/-! ### Runs -/

/-- A file that is open when the device structure is freed uses it with the next ioctl. -/
lemma exists_use_of_frees {c : SessionRecord}
    (hstep : c.before.step c.input = some (c.output, c.after)) (hfrees : c.frees)
    (hfiles : c.before.files ≠ []) : ∃ c' : SessionRecord, c'.before = c.after ∧
      c'.before.step c'.input = some (c'.output, c'.after) ∧ c'.before.disconnect = .freed ∧
        c'.usesDevice = true := by
  obtain ⟨s, a, o, s'⟩ := c
  obtain ⟨hinput, hpc⟩ := hfrees
  dsimp only at hstep hinput hpc hfiles ⊢
  subst hinput
  obtain ⟨file, files, hcons⟩ := List.exists_cons_of_ne_nil hfiles
  rw [Session.step, Session.infnoiseDisconnect, hpc] at hstep
  obtain ⟨rfl, rfl⟩ := Prod.mk.inj (Option.some.inj hstep)
  have hioctl : ∃ o' s'', ({ s with disconnect := .freed } : Session).step
      (.ioctlSetRaw file true) = some (o', s'') := by
    rw [Session.step, if_pos (by rw [hcons]; exact List.mem_cons_self), Session.onDriver]
    split
    · exact ⟨_, _, rfl⟩
    · exact ⟨_, _, rfl⟩
  obtain ⟨o', s'', hioctl⟩ := hioctl
  exact ⟨⟨_, .ioctlSetRaw file true, o', s''⟩, rfl, hioctl, rfl, rfl⟩

/-- In every run of a device from its probe on, with any number of files and in any order: the
device structure is not used after it has been freed, when it is freed with no file open. -/
theorem lifetime_kept {clockBuf usbBuf readBuf outBuf : ℕ → Byte} {multiplier : ℕ}
    {rawMode hwrngReg : Bool} {s : Session} {cs : List SessionRecord}
    (h : Run Session.step (.probe
      (infnoiseProbe clockBuf usbBuf readBuf outBuf multiplier rawMode) hwrngReg) cs s) :
    ((∀ c ∈ cs, c.FreesUnopened) → LifetimeKept cs) ∧
      ∀ c ∈ cs, ¬ c.FreesUnopened → ∃ c' : SessionRecord, c'.before = c.after ∧
        c'.before.step c'.input = some (c'.output, c'.after) ∧ c'.before.disconnect = .freed ∧
          c'.usesDevice = true := by
  refine ⟨fun hunopened c hc => ?_, fun c hc hopen => ?_⟩
  · have hprobe : (Session.probe (infnoiseProbe clockBuf usbBuf readBuf outBuf multiplier rawMode)
        hwrngReg).Tracked :=
      ⟨fun t hne => absurd rfl hne, nofun, nofun, nofun, fun hne => absurd rfl hne⟩
    have htracked := (h.invariant_of (P := SessionRecord.FreesUnopened)
      (fun c hstep hc hs => step_tracked hstep hc hs) hunopened hprobe).1 c hc
    exact htracked.1.usesDevice (h.step_of_mem hc)
  · rw [SessionRecord.FreesUnopened, Classical.not_imp] at hopen
    exact exists_use_of_frees (h.step_of_mem hc) hopen.1 hopen.2

/-- A file is opened and released, and the device is unplugged. -/
theorem lifetime_kept_released : ∃ (cs : List SessionRecord) (s : Session),
    Run Session.step (.probe probed true) cs s ∧
      s.disconnect = .freed ∧ LifetimeKept cs := by
  have hopen : (Session.probe probed true).step (.openFile 0) = some (_, _) := rfl
  have hrun := Run.cons hopen <| .cons (i := .releaseFile 0) rfl <| .cons (i := .disconnect) rfl <|
    .cons (i := .disconnect) rfl <| .cons (i := .disconnect) rfl <| .cons (i := .disconnect) rfl <|
    .cons (i := .disconnect) rfl <| .cons (i := .disconnect) rfl <| .nil _
  refine ⟨_, _, hrun, rfl, (lifetime_kept hrun).1 fun c hc hfrees => ?_⟩
  simp only [List.mem_cons, List.not_mem_nil, or_false] at hc
  rcases hc with rfl | rfl | rfl | rfl | rfl | rfl | rfl | rfl
  all_goals first | rfl | cases hfrees.1

/-- The device is unplugged while a file is open, and the file is read. -/
theorem device_used_after_free : ∃ (cs : List SessionRecord) (s : Session),
    Run Session.step (.probe probed true) cs s ∧
      ¬ LifetimeKept cs := by
  have hopen : (Session.probe probed true).step (.openFile 0) = some (_, _) := rfl
  -- the device does not answer any more
  let input : StepInput :=
    ⟨fun _ => ⟨.error .enodev, [], ⟨fun _ => none, none, fun _ => none⟩⟩, fun _ => 0, false, 0⟩
  have hrun := Run.cons hopen <| .cons (i := .disconnect) rfl <| .cons (i := .disconnect) rfl <|
    .cons (i := .disconnect) rfl <| .cons (i := .disconnect) rfl <| .cons (i := .disconnect) rfl <|
    .cons (i := .disconnect) rfl <| .cons (i := .charRead 0 0 1 true) rfl <|
    .cons (i := .step 0 input) rfl <| .nil _
  refine ⟨_, _, hrun, fun hkept => ?_⟩
  -- the first step of the read tests a flag
  cases hkept _ (List.mem_of_getElem? (i := 8) rfl) rfl

end Kernel
