import Infnoise.Kernel.CharRead

/-!
# Where the bytes go

What `infnoise_read_data` returns to a task goes through the buffer of the task to its caller. No
other task gets at these bytes, none are lost as long as `copy_to_user` copies what it is asked to,
and none are handed out twice.
-/

namespace Kernel

open Core

attribute [local irreducible] infnoiseKeccakPermutation infnoiseKeccakAbsorb

/-- The bytes in the buffer of a task that are yet to be handed out. -/
def Task.heldBytes (task : Task) : List Byte :=
  match task.held with
  | some (ret, data) => deliveredBytes ret data
  | none => []

namespace DriverRecord

/-- The bytes that `infnoise_read_data` returns to a task in the step. -/
def bytesRead (t : ℕ) (c : DriverRecord) : List Byte :=
  if c.task = some t then (c.read.map ReadRecord.bytes).getD [] else []

/-- A step in which `copy_to_user` copies what it is asked to, if it is called. -/
def CopiesAll (c : DriverRecord) : Prop :=
  ∀ t input call total n data, c.input = .step t input →
    c.before.tasks t = .char call (.copying total (.ok (n + 1)) data) → n + 1 ≤ input.copied

/-- Only tasks in `infnoise_hwrng_read` take the step. -/
def OfHwrng (c : DriverRecord) : Prop :=
  ∀ t input, c.input = .step t input → ∃ call pc, c.before.tasks t = .hwrng call pc

lemma OfHwrng.copiesAll {c : DriverRecord} (h : c.OfHwrng) : c.CopiesAll := by
  intro t input call total n data hinput ht
  obtain ⟨_, _, hhwrng⟩ := h t input hinput
  cases hhwrng.symm.trans ht

end DriverRecord

/-- The bytes that a task has read from the device, in the order of its reads. -/
def bytesRead (t : ℕ) (cs : List DriverRecord) : List Byte := cs.flatMap (DriverRecord.bytesRead t)

/-! ### One step -/

/-- What a step of a task hands out and leaves in its buffer is what was there and what it reads. -/
def Conserves (c : DriverRecord) (t : ℕ) : Prop :=
  c.output.delivered ++ (c.after.tasks t).heldBytes =
    (c.before.tasks t).heldBytes ++ (c.read.map ReadRecord.bytes).getD []

section

variable {d d' : Driver} {t : ℕ} {input : StepInput} {o : Output}

lemma Conserves.of_read_eq_none {c : DriverRecord} (hread : c.readCall = none)
    (hheld : c.output.delivered ++ (c.after.tasks t).heldBytes = (c.before.tasks t).heldBytes) :
    Conserves c t := by
  rw [Conserves, DriverRecord.read_eq_none hread, hheld]
  simp

lemma Conserves.of_readData {c : DriverRecord} {call : ReadCall} {r : ReadResult}
    (hcall : c.readCall = some call)
    (hread : infnoiseReadData c.before.dev call.multiplier call.scripts call.result call.maxLen
      call.raw = some r)
    (hdelivered : c.output.delivered = []) (hbefore : (c.before.tasks t).held = none)
    (hafter : (c.after.tasks t).held = some (r.ret, r.result)) : Conserves c t := by
  have hstep : readStep c.before.dev call = some (r, r.dev) := by
    rw [readStep, hread]
    rfl
  rw [Conserves, DriverRecord.read, hcall, Option.bind_some, hstep]
  simp [hdelivered, Task.heldBytes, hbefore, hafter, ReadRecord.bytes]

lemma HwrngStep.conserves {call : HwrngCall} {pc : HwrngPc} (ht : d.tasks t = .hwrng call pc)
    (h : HwrngStep d t input call pc o d') : Conserves ⟨d, .step t input, o, d'⟩ t := by
  have hcall : DriverRecord.readCall ⟨d, .step t input, o, d'⟩ = _ := readCall_step ht
  cases h with
  | absent | waits | enters | interrupted | woken | cold | warm | failed | healthy | locks
  | unlocks | returns =>
    apply Conserves.of_read_eq_none hcall
    simp [ht, Task.heldBytes, Task.held, Output.silent]
  | reads hread =>
    apply Conserves.of_readData hcall hread rfl
    · rw [ht]
      rfl
    · simp [Task.held]

lemma CharStep.conserves {call : CharCall} {pc : CharPc} (ht : d.tasks t = .char call pc)
    (h : CharStep d t input call pc o d')
    (hcopies : ∀ total n data, pc = .copying total (.ok (n + 1)) data → n + 1 ≤ input.copied) :
    Conserves ⟨d, .step t input, o, d'⟩ t := by
  have hcall : DriverRecord.readCall ⟨d, .step t input, o, d'⟩ = _ := readCall_step ht
  cases h with
  | cold | waits | warm | interrupted | woken | failed | healthy | locks | ends | unlocks | error
  | dry | again | signalled | retries | copies =>
    apply Conserves.of_read_eq_none hcall
    simp [ht, Task.heldBytes, Task.held, deliveredBytes, bufferBytes, Output.silent]
  | reads hread =>
    apply Conserves.of_readData hcall hread rfl
    · rw [ht]
      rfl
    · simp [Task.held]
  | faults hcopied => exact absurd (hcopies _ _ _ rfl) (not_le.mpr hcopied)

end

/-- Every step of a task conserves its bytes. -/
lemma step_conserves {c : DriverRecord} {t : ℕ}
    (hstep : c.before.step c.input = some (c.output, c.after)) (hcopies : c.CopiesAll)
    (ht : c.task = some t) : Conserves c t := by
  obtain ⟨d, a, o, d'⟩ := c
  dsimp only at hstep
  cases driverStep_cases hstep with
  | warmup | ioctlSetRaw | setParameters => cases ht
  | hwrngRead hidle | charRead hidle | ioctlGet hidle =>
    cases ht
    apply Conserves.of_read_eq_none rfl
    simp [hidle, Task.heldBytes, Task.held, Output.silent]
  | hwrng htask h =>
    cases ht
    exact h.conserves htask
  | char htask h =>
    cases ht
    refine h.conserves htask fun total n data hpc => ?_
    exact hcopies _ _ _ total n data rfl (hpc ▸ htask)
  | ioctl htask h =>
    cases ht
    cases h with
    | locks | returns =>
      apply Conserves.of_read_eq_none (readCall_step htask)
      simp [htask, Task.heldBytes, Task.held, Output.silent]

/-! ### Runs -/

/-- No byte is lost, handed out twice or given to somebody else: in every run, what a task has handed
out, and what it holds at the end, is what it held at the start, and what `infnoise_read_data` has
returned to it since, in this order. -/
theorem deliveredTo_append_held {d d' : Driver} {cs : List DriverRecord}
    (h : Run Driver.step d cs d') (t : ℕ)
    (hcopies : ∀ c ∈ cs, c.task = some t → c.CopiesAll) :
    deliveredTo t cs ++ (d'.tasks t).heldBytes = (d.tasks t).heldBytes ++ bytesRead t cs := by
  refine h.flatMap_append_eq (q := fun d => (d.tasks t).heldBytes) fun c hc => ?_
  have hstep := h.step_of_mem hc
  rw [DriverRecord.bytesRead]
  split_ifs with ht
  · exact step_conserves hstep (hcopies c hc ht) ht
  · rw [tasks_of_task_ne hstep ht]
    simp

/-! ### The stream behind the bytes -/

/-- A raw call leaves the sponge alone. -/
lemma readStep_raw {r : ReadRecord} (hstep : readStep r.before r.input = some (r.output, r.after))
    (hraw : r.input.raw = true) : r.output.ops = [] ∧ r.after.keccak = r.before.keccak ∧
      r.after.keccakBytesLeft = r.before.keccakBytesLeft := by
  obtain ⟨dev, ⟨multiplier, scripts, result, maxLen, raw⟩, r, dev'⟩ := r
  obtain ⟨r', hread, heq⟩ := Option.map_eq_some_iff.mp hstep
  obtain ⟨rfl, rfl⟩ := Prod.mk.inj heq
  dsimp only at hread hraw ⊢
  subst hraw
  cases infnoiseReadData_step hread with
  | absent => exact ⟨rfl, rfl, rfl⟩
  | squeezed _ hraw | absorbed _ _ _ hraw => cases hraw
  | failed _ htransfer | rejected _ htransfer | rawBlock _ htransfer =>
    obtain ⟨hframe, _⟩ := infnoiseUsbTransfer_cases htransfer
    exact ⟨rfl, hframe.keccak_eq, hframe.keccakBytesLeft_eq⟩

/-- A call that is raw, or whitened with room for a chunk while the multiplier is `m`. -/
def ReadRecord.Regular (m : ℕ) (r : ReadRecord) : Prop := r.input.raw = true ∨ r.Whitened m

namespace DriverRecord

/-- What a step of the driver does with the sponge. -/
def spongeEvent (c : DriverRecord) : Option (SpongeEvent (Vector Byte 64)) :=
  c.read.bind fun r => Kernel.spongeEvent r.output.ops

/-- The whitened bytes that a step of the driver reads. -/
def whitened (c : DriverRecord) : List Byte := (c.read.map ReadRecord.whitened).getD []

end DriverRecord

/-- A step of the driver is a step of the sponge, or leaves it alone. -/
lemma step_sponge {m : ℕ} (hm : 1 ≤ m) (hm10 : m ≤ 10) {c : DriverRecord}
    (hstep : c.before.step c.input = some (c.output, c.after))
    (hcall : ∀ r, c.read = some r → r.Regular m)
    (hleft : c.before.dev.keccakBytesLeft < 4294967296) :
    c.after.dev.keccakBytesLeft < 4294967296 ∧
      (c.spongeEvent = none → c.whitened = [] ∧
        (c.after.dev.keccak, c.after.dev.keccakBytesLeft) =
          (c.before.dev.keccak, c.before.dev.keccakBytesLeft)) ∧
      ∀ e, c.spongeEvent = some e →
        kernelSponge.step (32 * m) 128 (c.before.dev.keccak, c.before.dev.keccakBytesLeft) e =
          some (c.whitened, (c.after.dev.keccak, c.after.dev.keccakBytesLeft)) := by
  rw [DriverRecord.spongeEvent, DriverRecord.whitened]
  cases step_history hstep with
  | moves hread hkeccak hkept =>
    rw [hread, hkept, hkeccak]
    exact ⟨hleft, fun _ => ⟨rfl, rfl⟩, fun e he => by cases he⟩
  | gives hread hdev =>
    rw [hread, hdev]
    exact ⟨hleft, fun _ => ⟨rfl, rfl⟩, fun e he => by cases he⟩
  | @reads r hread hbefore hrstep hafter =>
    rw [← hbefore] at hleft ⊢
    rw [hread, ← hafter, Option.bind_some, Option.map_some, Option.getD_some]
    refine ⟨(readStep_lawful hrstep hleft).after_lt, ?_⟩
    rcases hcall r hread with hraw | hwhitened
    · obtain ⟨hops, hkeccak, hkept⟩ := readStep_raw hrstep hraw
      rw [hops, hkeccak, hkept, ReadRecord.whitened, if_pos hraw]
      exact ⟨fun _ => ⟨rfl, rfl⟩, fun e he => by cases he⟩
    · obtain ⟨hnone, hsome⟩ := readStep_sponge hm hm10 hrstep hwhitened hleft
      have hbytes : r.whitened = r.bytes := by simp [ReadRecord.whitened, hwhitened.raw_eq]
      rw [hbytes]
      refine ⟨fun he => ?_, hsome⟩
      obtain ⟨hempty, hkeccak, hkept⟩ := hnone he
      exact ⟨hempty, by rw [hkeccak, hkept]⟩

lemma mem_absorbedBlocks {r : ReadRecord} {block : Vector Byte 64}
    (h : block ∈ absorbedBlock r.output.ops) : block ∈ r.absorbedBlocks := by
  rw [ReadRecord.absorbedBlocks]
  rcases hops : r.output.ops with _ | ⟨_ | _ | _, ops⟩
  · simp [hops, absorbedBlock] at h
  · rw [hops] at h
    obtain rfl := Option.some.inj h
    simp [SpongeOp.block]
  · simp [hops, absorbedBlock] at h
  · simp [hops, absorbedBlock] at h

lemma flatMap_whitened (cs : List DriverRecord) :
    cs.flatMap DriverRecord.whitened = (reads cs).flatMap ReadRecord.whitened := by
  induction cs with
  | nil => rfl
  | cons c cs ih =>
    rw [List.flatMap_cons, ih, DriverRecord.whitened, reads, reads]
    rcases hread : c.read with _ | r
    · rw [List.filterMap_cons_none hread]
      rfl
    · rw [List.filterMap_cons_some hread]
      rfl

/-- The readers share one stream: in every run from the probe, the whitened bytes that are read, by
whatever tasks and in the order of their reads, and then what is left in the sponge, are what the
sponge gives for the blocks absorbed, all of which are approved. The multiplier is `m`, and whitened
reads have room for a chunk; raw reads may come in between. -/
theorem driver_stream {m : ℕ} (hm : 1 ≤ m) (hm10 : m ≤ 10)
    {clockBuf usbBuf readBuf outBuf : ℕ → Byte} {multiplier : ℕ} {rawMode : Bool} {d : Driver}
    {cs : List DriverRecord}
    (h : Run Driver.step (infnoiseProbe clockBuf usbBuf readBuf outBuf multiplier rawMode) cs d)
    (hcalls : ∀ r ∈ reads cs, r.Regular m) :
    (reads cs).flatMap ReadRecord.whitened ++
        (kernelSponge.giveAll 128 (d.dev.keccak, d.dev.keccakBytesLeft)).1 =
      (kernelSponge.giveBlocks (32 * m) 128 infnoiseKeccakInit
        ((reads cs).filterMap fun r => absorbedBlock r.output.ops)).1 ∧
    ∀ r ∈ reads cs, ∀ block ∈ absorbedBlock r.output.ops, r.Approved block := by
  have hregular : ∀ c ∈ cs, ∀ r, c.read = some r → r.Regular m := fun c hc r hread =>
    hcalls r (List.mem_filterMap.mpr ⟨c, hc, hread⟩)
  obtain ⟨hrun, hblocks, hstream⟩ := Sponge.refines_of_step
    (I := fun d : Driver => d.dev.keccakBytesLeft < 4294967296)
    (P := fun c : DriverRecord => ∀ r, c.read = some r → r.Regular m)
    (fun d => (d.dev.keccak, d.dev.keccakBytesLeft)) DriverRecord.spongeEvent DriverRecord.whitened
    (fun c hstep hcall hleft => step_sponge hm hm10 hstep hcall hleft) h hregular (by
      change 0 < 4294967296
      omega)
  constructor
  · have hgive := Sponge.stream_append_giveAll (by omega) (by norm_num) hrun
    rw [hstream, hblocks, flatMap_whitened] at hgive
    rw [hgive, Sponge.giveAll_of_eq rfl, List.nil_append, reads, List.filterMap_filterMap]
    congr 3
    funext c
    rw [DriverRecord.spongeEvent, Option.bind_assoc]
    simp only [absorbedBlock_eq]
  · intro r hr block hblock
    obtain ⟨c, hc, hread⟩ := List.mem_filterMap.mp hr
    cases step_history (h.step_of_mem hc) with
    | moves hnone | gives hnone =>
      rw [hnone] at hread
      cases hread
    | reads hsome _ hstep =>
      obtain rfl := Option.some.inj (hsome.symm.trans hread)
      exact (readStep_blocks hstep).approved (mem_absorbedBlocks hblock)

/-! ### A reader after the warm-up -/

/-- A call of `infnoise_hwrng_read` from its start to its end, with the one read it makes. -/
lemma exists_run_hwrngRead {d : Driver} {t max : ℕ} {scripts : ℕ → AttemptScript} {r : ReadResult}
    (ht : d.tasks t = .idle) (hpresent : d.dev.present = true) (hdone : d.warmupDone = true)
    (hfail : d.dev.healthFail = false) (hlocked : d.locked = false)
    (hread : infnoiseReadData d.dev d.multiplier scripts (fun _ => 0) max
      (d.infnoiseRawMode || d.rawMode) = some r) :
    ∃ cs, Run Driver.step d cs { d with dev := r.dev } ∧
      reads cs = [⟨d.dev,
        ⟨d.multiplier, scripts, fun _ => 0, max, d.infnoiseRawMode || d.rawMode⟩, r, r.dev⟩] ∧
      deliveredTo t cs = deliveredBytes r.ret r.result ∧ (∀ c ∈ cs, DriverRecord.OfHwrng c) ∧
      cs.length = 8 := by
  let call : HwrngCall := ⟨max, false, d.infnoiseRawMode || d.rawMode⟩
  let input : StepInput := ⟨scripts, fun _ => 0, false, 0⟩
  have hentered := @step_setTask_hwrng t input _ d d call _ _ (.enters hpresent (.inl rfl))
  have hwarm := @step_setTask_hwrng t input _ d d call _ _ (.warm hdone)
  have htest := @step_setTask_hwrng t input _ d d call _ _ (.healthy hfail)
  have hlock := @step_setTask_hwrng t input _ d { d with locked := true } call _ _ (.locks hlocked)
  have hreads := @step_setTask_hwrng t input _ { d with locked := true }
    { d with locked := true, dev := r.dev } call _ _ (.reads hread)
  have hunlock := @step_setTask_hwrng t input _ { d with locked := true, dev := r.dev }
    { d with locked := false, dev := r.dev } call (.unlocking r.ret r.result) _ .unlocks
  have hreturn : (({ d with locked := false, dev := r.dev } : Driver).setTask t
      (.hwrng call (.returning r.ret r.result))).step (.step t input) = some (_, _) :=
    step_of_hwrngStep (Driver.setTask_tasks ..) .returns
  have hidle : (({ d with locked := false, dev := r.dev } : Driver).setTask t
      (.hwrng call (.returning r.ret r.result))).setTask t .idle = { d with dev := r.dev } := by
    rw [Driver.setTask_setTask, ← hlocked, ← ht]
    simp [Driver.setTask]
  rw [hidle] at hreturn
  refine ⟨_, .cons (step_hwrngRead max ht) (.cons hentered (.cons hwarm (.cons htest (.cons hlock
    (.cons hreads (.cons hunlock (.single hreturn))))))), ?_, ?_, ?_, rfl⟩
  · have hrstep : readStep d.dev ⟨d.multiplier, scripts, fun _ => 0, max,
        d.infnoiseRawMode || d.rawMode⟩ = some (r, r.dev) := by
      rw [readStep, hread]
      rfl
    simp only [reads, List.filterMap_cons, DriverRecord.read, DriverRecord.readCall,
      Driver.setTask_tasks, Option.bind_none, Option.bind_some, List.filterMap_nil]
    simp only [Driver.setTask, input, call, hrstep, Option.map_some]
  · simp [deliveredTo, DriverRecord.task, Output.silent]
  · have hhwrng : ∀ {d₁ d₂ : Driver} {pc : HwrngPc} {o : Output},
        DriverRecord.OfHwrng ⟨d₁.setTask t (.hwrng call pc), .step t input, o, d₂⟩ := by
      intro d₁ d₂ pc o t' _ hinput
      obtain ⟨rfl, _⟩ := Action.step.inj hinput
      exact ⟨call, pc, Driver.setTask_tasks ..⟩
    intro c hc
    simp only [List.mem_cons, List.not_mem_nil, or_false] at hc
    rcases hc with rfl | rfl | rfl | rfl | rfl | rfl | rfl | rfl
    · intro _ _ hinput
      cases hinput
    all_goals exact hhwrng

/-- The reads of the warm-up work are raw. -/
lemma WarmupRun.regular {d d' : Driver} {cs : List DriverRecord} (h : WarmupRun d cs d') (m : ℕ) :
    ∀ r ∈ reads cs, r.Regular m := by
  intro r hr
  obtain ⟨c, hc, hread⟩ := List.mem_filterMap.mp hr
  obtain ⟨scripts, discard, hinput⟩ := h.2 c hc
  obtain ⟨call, hcall, hrstep⟩ := Option.bind_eq_some_iff.mp hread
  obtain ⟨⟨r', dev'⟩, _, rfl⟩ := Option.map_eq_some_iff.mp hrstep
  left
  rw [DriverRecord.readCall, hinput] at hcall
  dsimp only at hcall ⊢
  split at hcall
  · split_ifs at hcall
    cases hcall
    rfl
  · cases hcall

/-- The warm-up, and a read of a whole chunk. -/
lemma exists_run_warm_chunk : ∃ cs d, Run Driver.step probed cs d ∧
    (∀ r ∈ reads cs, r.Regular 1) ∧ (∀ c ∈ cs, DriverRecord.CopiesAll c) ∧
      deliveredTo 0 cs ≠ [] := by
  obtain ⟨j, dev, cs₁, h157, h372, hwarming, hok, hwarm, _⟩ := exists_warmed
  obtain ⟨dev', entropy, hloaded, hread⟩ := hwarming.readData h157 h372 hok 1 (fun _ => 0) 128
  obtain ⟨cs₂, hrun, hreads, hdelivered, hhwrng, _⟩ := @exists_run_hwrngRead (warmed dev) 0 128
    (fun _ => registerScript (512 * j)) _ rfl hwarming.present rfl hwarming.healthFail rfl hread
  refine ⟨_, _, hwarm.1.append hrun, ?_, ?_, ?_⟩
  · intro r hr
    rw [reads, List.filterMap_append, List.mem_append] at hr
    rcases hr with hr | hr
    · exact hwarm.regular 1 r hr
    · change r ∈ reads cs₂ at hr
      rw [hreads, List.mem_singleton] at hr
      subst hr
      exact .inr ⟨rfl, rfl, le_rfl⟩
  · intro c hc
    rcases List.mem_append.mp hc with hc | hc
    · obtain ⟨scripts, discard, hinput⟩ := hwarm.2 c hc
      intro _ _ _ _ _ _ hstep
      cases hinput.symm.trans hstep
    · exact (hhwrng c hc).copiesAll
  · rw [deliveredTo, List.flatMap_append]
    change _ ++ deliveredTo 0 cs₂ ≠ []
    rw [hdelivered, absorbAndSqueeze_ret]
    intro hnil
    have hlength := congrArg List.length (List.append_eq_nil_iff.mp hnil).2
    simp only [deliveredBytes, bufferBytes, List.length_map, List.length_range] at hlength
    have hsize : squeezeSize (dev'.absorb 1 entropy) 128 = 32 := rfl
    rw [hsize] at hlength
    cases hlength

/-- The chunk is what the sponge gives for the one block. -/
theorem driver_stream_chunk : ∃ (cs : List DriverRecord) (d : Driver),
    Run Driver.step probed cs d ∧
      deliveredTo 0 cs ≠ [] ∧
      (reads cs).flatMap ReadRecord.whitened ++
          (kernelSponge.giveAll 128 (d.dev.keccak, d.dev.keccakBytesLeft)).1 =
        (kernelSponge.giveBlocks 32 128 infnoiseKeccakInit
          ((reads cs).filterMap fun r => absorbedBlock r.output.ops)).1 := by
  obtain ⟨cs, d, hrun, hregular, _, hdelivered⟩ := exists_run_warm_chunk
  exact ⟨cs, d, hrun, hdelivered, (driver_stream le_rfl (by norm_num) hrun hregular).1⟩

/-- The task has handed out what it has read. -/
theorem deliveredTo_append_held_chunk : ∃ (cs : List DriverRecord) (d : Driver),
    Run Driver.step probed cs d ∧
      deliveredTo 0 cs ≠ [] ∧ deliveredTo 0 cs ++ (d.tasks 0).heldBytes = bytesRead 0 cs := by
  obtain ⟨cs, d, hrun, _, hcopies, hdelivered⟩ := exists_run_warm_chunk
  exact ⟨cs, d, hrun, hdelivered, deliveredTo_append_held hrun 0 fun c hc _ => hcopies c hc⟩

end Kernel
