import Infnoise.Kernel.Capacity
import Infnoise.Kernel.Latch

/-!
# The history of a device

A run of the driver is a history of the calls of `infnoise_read_data` that its steps make, by the
warm-up work and by the readers. Its blocks go into the sponge or out to a reader, never both and
never twice, and the sponge is fed with approved blocks only.
-/

namespace Kernel

open Core

attribute [local irreducible] infnoiseKeccakPermutation infnoiseKeccakAbsorb

/-! ### Blocks -/

/-- The output buffer holds a block that was just received: the last the checker was fed are its 512
bits, which all passed. -/
def Device.JustFed (dev : Device) : Prop :=
  ∃ inBuf outBuf health, forWhile infnoiseBytesOut (extractByte inBuf)
    (outBuf, infnoiseHealthClearEntropy health) = some (true, dev.outBuf, dev.health)

/-- What happens to blocks: one is received and approved or not, one goes into the sponge, or bytes
of one are returned as they are. -/
inductive BlockEvent where
  | received (block : Vector Byte 64) (approved : Bool)
  | absorbed (block : Vector Byte 64)
  | returned (bytes : List Byte)

/-- The event uses bytes of a block. -/
def BlockEvent.Uses : BlockEvent → Vector Byte 64 → Prop
  | .received .., _ => False
  | .absorbed block', block => block' = block
  | .returned bytes, block => bytes <+: block.toList

def BlockEvent.isUse : BlockEvent → Bool
  | .received .. => false
  | .absorbed _ | .returned _ => true

/-- A block that is received takes the place of the last one. -/
def BlockEvent.tap : BlockEvent → Tap
  | .received .. => .permute
  | .absorbed _ => .read 64
  | .returned bytes => .read bytes.length

/-- Every use is of the block that was received just before, and approved. -/
def UsedOnce (events : List BlockEvent) : Prop :=
  ∀ pre e post, events = pre ++ e :: post → e.isUse = true →
    ∃ pre' block, pre = pre' ++ [.received block true] ∧ e.Uses block

def SpongeOp.block : SpongeOp → Option (Vector Byte 64)
  | .absorb block => some block
  | _ => none

namespace ReadRecord

/-- The block the call receives, and whether it passes the tests on the output. -/
def received (c : ReadRecord) : Option (Vector Byte 64 × Bool) :=
  if c.before.present && !(decide (c.before.keccakBytesLeft > 0) && !c.input.raw) then
    match infnoiseUsbTransfer c.before c.input.scripts with
    | some (.ok entropy, dev) => some (blockOf dev.outBuf,
        infnoiseHealthOk dev.health && infnoiseHealthEntropyOnTarget entropy infnoiseBuflen)
    | _ => none
  else none

/-- The blocks that go into the sponge. -/
def absorbedBlocks (c : ReadRecord) : List (Vector Byte 64) := c.output.ops.filterMap SpongeOp.block

def blockEvents (c : ReadRecord) : List BlockEvent :=
  c.received.toList.map (fun (block, approved) => .received block approved) ++
    (c.absorbedBlocks.map .absorbed ++
      if c.input.raw ∧ c.bytes ≠ [] then [.returned c.bytes] else [])

/-- The call has received this block, and just after its 512 bits were fed both tests held. -/
def Approved (c : ReadRecord) (block : Vector Byte 64) : Prop :=
  ∃ dev, infnoiseUsbTransfer c.before c.input.scripts =
      some (.ok (infnoiseHealthGetEntropy dev.health), dev) ∧
    blockOf dev.outBuf = block ∧ dev.JustFed ∧ infnoiseHealthOk dev.health = true ∧
    infnoiseHealthEntropyOnTarget (infnoiseHealthGetEntropy dev.health) infnoiseBuflen = true

end ReadRecord

/-! ### Calls -/

namespace DriverRecord

/-- The task that makes the step. -/
def task (c : DriverRecord) : Option ℕ :=
  match c.input with
  | .hwrngRead t _ _ | .charRead t _ _ | .ioctlGet t | .step t _ => some t
  | .warmup .. | .ioctlSetRaw _ | .setParameters .. => none

/-- The call of `infnoise_read_data` that the step makes. -/
def readCall (c : DriverRecord) : Option ReadCall :=
  match c.input with
  | .warmup scripts discard =>
    match c.before.warmup with
    | .running rounds =>
      if !infnoiseHealthOk c.before.dev.health && decide (rounds < infnoiseWarmupRounds) &&
        c.before.dev.present then
        some ⟨c.before.multiplier, scripts, discard, 64, true⟩
      else none
    | _ => none
  | .step t input =>
    match c.before.tasks t with
    | .hwrng call .locked =>
      some ⟨c.before.multiplier, input.scripts, input.buffer, call.max, call.raw⟩
    | .char call (.locked total) =>
      some ⟨c.before.multiplier, input.scripts, input.buffer, min (call.count - total) 128,
        c.before.infnoiseRawMode || c.before.rawMode⟩
    | _ => none
  | _ => none

/-- The call, with what it returns and leaves. -/
def read (c : DriverRecord) : Option ReadRecord :=
  c.readCall.bind fun call => (readStep c.before.dev call).map fun (r, dev) =>
    ⟨c.before.dev, call, r, dev⟩

end DriverRecord

/-- What a task that has read from the device still holds. -/
def Task.held : Task → Option (Except Errno ℕ × (ℕ → Byte))
  | .hwrng _ (.unlocking ret data) | .hwrng _ (.returning ret data) => some (ret, data)
  | .char _ (.unlocking _ ret data) | .char _ (.copying _ ret data) => some (ret, data)
  | _ => none

/-- The calls of a run. -/
def reads (cs : List DriverRecord) : List ReadRecord := cs.filterMap DriverRecord.read

/-- What happened to the sponge. -/
def spongeOps (cs : List DriverRecord) : List SpongeOp := spongeLog (reads cs)

/-- What happened to the blocks. -/
def blockEvents (cs : List DriverRecord) : List BlockEvent := (reads cs).flatMap ReadRecord.blockEvents

/-- The history of a device from its probe on. -/
structure DeviceHistory (cs : List DriverRecord) (d : Driver) : Prop where
  /-- The state comes from the blocks absorbed and the squeezes. -/
  state_eq : d.dev.keccak = (spongeOps cs).foldl SpongeOp.apply infnoiseKeccakInit
  approved : ∀ r ∈ reads cs, ∀ block ∈ r.absorbedBlocks, r.Approved block
  used_once : UsedOnce (blockEvents cs)
  /-- No byte of a block is used twice. -/
  unique : (Tap.places 0 ((blockEvents cs).map BlockEvent.tap)).Nodup
  /-- Bytes are handed out to the task that has read them, once, and whitened ones not before a block
  has been absorbed. -/
  delivered : ∀ pre c post, cs = pre ++ c :: post → c.output.delivered ≠ [] →
    ∃ t pre' s mid r, c.task = some t ∧ pre = pre' ++ s :: mid ∧ s.task = some t ∧
      s.read = some r ∧ c.output.delivered <+: r.bytes ∧
      (∀ x ∈ mid, x.task = some t → x.read = none ∧ x.output.delivered = []) ∧
      (r.input.raw = false → ∃ r' ∈ reads (pre' ++ [s]), r'.absorbedBlocks ≠ [])

/-! ### Blocks are approved -/

lemma infnoiseUsbTransferOnce_justFed {dev dev' : Device} {script : AttemptScript} {entropy : ℕ}
    (h : infnoiseUsbTransferOnce dev script = some (.ok entropy, dev')) : dev'.JustFed := by
  rw [infnoiseUsbTransferOnce] at h
  rcases hrecv : receiveSamples script.write script.reads dev.usbBuf dev.readBuf with
    ⟨_ | e, usbBuf, readBuf⟩
  · rw [hrecv] at h
    dsimp only at h
    rw [infnoiseExtractBytes, Option.map_eq_some_iff] at h
    obtain ⟨⟨ok, outBuf, health⟩, hloop, heq⟩ := h
    cases ok with
    | false => cases heq
    | true =>
      obtain ⟨_, rfl⟩ := Prod.mk.inj heq
      exact ⟨_, _, _, hloop⟩
  · rw [hrecv] at h
    cases h

lemma transferLoop_justFed {scripts : ℕ → AttemptScript} {retries : ℕ} {last : Except Errno ℕ}
    {dev dev' : Device} {entropy : ℕ} (hlast : ∀ n, last ≠ .ok n)
    (h : transferLoop scripts retries last dev = some (.ok entropy, dev')) : dev'.JustFed := by
  induction retries generalizing last dev with
  | zero =>
    obtain ⟨rfl, _⟩ := Prod.mk.inj (Option.some.inj h)
    exact absurd rfl (hlast entropy)
  | succ retries ih =>
    rw [transferLoop] at h
    rcases honce : infnoiseUsbTransferOnce dev
      (scripts (infnoiseMaxRetries - (retries + 1))) with _ | ⟨e | n, dev₁⟩
    · rw [honce] at h
      cases h
    · rw [honce] at h
      -- after an error the transfer fails, or there is another attempt
      obtain ⟨_, _, _, hok⟩ := afterAttempt_cases dev₁
        (scripts (infnoiseMaxRetries - (retries + 1))) (.error e)
      rcases hafter : afterAttempt dev₁ (scripts (infnoiseMaxRetries - (retries + 1))) (.error e)
        with ⟨_ | ret, dev₂⟩
      · simp only [hafter] at h
        exact ih (fun n hn => by cases hn) h
      · simp only [hafter] at h hok
        obtain ⟨rfl, _⟩ := Prod.mk.inj (Option.some.inj h)
        cases hok entropy rfl
    · rw [honce] at h
      obtain ⟨_, rfl⟩ := Prod.mk.inj (Option.some.inj h)
      have hfed := infnoiseUsbTransferOnce_justFed honce
      exact hfed

/-- A transfer that succeeds leaves the block of its last attempt. -/
lemma infnoiseUsbTransfer_justFed {dev dev' : Device} {scripts : ℕ → AttemptScript} {entropy : ℕ}
    (h : infnoiseUsbTransfer dev scripts = some (.ok entropy, dev')) : dev'.JustFed :=
  transferLoop_justFed (fun n hn => by cases hn) h

/-- What a call of `infnoise_read_data` does with blocks. -/
inductive BlockStep (c : ReadRecord) : Prop where
  | none (hevents : c.blockEvents = []) (hblocks : c.absorbedBlocks = [])
  | unused (block : Vector Byte 64) (approved : Bool)
      (hevents : c.blockEvents = [.received block approved]) (hblocks : c.absorbedBlocks = [])
  | absorbed (block : Vector Byte 64)
      (hevents : c.blockEvents = [.received block true, .absorbed block])
      (hblocks : c.absorbedBlocks = [block]) (happroved : c.Approved block)
  | returned (block : Vector Byte 64) (hblocks : c.absorbedBlocks = [])
      (hevents : c.blockEvents = [.received block true, .returned c.bytes])
      (hfirst : c.bytes <+: block.toList)

lemma blockOf_toList (buffer : ℕ → Byte) : (blockOf buffer).toList = bufferBytes buffer 64 := by
  rw [blockOf, Vector.toList_ofFn]
  refine List.ofFn_eq_map.trans ?_
  rw [bufferBytes, ← List.map_coe_finRange_eq_range, List.map_map]
  rfl

/-- The block of a call that gets to its transfer, which succeeds. -/
lemma ReadRecord.received_eq {c : ReadRecord} {entropy : ℕ} {dev : Device}
    (hpresent : c.before.present = true) (hread : c.input.raw = true ∨ c.before.keccakBytesLeft = 0)
    (htransfer : infnoiseUsbTransfer c.before c.input.scripts = some (.ok entropy, dev)) :
    c.received = some (blockOf dev.outBuf,
      infnoiseHealthOk dev.health && infnoiseHealthEntropyOnTarget entropy infnoiseBuflen) := by
  rw [received, htransfer, if_pos]
  rcases hread with hraw | hzero
  · rw [hpresent, hraw, Bool.not_true, Bool.and_false]
    rfl
  · rw [hpresent, hzero]
    rfl

lemma readStep_blocks {c : ReadRecord}
    (hstep : readStep c.before c.input = some (c.output, c.after)) : BlockStep c := by
  obtain ⟨dev, ⟨multiplier, scripts, result, maxLen, raw⟩, r, dev'⟩ := c
  rw [readStep, Option.map_eq_some_iff] at hstep
  obtain ⟨r', hread, heq⟩ := hstep
  obtain ⟨rfl, rfl⟩ := Prod.mk.inj heq
  dsimp only at hread
  cases infnoiseReadData_step hread with
  | absent hpresent =>
    refine .none ?_ rfl
    simp [ReadRecord.blockEvents, ReadRecord.received, ReadRecord.absorbedBlocks, ReadRecord.bytes,
      deliveredBytes, hpresent]
  | squeezed hpresent hraw hpos =>
    refine .none ?_ rfl
    simp [ReadRecord.blockEvents, ReadRecord.received, ReadRecord.absorbedBlocks, hpos, hraw,
      SpongeOp.block]
  | failed hpresent htransfer =>
    refine .none ?_ rfl
    simp [ReadRecord.blockEvents, ReadRecord.received, ReadRecord.absorbedBlocks, ReadRecord.bytes,
      deliveredBytes, htransfer]
  | @rejected entropy dev₁ hpresent htransfer hbad =>
    by_cases hgets : raw = true ∨ dev.keccakBytesLeft = 0
    · refine .unused (blockOf dev₁.outBuf) false ?_ rfl
      rw [ReadRecord.blockEvents, ReadRecord.received_eq hpresent hgets htransfer, hbad]
      simp [ReadRecord.absorbedBlocks, ReadRecord.bytes, deliveredBytes, bufferBytes]
    · -- such a call does not get to its transfer
      refine .none ?_ rfl
      obtain ⟨hraw, hleft⟩ := not_or.mp hgets
      have hpos : 0 < dev.keccakBytesLeft := Nat.pos_of_ne_zero hleft
      simp [ReadRecord.blockEvents, ReadRecord.received, ReadRecord.absorbedBlocks, hpos, hraw]
  | @rawBlock entropy dev₁ hpresent htransfer hgood hraw =>
    by_cases hzero : maxLen = 0
    · refine .unused (blockOf dev₁.outBuf) true ?_ rfl
      rw [ReadRecord.blockEvents, ReadRecord.received_eq hpresent (.inl hraw) htransfer, hgood]
      simp [ReadRecord.absorbedBlocks, ReadRecord.bytes, deliveredBytes, bufferBytes, hzero]
    · refine .returned (blockOf dev₁.outBuf) rfl ?_ ?_
      · rw [ReadRecord.blockEvents, ReadRecord.received_eq hpresent (.inl hraw) htransfer, hgood]
        simp [ReadRecord.absorbedBlocks, ReadRecord.bytes, deliveredBytes, bufferBytes, hzero, hraw]
      · have hsize : min maxLen infnoiseBytesOut ≤ 64 := min_le_right _ _
        have hbytes : bufferBytes (memcpy result 0 dev₁.outBuf (min maxLen infnoiseBytesOut))
            (min maxLen infnoiseBytesOut) = bufferBytes dev₁.outBuf (min maxLen infnoiseBytesOut) := by
          refine List.map_congr_left fun k hk => ?_
          rw [List.mem_range] at hk
          rw [memcpy_of_lt (Nat.zero_le k) (by omega), Nat.sub_zero]
        rw [blockOf_toList, ReadRecord.bytes, deliveredBytes, hbytes]
        exact bufferBytes_mono dev₁.outBuf hsize
  | @absorbed entropy dev₁ hpresent htransfer hgood hraw hzero =>
    obtain rfl := ((infnoiseUsbTransfer_cases htransfer).2 _ rfl).1
    refine .absorbed (blockOf dev₁.outBuf) ?_ rfl ?_
    · rw [ReadRecord.blockEvents, ReadRecord.received_eq hpresent (.inr hzero) htransfer, hgood]
      simp [ReadRecord.absorbedBlocks, SpongeOp.block, hraw]
    · obtain ⟨hok, htarget⟩ := Bool.and_eq_true_iff.mp hgood
      exact ⟨dev₁, htransfer, rfl, infnoiseUsbTransfer_justFed htransfer, hok, htarget⟩

/-! ### Uses -/

lemma UsedOnce.append {events events' : List BlockEvent} (h : UsedOnce events)
    (h' : UsedOnce events') : UsedOnce (events ++ events') := by
  intro pre e post heq he
  rcases List.append_eq_append_iff.mp heq with ⟨as, rfl, hpost⟩ | ⟨as, rfl, hpost⟩
  · obtain ⟨pre', block, rfl, huses⟩ := h' as e post hpost he
    exact ⟨events ++ pre', block, (List.append_assoc _ _ _).symm, huses⟩
  · rcases as with _ | ⟨a, as⟩
    · obtain ⟨pre', block, hnil, _⟩ := h' [] e post hpost.symm he
      cases pre' <;> cases hnil
    · obtain ⟨rfl, _⟩ := List.cons.inj hpost
      exact h pre e as rfl he

lemma usedOnce_nil : UsedOnce [] := fun pre e post h => by cases pre <;> cases h

lemma usedOnce_received (block : Vector Byte 64) (approved : Bool) :
    UsedOnce [.received block approved] := by
  rintro (_ | ⟨a, pre⟩) e post h he
  · cases h
    cases he
  · cases pre <;> cases h

lemma usedOnce_pair {block : Vector Byte 64} {e : BlockEvent} (h : e.Uses block) :
    UsedOnce [.received block true, e] := by
  rintro (_ | ⟨a, _ | ⟨a', pre⟩⟩) e' post heq he
  · cases heq
    cases he
  · cases heq
    exact ⟨[], block, rfl, h⟩
  · cases pre <;> cases heq

lemma UsedOnce.flatMap {α : Type*} {f : α → List BlockEvent} {l : List α}
    (h : ∀ a ∈ l, UsedOnce (f a)) : UsedOnce (l.flatMap f) := by
  induction l with
  | nil => exact usedOnce_nil
  | cons a l ih =>
    rw [List.flatMap_cons]
    exact (h a List.mem_cons_self).append (ih fun b hb => h b (List.mem_cons_of_mem _ hb))

lemma BlockStep.usedOnce {c : ReadRecord} (h : BlockStep c) : UsedOnce c.blockEvents := by
  cases h with
  | none hevents => exact hevents ▸ usedOnce_nil
  | unused block approved hevents => exact hevents ▸ usedOnce_received block approved
  | absorbed block hevents => exact hevents ▸ usedOnce_pair rfl
  | returned block _ hevents hfirst => exact hevents ▸ usedOnce_pair hfirst

/-- A call uses the block it has received, if any. -/
lemma BlockStep.kept {c : ReadRecord} (h : BlockStep c) (fresh : Bool) :
    Tap.Kept 64 fresh (c.blockEvents.map BlockEvent.tap) := by
  cases h with
  | none hevents =>
    rw [hevents]
    exact trivial
  | unused block approved hevents =>
    rw [hevents]
    exact trivial
  | absorbed block hevents =>
    rw [hevents]
    exact ⟨rfl, le_rfl, trivial⟩
  | returned block _ hevents hfirst =>
    rw [hevents]
    exact ⟨rfl, hfirst.length_le.trans_eq block.length_toList, trivial⟩

lemma BlockStep.approved {c : ReadRecord} (h : BlockStep c) {block : Vector Byte 64}
    (hblock : block ∈ c.absorbedBlocks) : c.Approved block := by
  cases h with
  | none _ hblocks | unused _ _ _ hblocks | returned _ hblocks =>
    rw [hblocks] at hblock
    cases hblock
  | absorbed _ _ hblocks happroved =>
    rw [hblocks] at hblock
    rw [List.mem_singleton.mp hblock]
    exact happroved

/-! ### Steps -/

/-- A step reads from the device, hands out what its task has read, or does neither. -/
inductive HistoryStep (c : DriverRecord) : Prop where
  | moves (hread : c.read = none) (hkeccak : c.after.dev.keccak = c.before.dev.keccak)
      (hleft : c.after.dev.keccakBytesLeft = c.before.dev.keccakBytesLeft)
      (hdelivered : c.output.delivered = [])
      (hheld : ∀ t, (c.after.tasks t).held = none ∨
        (c.after.tasks t).held = (c.before.tasks t).held)
  | gives {t : ℕ} {ret : Except Errno ℕ} {data : ℕ → Byte} (hread : c.read = none)
      (hdev : c.after.dev = c.before.dev) (htask : c.task = some t)
      (hbefore : (c.before.tasks t).held = some (ret, data))
      (hdelivered : c.output.delivered <+: deliveredBytes ret data)
      (hheld : ∀ t', (c.after.tasks t').held = none ∨
        t' ≠ t ∧ (c.after.tasks t').held = (c.before.tasks t').held)
  | reads {r : ReadRecord} (hread : c.read = some r) (hbefore : r.before = c.before.dev)
      (hstep : readStep r.before r.input = some (r.output, r.after))
      (hafter : r.after = c.after.dev) (hdelivered : c.output.delivered = [])
      (hheld : ∀ t, c.task ≠ some t ∧ (c.after.tasks t).held = (c.before.tasks t).held ∨
        c.task = some t ∧ (c.after.tasks t).held = some (r.output.ret, r.output.result))

section

variable {c : DriverRecord} {t : ℕ} {task : Task}

lemma held_update {tasks : ℕ → Task} (h : task.held = none ∨ task.held = (tasks t).held) (t' : ℕ) :
    (Function.update tasks t task t').held = none ∨
      (Function.update tasks t task t').held = (tasks t').held := by
  by_cases ht : t' = t
  · subst ht
    rwa [Function.update_self]
  · rw [Function.update_of_ne ht]
    exact .inr rfl

/-- The task moves on, or its call returns with nothing. -/
lemma HistoryStep.goesOn (hread : c.read = none) (hdev : c.after.dev = c.before.dev)
    (hdelivered : c.output.delivered = [])
    (htasks : c.after.tasks = Function.update c.before.tasks t task)
    (hheld : task.held = none ∨ task.held = (c.before.tasks t).held) : HistoryStep c := by
  refine .moves hread (hdev ▸ rfl) (hdev ▸ rfl) hdelivered ?_
  rw [htasks]
  exact held_update hheld

/-- The task hands out what it holds. -/
lemma HistoryStep.handsOut {ret : Except Errno ℕ} {data : ℕ → Byte} (hread : c.read = none)
    (hdev : c.after.dev = c.before.dev) (htask : c.task = some t)
    (htasks : c.after.tasks = Function.update c.before.tasks t task)
    (hbefore : (c.before.tasks t).held = some (ret, data))
    (hdelivered : c.output.delivered <+: deliveredBytes ret data) (hheld : task.held = none) :
    HistoryStep c := by
  refine .gives hread hdev htask hbefore hdelivered fun t' => ?_
  rw [htasks]
  by_cases ht : t' = t
  · subst ht
    rw [Function.update_self]
    exact .inl hheld
  · rw [Function.update_of_ne ht]
    exact .inr ⟨ht, rfl⟩

/-- The step reads from the device. -/
lemma HistoryStep.readsWith {call : ReadCall} {r : ReadResult} (hcall : c.readCall = some call)
    (hread : infnoiseReadData c.before.dev call.multiplier call.scripts call.result call.maxLen
      call.raw = some r)
    (hafter : c.after.dev = r.dev) (hdelivered : c.output.delivered = [])
    (hheld : ∀ t, c.task ≠ some t ∧ (c.after.tasks t).held = (c.before.tasks t).held ∨
      c.task = some t ∧ (c.after.tasks t).held = some (r.ret, r.result)) : HistoryStep c := by
  have hstep : readStep c.before.dev call = some (r, r.dev) := by
    rw [readStep, hread]
    rfl
  refine .reads (r := ⟨c.before.dev, call, r, r.dev⟩) ?_ rfl hstep hafter.symm hdelivered hheld
  rw [DriverRecord.read, hcall, Option.bind_some, hstep]
  rfl

/-- The task reads from the device and holds the result. -/
lemma HistoryStep.taskReads {call : ReadCall} {r : ReadResult} (hcall : c.readCall = some call)
    (hread : infnoiseReadData c.before.dev call.multiplier call.scripts call.result call.maxLen
      call.raw = some r)
    (hafter : c.after.dev = r.dev) (hdelivered : c.output.delivered = []) (htask : c.task = some t)
    (htasks : c.after.tasks = Function.update c.before.tasks t task)
    (hheld : task.held = some (r.ret, r.result)) : HistoryStep c := by
  refine .readsWith hcall hread hafter hdelivered fun t' => ?_
  rw [htasks]
  by_cases ht : t' = t
  · subst ht
    rw [Function.update_self]
    exact .inr ⟨htask, hheld⟩
  · rw [Function.update_of_ne ht, htask]
    exact .inl ⟨fun h => ht (Option.some.inj h).symm, rfl⟩

end

section

variable {d d' : Driver} {t : ℕ} {input : StepInput} {o : Output}

lemma DriverRecord.read_eq_none {c : DriverRecord} (h : c.readCall = none) : c.read = none := by
  rw [read, h, Option.bind_none]

/-- The call that a step of a task makes is that of the task. -/
lemma readCall_step {task : Task} (ht : d.tasks t = task) :
    DriverRecord.readCall ⟨d, .step t input, o, d'⟩ =
      DriverRecord.readCall ⟨{ d with tasks := fun _ => task }, .step t input, o, d'⟩ := by
  simp only [DriverRecord.readCall, ht]

lemma HwrngStep.history {call : HwrngCall} {pc : HwrngPc} (ht : d.tasks t = .hwrng call pc)
    (h : HwrngStep d t input call pc o d') : HistoryStep ⟨d, .step t input, o, d'⟩ := by
  have hcall : DriverRecord.readCall ⟨d, .step t input, o, d'⟩ = _ := readCall_step ht
  cases h with
  | absent | waits | enters | interrupted | woken | cold | warm | failed | healthy | locks =>
    exact .goesOn (DriverRecord.read_eq_none hcall) rfl rfl rfl (.inl rfl)
  | reads hread => exact .taskReads hcall hread rfl rfl rfl rfl rfl
  | unlocks =>
    exact .goesOn (DriverRecord.read_eq_none hcall) rfl rfl rfl (.inr (by rw [ht]; rfl))
  | returns =>
    exact .handsOut (DriverRecord.read_eq_none hcall) rfl rfl rfl (by rw [ht]; rfl)
      List.prefix_rfl rfl

lemma CharStep.history {call : CharCall} {pc : CharPc} (ht : d.tasks t = .char call pc)
    (h : CharStep d t input call pc o d') : HistoryStep ⟨d, .step t input, o, d'⟩ := by
  have hcall : DriverRecord.readCall ⟨d, .step t input, o, d'⟩ = _ := readCall_step ht
  cases h with
  | cold | waits | warm | interrupted | woken | failed | healthy | locks | ends | error | dry
  | again | signalled | retries =>
    exact .goesOn (DriverRecord.read_eq_none hcall) rfl rfl rfl (.inl rfl)
  | reads hread => exact .taskReads hcall hread rfl rfl rfl rfl rfl
  | unlocks =>
    exact .goesOn (DriverRecord.read_eq_none hcall) rfl rfl rfl (.inr (by rw [ht]; rfl))
  | faults hcopied =>
    exact .handsOut (DriverRecord.read_eq_none hcall) rfl rfl rfl (by rw [ht]; rfl)
      (bufferBytes_mono _ hcopied.le) rfl
  | copies =>
    exact .handsOut (DriverRecord.read_eq_none hcall) rfl rfl rfl (by rw [ht]; rfl)
      List.prefix_rfl rfl

lemma warmupStep_history {scripts : ℕ → AttemptScript} {discard : ℕ → Byte}
    (h : d.warmupStep scripts discard = some (o, d')) :
    HistoryStep ⟨d, .warmup scripts discard, o, d'⟩ := by
  have hmoves : DriverRecord.readCall ⟨d, .warmup scripts discard, o, d'⟩ = none →
      d'.dev.keccak = d.dev.keccak → d'.dev.keccakBytesLeft = d.dev.keccakBytesLeft →
      o = .silent → d'.tasks = d.tasks → HistoryStep ⟨d, .warmup scripts discard, o, d'⟩ := by
    intro hcall hkeccak hleft ho htasks
    exact .moves (DriverRecord.read_eq_none hcall) hkeccak hleft (ho ▸ rfl)
      fun t => .inr (congrArg Task.held (congrFun htasks t))
  rw [Driver.warmupStep] at h
  split at h
  · rename_i hw
    have hcall : DriverRecord.readCall ⟨d, .warmup scripts discard, o, d'⟩ = none := by
      simp only [DriverRecord.readCall, hw]
    split at h
    · cases h
    · cases h
      exact hmoves hcall rfl rfl rfl rfl
  · rename_i rounds hw
    split at h
    · rename_i hcond
      have hcall : DriverRecord.readCall ⟨d, .warmup scripts discard, o, d'⟩ =
          some ⟨d.multiplier, scripts, discard, 64, true⟩ := by
        simp only [DriverRecord.readCall, hw, hcond, if_true]
      obtain ⟨r, hread, heq⟩ := Option.map_eq_some_iff.mp h
      cases heq
      exact .readsWith hcall hread rfl rfl fun _ => .inl ⟨(fun hraw => by cases hraw), rfl⟩
    · rename_i hcond
      cases h
      refine hmoves ?_ rfl rfl rfl rfl
      simp only [DriverRecord.readCall, hw, hcond]
      rfl
  · rename_i rounds hw
    have hcall : DriverRecord.readCall ⟨d, .warmup scripts discard, o, d'⟩ = none := by
      simp only [DriverRecord.readCall, hw]
    split_ifs at h <;> cases h <;> exact hmoves hcall rfl rfl rfl rfl
  · rename_i hw
    have hcall : DriverRecord.readCall ⟨d, .warmup scripts discard, o, d'⟩ = none := by
      simp only [DriverRecord.readCall, hw]
    cases h
    exact hmoves hcall rfl rfl rfl rfl
  · cases h

end

/-- Every step of the driver is of one of the three kinds. -/
lemma step_history {c : DriverRecord} (hstep : c.before.step c.input = some (c.output, c.after)) :
    HistoryStep c := by
  obtain ⟨d, a, o, d'⟩ := c
  dsimp only at hstep
  cases driverStep_cases hstep with
  | warmup => exact warmupStep_history hstep
  | hwrngRead hidle | charRead hidle | ioctlGet hidle => exact .goesOn rfl rfl rfl rfl (.inl rfl)
  | ioctlSetRaw | setParameters => exact .moves rfl rfl rfl rfl fun _ => .inr rfl
  | hwrng ht h => exact h.history ht
  | char ht h => exact h.history ht
  | ioctl ht h =>
    cases h with
    | locks | returns =>
      exact .goesOn (DriverRecord.read_eq_none (readCall_step ht)) rfl rfl rfl (.inl rfl)

/-! ### Runs -/

/-- Whitened bytes come from a block: one absorbed now, or one that has left bytes. -/
lemma readStep_funded {r : ReadRecord}
    (hstep : readStep r.before r.input = some (r.output, r.after)) :
    (0 < r.after.keccakBytesLeft → 0 < r.before.keccakBytesLeft ∨ r.absorbedBlocks ≠ []) ∧
      (r.input.raw = false → r.bytes ≠ [] →
        0 < r.before.keccakBytesLeft ∨ r.absorbedBlocks ≠ []) := by
  obtain ⟨dev, ⟨multiplier, scripts, result, maxLen, raw⟩, r, dev'⟩ := r
  obtain ⟨r', hread, heq⟩ := Option.map_eq_some_iff.mp hstep
  obtain ⟨rfl, rfl⟩ := Prod.mk.inj heq
  dsimp only at hread
  cases infnoiseReadData_step hread with
  | absent => exact ⟨.inl, fun _ hbytes => absurd rfl hbytes⟩
  | squeezed _ _ hpos => exact ⟨fun _ => .inl hpos, fun _ _ => .inl hpos⟩
  | failed _ htransfer =>
    obtain ⟨hframe, _⟩ := infnoiseUsbTransfer_cases htransfer
    exact ⟨fun hpos => .inl (hframe.keccakBytesLeft_eq ▸ hpos), fun _ hbytes => absurd rfl hbytes⟩
  | rejected _ htransfer =>
    obtain ⟨hframe, _⟩ := infnoiseUsbTransfer_cases htransfer
    exact ⟨fun hpos => .inl (hframe.keccakBytesLeft_eq ▸ hpos), fun _ hbytes => absurd rfl hbytes⟩
  | rawBlock _ htransfer _ hraw =>
    obtain ⟨hframe, _⟩ := infnoiseUsbTransfer_cases htransfer
    refine ⟨fun hpos => .inl (hframe.keccakBytesLeft_eq ▸ hpos), fun hraw' => ?_⟩
    rw [hraw] at hraw'
    cases hraw'
  | absorbed => exact ⟨fun _ => .inr (List.cons_ne_nil _ _), fun _ _ => .inr (List.cons_ne_nil _ _)⟩

/-- What a driver knows of its history. -/
structure Driver.Recalls (cs : List DriverRecord) (d : Driver) : Prop where
  state_eq : d.dev.keccak = (spongeOps cs).foldl SpongeOp.apply infnoiseKeccakInit
  funded : 0 < d.dev.keccakBytesLeft → ∃ r ∈ reads cs, r.absorbedBlocks ≠ []
  /-- What a task holds is what it has read last, and it has handed out nothing since. -/
  held : ∀ t ret data, (d.tasks t).held = some (ret, data) → ∃ pre s mid r,
    cs = pre ++ s :: mid ∧ s.task = some t ∧ s.read = some r ∧
      r.output.ret = ret ∧ r.output.result = data ∧
      (∀ x ∈ mid, x.task = some t → x.read = none ∧ x.output.delivered = []) ∧
      (r.input.raw = false → r.bytes ≠ [] → ∃ r' ∈ reads (pre ++ [s]), r'.absorbedBlocks ≠ [])

lemma reads_append_of_none {cs : List DriverRecord} {c : DriverRecord} (h : c.read = none) :
    reads (cs ++ [c]) = reads cs := by
  rw [reads, List.filterMap_append, List.filterMap_cons_none h, List.filterMap_nil, List.append_nil]
  rfl

lemma reads_append_of_some {cs : List DriverRecord} {c : DriverRecord} {r : ReadRecord}
    (h : c.read = some r) : reads (cs ++ [c]) = reads cs ++ [r] := by
  rw [reads, List.filterMap_append, List.filterMap_cons_some h, List.filterMap_nil]
  rfl

lemma spongeOps_append_of_some {cs : List DriverRecord} {c : DriverRecord} {r : ReadRecord}
    (h : c.read = some r) : spongeOps (cs ++ [c]) = spongeOps cs ++ r.output.ops := by
  rw [spongeOps, spongeLog, reads_append_of_some h, List.flatMap_append, List.flatMap_singleton]
  rfl

/-- What is held stays with its task over a step in which the task neither reads nor hands out. -/
lemma Driver.Recalls.held_snoc {cs : List DriverRecord} {d : Driver} (h : d.Recalls cs)
    {c : DriverRecord} {t : ℕ} {ret : Except Errno ℕ} {data : ℕ → Byte}
    (hheld : (d.tasks t).held = some (ret, data))
    (hc : c.task = some t → c.read = none ∧ c.output.delivered = []) : ∃ pre s mid r,
    cs ++ [c] = pre ++ s :: mid ∧ s.task = some t ∧ s.read = some r ∧
      r.output.ret = ret ∧ r.output.result = data ∧
      (∀ x ∈ mid, x.task = some t → x.read = none ∧ x.output.delivered = []) ∧
      (r.input.raw = false → r.bytes ≠ [] → ∃ r' ∈ reads (pre ++ [s]), r'.absorbedBlocks ≠ []) := by
  obtain ⟨pre, s, mid, r, rfl, htask, hread, hret, hdata, hmid, hfunded⟩ := h.held t ret data hheld
  refine ⟨pre, s, mid ++ [c], r, ?_, htask, hread, hret, hdata, fun x hx => ?_, hfunded⟩
  · rw [List.append_assoc, List.cons_append]
  · rcases List.mem_append.mp hx with hx | hx
    · exact hmid x hx
    · rw [List.mem_singleton.mp hx]
      exact hc

/-- Every step keeps it. -/
lemma Driver.Recalls.step {cs : List DriverRecord} {c : DriverRecord} (hd : c.before.Recalls cs)
    (h : HistoryStep c) : c.after.Recalls (cs ++ [c]) := by
  cases h with
  | moves hread hkeccak hleft hdelivered hheld =>
    refine ⟨?_, ?_, fun t ret data hafter => ?_⟩
    · rw [hkeccak, spongeOps, reads_append_of_none hread]
      exact hd.state_eq
    · rw [hleft, reads_append_of_none hread]
      exact hd.funded
    · rcases hheld t with hnone | hsame
      · rw [hnone] at hafter
        cases hafter
      · exact hd.held_snoc (hsame ▸ hafter) fun _ => ⟨hread, hdelivered⟩
  | @gives t ret data hread hdev htask _ _ hheld =>
    refine ⟨?_, ?_, fun t' ret data hafter => ?_⟩
    · rw [hdev, spongeOps, reads_append_of_none hread]
      exact hd.state_eq
    · rw [hdev, reads_append_of_none hread]
      exact hd.funded
    · rcases hheld t' with hnone | ⟨hne, hsame⟩
      · rw [hnone] at hafter
        cases hafter
      · refine hd.held_snoc (hsame ▸ hafter) fun htask' => absurd ?_ hne
        exact Option.some.inj (htask'.symm.trans htask)
  | @reads r hread hbefore hstep hafter hdelivered hheld =>
    obtain ⟨hleft, hbytes⟩ := readStep_funded hstep
    have habsorbed : 0 < r.before.keccakBytesLeft ∨ r.absorbedBlocks ≠ [] →
        ∃ r' ∈ reads (cs ++ [c]), r'.absorbedBlocks ≠ [] := by
      rw [reads_append_of_some hread, hbefore]
      rintro (hpos | hblocks)
      · obtain ⟨r', hr', hblocks⟩ := hd.funded hpos
        exact ⟨r', List.mem_append_left _ hr', hblocks⟩
      · exact ⟨r, List.mem_append_right _ (List.mem_singleton_self r), hblocks⟩
    refine ⟨?_, fun hpos => habsorbed (hleft (hafter ▸ hpos)), fun t ret data hafter' => ?_⟩
    · obtain ⟨⟨hkeccak, _⟩, _, _⟩ := readStep_log hstep
      rw [← hafter, hkeccak, hbefore, hd.state_eq, spongeOps_append_of_some hread,
        List.foldl_append]
    · rcases hheld t with ⟨hne, hsame⟩ | ⟨htask, hsome⟩
      · exact hd.held_snoc (hsame ▸ hafter') fun htask => absurd htask hne
      · obtain ⟨hret, hdata⟩ := Prod.mk.inj (Option.some.inj (hsome.symm.trans hafter'))
        refine ⟨cs, c, [], r, rfl, htask, hread, hret, hdata, ?_, ?_⟩
        · intro x hx
          cases hx
        · exact fun hraw hne => habsorbed (hbytes hraw hne)

lemma infnoiseProbe_recalls (clockBuf usbBuf readBuf outBuf : ℕ → Byte) (multiplier : ℕ)
    (rawMode : Bool) :
    (infnoiseProbe clockBuf usbBuf readBuf outBuf multiplier rawMode).Recalls [] :=
  ⟨rfl, fun hpos => absurd hpos (lt_irrefl 0), fun t ret data hheld => by cases hheld⟩

/-- In every run of a device from its probe on, whatever the order of the steps and the answers of
the device: the sponge is a function of the blocks absorbed and the squeezes, the blocks absorbed
are approved, each block is used once at most, and whitened bytes come after a block. -/
theorem device_history {clockBuf usbBuf readBuf outBuf : ℕ → Byte} {multiplier : ℕ} {rawMode : Bool}
    {d : Driver} {cs : List DriverRecord}
    (h : Run Driver.step (infnoiseProbe clockBuf usbBuf readBuf outBuf multiplier rawMode) cs d) :
    DeviceHistory cs d := by
  have hrecalls : ∀ {cs : List DriverRecord} {d : Driver}, Run Driver.step
      (infnoiseProbe clockBuf usbBuf readBuf outBuf multiplier rawMode) cs d → d.Recalls cs :=
    fun h => h.history (I := fun cs d => d.Recalls cs)
      (fun _ c _ hstep hd => hd.step (step_history hstep)) (infnoiseProbe_recalls ..)
  have hblocks : ∀ r ∈ reads cs, BlockStep r := by
    intro r hr
    obtain ⟨c, hc, hread⟩ := List.mem_filterMap.mp hr
    cases step_history (h.step_of_mem hc) with
    | moves hnone | gives hnone =>
      rw [hnone] at hread
      cases hread
    | reads hsome _ hstep =>
      obtain rfl := Option.some.inj (hsome.symm.trans hread)
      exact readStep_blocks hstep
  refine ⟨(hrecalls h).state_eq, fun r hr block => (hblocks r hr).approved,
    UsedOnce.flatMap fun r hr => (hblocks r hr).usedOnce, ?_, ?_⟩
  · rw [blockEvents, List.map_flatMap]
    exact (Tap.Kept.flatMap (fun r hr => (hblocks r hr).kept) true).nodup_places 0
  · rintro pre c post rfl hne
    obtain ⟨d', hpre, hrest⟩ := Run.append_iff.mp h
    obtain ⟨rfl, hc, _⟩ := Run.cons_iff.mp hrest
    cases step_history hc with
    | moves _ _ _ hdelivered | reads _ _ _ _ hdelivered => exact absurd hdelivered hne
    | @gives t ret data _ _ htask hheld hdelivered _ =>
      obtain ⟨pre', s, mid, r, hpre', htask', hread, rfl, rfl, hmid, hfunded⟩ :=
        (hrecalls hpre).held t ret data hheld
      refine ⟨t, pre', s, mid, r, htask, hpre', htask', hread, hdelivered, hmid, fun hraw => ?_⟩
      refine hfunded hraw fun hnil => hne ?_
      exact List.prefix_nil.mp (hnil ▸ hdelivered)

/-- The warm-up, and a read of 16 bytes. -/
theorem device_history_read : ∃ cs d, Run Driver.step probed cs d ∧
      (∃ c ∈ cs, c.output.delivered ≠ []) ∧ DeviceHistory cs d := by
  obtain ⟨cs, d, hrun, _, hdelivered⟩ := exists_run_warm_read
  exact ⟨cs, d, hrun, hdelivered, device_history hrun⟩

end Kernel
