import Infnoise.Kernel.History
import Infnoise.Kernel.Session

/-!
# The contract of the character device

`infnoise_char_read` calls `infnoise_read_data` until it has the bytes it was asked for, and what
it does with a value that is not a count depends on whether bytes have been copied out. Here one
call of it meets any values. The call of a task of the driver is an instance of it, whatever the
other tasks do in between.
-/

namespace Kernel

open Core

attribute [local irreducible] infnoiseKeccakPermutation infnoiseKeccakAbsorb

/-! ### One call -/

/-- What a round of the loop meets: what `infnoise_read_data` gives for the size it is asked, and
whether a signal is pending after the pause. -/
structure CharRound where
  readData : ℕ → Except Errno ℕ × (ℕ → Byte)
  signal : Bool

/-- What a call of `infnoise_char_read` meets: whether the file has a device, its flags, how the
wait for the warm-up ends, and the rounds of the loop. -/
structure CharScript where
  attached : Bool
  warmupDone : Bool
  interrupted : Bool
  healthFail : Bool
  rounds : List CharRound

/-- What the call returns, the buffer of the user, and the calls of `infnoise_read_data` that were
made. The last is no state of the driver. -/
structure CharResult where
  ret : Except Errno ℕ
  buf : ℕ → Byte
  calls : List (Except Errno ℕ × (ℕ → Byte))

/-- The bytes that the calls of `infnoise_read_data` gave. -/
def CharResult.bytes (r : CharResult) : List Byte :=
  r.calls.flatMap fun (ret, data) => deliveredBytes ret data

/-- The rest of a call, after one more call of `infnoise_read_data`. -/
def CharResult.after (r : CharResult) (read : Except Errno ℕ × (ℕ → Byte)) : CharResult :=
  { r with calls := read :: r.calls }

/-- What is done with the value of `infnoise_read_data`, when `copy_to_user` succeeds: the value to
return, or `none` when the loop goes on, and the bytes copied. -/
def afterRead (call : CharCall) (signal : Bool) (total : ℕ) (buf data : ℕ → Byte) :
    Except Errno ℕ → Option (Except Errno ℕ) × ℕ × (ℕ → Byte)
  | .error e => (some (if total ≠ 0 then .ok total else .error e), total, buf)
  | .ok 0 =>
    if total > 0 then (some (.ok total), total, buf)
    else if call.nonblock then (some (.error .eagain), total, buf)
    else if signal then (some (.error .erestartsys), total, buf)
    else (none, total, buf)
  | .ok (n + 1) => (none, total + (n + 1), memcpy buf total data (n + 1))

/-- The loop of `infnoise_char_read`; `none` when it is still in it after these rounds. -/
def charLoop (call : CharCall) : List CharRound → ℕ → (ℕ → Byte) → Option CharResult
  | [], total, buf => if total < call.count then none else some ⟨.ok total, buf, []⟩
  | round :: rounds, total, buf =>
    if total < call.count then
      let read := round.readData (min (call.count - total) 128)
      match afterRead call round.signal total buf read.2 read.1 with
      | (some ret, _, buf) => some ⟨ret, buf, [read]⟩
      | (none, total, buf) => (charLoop call rounds total buf).map fun r => r.after read
    else some ⟨.ok total, buf, []⟩

/-- `infnoise_char_read`. -/
def infnoiseCharRead (script : CharScript) (call : CharCall) (buf : ℕ → Byte) :
    Option CharResult :=
  if !script.attached then some ⟨.error .enodev, buf, []⟩
  else if !script.warmupDone && call.nonblock then some ⟨.error .eagain, buf, []⟩
  else if !script.warmupDone && script.interrupted then some ⟨.error .erestartsys, buf, []⟩
  else if script.healthFail then some ⟨.error .eio, buf, []⟩
  else charLoop call script.rounds 0 buf

/-! ### The contract -/

/-- A call of `infnoise_read_data` gives no more than it was asked for. -/
def CharRound.InRange (round : CharRound) : Prop :=
  ∀ size n, (round.readData size).1 = .ok n → n ≤ size

lemma bufferBytes_memcpy {buf data : ℕ → Byte} {total n : ℕ} :
    bufferBytes (memcpy buf total data n) (total + n) =
      bufferBytes buf total ++ bufferBytes data n := by
  rw [bufferBytes, List.range_add, List.map_append, List.map_map]
  congr 1
  · apply List.map_congr_left
    intro i hi
    have hlt := List.mem_range.mp hi
    rw [memcpy, if_neg (by omega)]
  · apply List.map_congr_left
    intro i hi
    have hlt := List.mem_range.mp hi
    rw [Function.comp_apply, memcpy_of_lt (by omega) (by omega), Nat.add_sub_cancel_left]

/-- The value a call returns after `total` bytes, and what it has copied then: an error only when
there is nothing, or a count of the bytes, which stand in the buffer. -/
structure CharResult.Sound (call : CharCall) (total : ℕ) (buf : ℕ → Byte) (r : CharResult) :
    Prop where
  error : ∀ e, r.ret = .error e → total = 0 ∧ r.bytes = [] ∧ r.buf = buf
  ok : ∀ n, r.ret = .ok n → 0 < n ∧ n ≤ call.count ∧
    bufferBytes r.buf n = bufferBytes buf total ++ r.bytes

/-- What the value of `infnoise_read_data` leads to: the call ends with the bytes it has, or goes on
with those that were read. -/
lemma afterRead_cases {call : CharCall} {signal : Bool} {total : ℕ} {buf data : ℕ → Byte}
    {ret : Except Errno ℕ} (hle : total ≤ call.count)
    (hrange : ∀ n, ret = .ok n → n ≤ call.count - total) :
    (∃ ret', afterRead call signal total buf data ret = (some ret', total, buf) ∧
        deliveredBytes ret data = [] ∧
        ((total = 0 ∧ ∃ e, ret' = .error e) ∨ 0 < total ∧ ret' = .ok total)) ∨
      ∃ total' buf', afterRead call signal total buf data ret = (none, total', buf') ∧
        total' ≤ call.count ∧
        bufferBytes buf' total' = bufferBytes buf total ++ deliveredBytes ret data ∧
        (total' = 0 → total = 0 ∧ deliveredBytes ret data = [] ∧ buf' = buf) := by
  rcases ret with e | _ | n
  · refine .inl ⟨_, rfl, rfl, ?_⟩
    rcases Nat.eq_zero_or_pos total with rfl | hpos
    · exact .inl ⟨rfl, e, rfl⟩
    · exact .inr ⟨hpos, if_pos (Nat.ne_of_gt hpos)⟩
  · rcases Nat.eq_zero_or_pos total with rfl | hpos
    · rw [afterRead, if_neg (Nat.lt_irrefl 0)]
      split_ifs
      · exact .inl ⟨_, rfl, rfl, .inl ⟨rfl, _, rfl⟩⟩
      · exact .inl ⟨_, rfl, rfl, .inl ⟨rfl, _, rfl⟩⟩
      · exact .inr ⟨0, buf, rfl, hle, rfl, fun _ => ⟨rfl, rfl, rfl⟩⟩
    · exact .inl ⟨_, by rw [afterRead, if_pos hpos], rfl, .inr ⟨hpos, rfl⟩⟩
  · have hn := hrange (n + 1) rfl
    refine .inr ⟨_, _, rfl, by omega, bufferBytes_memcpy, fun h0 => ?_⟩
    omega

@[simp] lemma CharResult.bytes_after (r : CharResult) (read : Except Errno ℕ × (ℕ → Byte)) :
    (r.after read).bytes = deliveredBytes read.1 read.2 ++ r.bytes := List.flatMap_cons

/-- A call that ends with the bytes it has. -/
lemma CharResult.sound_of_ends {call : CharCall} {total : ℕ} {ret : Except Errno ℕ}
    {buf : ℕ → Byte} {calls : List (Except Errno ℕ × (ℕ → Byte))} (hle : total ≤ call.count)
    (hbytes : CharResult.bytes ⟨ret, buf, calls⟩ = [])
    (hret : (total = 0 ∧ ∃ e, ret = .error e) ∨ 0 < total ∧ ret = .ok total) :
    CharResult.Sound call total buf ⟨ret, buf, calls⟩ := by
  rcases hret with ⟨h0, e, rfl⟩ | ⟨hpos, rfl⟩
  · exact ⟨fun _ _ => ⟨h0, hbytes, rfl⟩, fun n hn => by cases hn⟩
  · refine ⟨(fun e he => by cases he), fun n hn => ?_⟩
    cases hn
    exact ⟨hpos, hle, by rw [hbytes, List.append_nil]⟩

/-- What the loop returns after `total` bytes. The induction is on the rounds it meets. -/
lemma charLoop_sound {call : CharCall} (hcount : 0 < call.count) {rounds : List CharRound}
    (hrange : ∀ round ∈ rounds, round.InRange) {total : ℕ} {buf : ℕ → Byte} {r : CharResult}
    (hle : total ≤ call.count) (h : charLoop call rounds total buf = some r) :
    r.Sound call total buf := by
  induction rounds generalizing total buf r with
  | nil =>
    rw [charLoop] at h
    split at h
    · cases h
    · cases h
      exact CharResult.sound_of_ends hle rfl (.inr ⟨by omega, rfl⟩)
  | cons round rounds ih =>
    rw [charLoop] at h
    split at h
    · obtain ⟨read, hread⟩ : ∃ read, round.readData (min (call.count - total) 128) = read :=
        ⟨_, rfl⟩
      have hin : ∀ n, read.1 = .ok n → n ≤ call.count - total := fun n hn =>
        (hrange round List.mem_cons_self _ n (hread ▸ hn)).trans (min_le_left _ _)
      simp only [hread] at h
      rcases afterRead_cases hle hin with ⟨ret, hafter, hbytes, hret⟩ |
        ⟨total', buf', hafter, hle', happend, hzero⟩
      · rw [hafter] at h
        cases h
        refine CharResult.sound_of_ends hle ?_ hret
        rw [CharResult.bytes, List.flatMap_singleton]
        exact hbytes
      · rw [hafter] at h
        obtain ⟨r', hrest, rfl⟩ := Option.map_eq_some_iff.mp h
        have hsound := ih (fun x hx => hrange x (List.mem_cons_of_mem _ hx)) hle' hrest
        refine ⟨fun e he => ?_, fun n hn => ?_⟩
        · obtain ⟨h0, hnone, hbuf⟩ := hsound.error e he
          obtain ⟨rfl, hempty, rfl⟩ := hzero h0
          exact ⟨rfl, by rw [CharResult.bytes_after, hempty, hnone, List.nil_append], hbuf⟩
        · obtain ⟨hpos, hlen, hbuf⟩ := hsound.ok n hn
          refine ⟨hpos, hlen, ?_⟩
          rw [CharResult.bytes_after, ← List.append_assoc, ← happend]
          exact hbuf
    · cases h
      exact CharResult.sound_of_ends hle rfl (.inr ⟨by omega, rfl⟩)

lemma infnoiseCharRead_sound {script : CharScript} {call : CharCall} (hcount : 0 < call.count)
    (hrange : ∀ round ∈ script.rounds, round.InRange) {buf : ℕ → Byte} {r : CharResult}
    (h : infnoiseCharRead script call buf = some r) : r.Sound call 0 buf := by
  have hends : ∀ e, CharResult.Sound call 0 buf ⟨.error e, buf, []⟩ := fun e =>
    CharResult.sound_of_ends (Nat.zero_le _) rfl (.inl ⟨rfl, e, rfl⟩)
  rw [infnoiseCharRead] at h
  split_ifs at h
  · cases h
    exact hends .enodev
  · cases h
    exact hends .eagain
  · cases h
    exact hends .erestartsys
  · cases h
    exact hends .eio
  · exact charLoop_sound hcount hrange (Nat.zero_le _) h

/-- A call of `infnoise_char_read` that returns, whatever its calls of `infnoise_read_data` gave
within the sizes it asked: it returns a negative error, and has copied nothing, or it returns a
total between 1 and the count, and so many bytes of the user's buffer are those that its calls of
`infnoise_read_data` gave, in their order. -/
theorem charRead_contract {script : CharScript} {call : CharCall} (hcount : 0 < call.count)
    (hrange : ∀ round ∈ script.rounds, round.InRange) {buf : ℕ → Byte} {r : CharResult}
    (h : infnoiseCharRead script call buf = some r) :
    (∃ e, r.ret = .error e ∧ r.bytes = [] ∧ r.buf = buf) ∨
      ∃ total, r.ret = .ok total ∧ 1 ≤ total ∧ total ≤ call.count ∧
        bufferBytes r.buf total = r.bytes := by
  have hsound := infnoiseCharRead_sound hcount hrange h
  rcases hret : r.ret with e | total
  · exact .inl ⟨e, rfl, (hsound.error e hret).2⟩
  · exact .inr ⟨total, rfl, hsound.ok total hret⟩

/-- A round of a device that has at most `n` bytes, all of them `byte`. -/
def boundedRound (n : ℕ) (byte : Byte) : CharRound where
  readData size := (.ok (min size n), fun _ => byte)
  signal := false

/-- A blocking read of three bytes that first finds no data, and then two bytes and one. -/
theorem charRead_contract_three : ∃ r : CharResult,
    infnoiseCharRead
      ⟨true, true, false, false, [boundedRound 0 0, boundedRound 2 5, boundedRound 9 7]⟩ ⟨3, false⟩
      (fun _ => 0) = some r ∧ r.ret = .ok 3 ∧ r.bytes = [5, 5, 7] ∧
      bufferBytes r.buf 3 = r.bytes := by
  obtain ⟨r, hr⟩ : ∃ r, infnoiseCharRead
      ⟨true, true, false, false, [boundedRound 0 0, boundedRound 2 5, boundedRound 9 7]⟩ ⟨3, false⟩
      (fun _ => 0) = some r := ⟨_, rfl⟩
  have hrange : ∀ n byte, (boundedRound n byte).InRange := by
    rintro n byte size m hm
    cases hm
    exact min_le_left _ _
  have hret : r.ret = .ok 3 := by
    cases hr
    rfl
  have hbytes : r.bytes = [5, 5, 7] := by
    cases hr
    rfl
  rcases charRead_contract (by norm_num) (by simp [hrange]) hr with ⟨e, herror, -⟩ |
    ⟨total, htotal, -, -, hbuf⟩
  · cases hret.symm.trans herror
  · cases hret.symm.trans htotal
    exact ⟨r, hr, hret, hbytes, hbuf⟩

/-! ### The calls of the tasks -/

lemma infnoiseReadData_le {dev : Device} {multiplier : ℕ} {scripts : ℕ → AttemptScript}
    {result : ℕ → Byte} {maxLen n : ℕ} {raw : Bool} {r : ReadResult}
    (h : infnoiseReadData dev multiplier scripts result maxLen raw = some r)
    (hret : r.ret = .ok n) : n ≤ maxLen := by
  cases infnoiseReadData_step h with
  | absent | failed => cases hret
  | squeezed =>
    cases hret
    exact (min_le_left _ _).trans (min_le_left _ _)
  | rejected =>
    cases hret
    exact Nat.zero_le _
  | rawBlock =>
    cases hret
    exact min_le_left _ _
  | absorbed =>
    cases hret
    exact (min_le_left _ _).trans (min_le_left _ _)

/-- A call of `infnoise_read_data` on a device, for any size. -/
def readRound (dev : Device) (multiplier : ℕ) (scripts : ℕ → AttemptScript) (buffer : ℕ → Byte)
    (raw signal : Bool) : CharRound where
  readData size :=
    match infnoiseReadData dev multiplier scripts buffer size raw with
    | some r => (r.ret, r.result)
    | none => (.error .eio, buffer)
  signal

lemma readRound_inRange (dev : Device) (multiplier : ℕ) (scripts : ℕ → AttemptScript)
    (buffer : ℕ → Byte) (raw signal : Bool) :
    (readRound dev multiplier scripts buffer raw signal).InRange := by
  intro size n hret
  rw [readRound] at hret
  rcases hread : infnoiseReadData dev multiplier scripts buffer size raw with _ | r
  · simp only [hread] at hret
    cases hret
  · simp only [hread] at hret
    exact infnoiseReadData_le hread hret

/-- The rest of a call of `infnoise_char_read`. A call that has read meets the signal next. -/
def charResume (script : CharScript) (signal : Bool) (call : CharCall) (buf : ℕ → Byte) :
    CharPc → Option CharResult
  | .entered => infnoiseCharRead script call buf
  | .waiting => infnoiseCharRead { script with warmupDone := false } call buf
  | .failTest => infnoiseCharRead { script with warmupDone := true } call buf
  | .loop total | .locked total => charLoop call script.rounds total buf
  | .unlocking total ret data | .copying total ret data =>
    match afterRead call signal total buf data ret with
    | (some ret', _, buf) => some ⟨ret', buf, [(ret, data)]⟩
    | (none, total, buf) =>
      (charLoop call script.rounds total buf).map fun r => r.after (ret, data)

/-- What a call knows where it stands: only a blocking file waits, there is room for what is read,
and what was read fits in the buffer on the stack. -/
def CharCall.Meets (call : CharCall) : CharPc → Prop
  | .waiting => call.nonblock = false
  | .locked total => total < call.count
  | .unlocking _ ret _ | .copying _ ret _ => ∀ n, ret = .ok n → n ≤ 128
  | .entered | .failTest | .loop _ => True

/-- From here on the call can meet values with which it returns `ret` and copies `bytes`. -/
def CharCall.Ends (call : CharCall) (pc : CharPc) (ret : Except Errno ℕ) (bytes : List Byte) :
    Prop :=
  ∃ (script : CharScript) (signal : Bool), script.attached = true ∧
    (∀ round ∈ script.rounds, round.InRange) ∧
    ∀ buf, ∃ r, charResume script signal call buf pc = some r ∧ r.ret = ret ∧ r.bytes = bytes

section

variable {d d' : Driver} {t : ℕ} {input : StepInput} {o : Output} {call : CharCall} {pc : CharPc}

/-- A step of a task in `infnoise_char_read` ends the call, or the rest of the call goes on from
where the step has led. -/
lemma CharStep.resumes (h : CharStep d t input call pc o d') (hcopied : 128 ≤ input.copied)
    (hpc : call.Meets pc) :
    (∃ ret, o.returned = some ret ∧ call.Ends pc ret o.delivered) ∨
      o.returned = none ∧ ∃ pc', d'.tasks t = .char call pc' ∧ call.Meets pc' ∧
        ∀ ret bytes, call.Ends pc' ret bytes → call.Ends pc ret (o.delivered ++ bytes) := by
  cases h with
  | cold hdone hnonblock =>
    refine .inl ⟨_, rfl, ⟨true, false, false, false, []⟩, false, rfl, nofun, fun buf => ?_⟩
    exact ⟨⟨.error .eagain, buf, []⟩, by simp [charResume, infnoiseCharRead, hnonblock], rfl, rfl⟩
  | waits hdone hnonblock =>
    refine .inr ⟨rfl, .waiting, Driver.setTask_tasks .., hnonblock, ?_⟩
    rintro ret bytes ⟨script, signal, hattached, hrange, hrest⟩
    exact ⟨{ script with warmupDone := false }, signal, hattached, hrange, hrest⟩
  | warm hdone =>
    refine .inr ⟨rfl, .failTest, Driver.setTask_tasks .., trivial, ?_⟩
    rintro ret bytes ⟨script, signal, hattached, hrange, hrest⟩
    exact ⟨{ script with warmupDone := true }, signal, hattached, hrange, hrest⟩
  | interrupted hsignal =>
    refine .inl ⟨_, rfl, ⟨true, false, true, false, []⟩, false, rfl, nofun, fun buf => ?_⟩
    have hnonblock : call.nonblock = false := hpc
    exact ⟨⟨.error .erestartsys, buf, []⟩, by simp [charResume, infnoiseCharRead, hnonblock],
      rfl, rfl⟩
  | woken hsignal htoken =>
    refine .inr ⟨rfl, .failTest, Driver.setTask_tasks .., trivial, ?_⟩
    rintro ret bytes ⟨script, signal, hattached, hrange, hrest⟩
    refine ⟨{ script with interrupted := false }, signal, hattached, hrange, fun buf => ?_⟩
    have hnonblock : call.nonblock = false := hpc
    obtain ⟨r, hr, hret⟩ := hrest buf
    refine ⟨r, ?_, hret⟩
    simpa [charResume, infnoiseCharRead, hnonblock] using hr
  | failed hfail =>
    refine .inl ⟨_, rfl, ⟨true, true, false, true, []⟩, false, rfl, nofun, fun buf => ?_⟩
    exact ⟨⟨.error .eio, buf, []⟩, rfl, rfl, rfl⟩
  | healthy hfail =>
    refine .inr ⟨rfl, .loop 0, Driver.setTask_tasks .., trivial, ?_⟩
    rintro ret bytes ⟨script, signal, hattached, hrange, hrest⟩
    refine ⟨{ script with healthFail := false }, signal, hattached, hrange, fun buf => ?_⟩
    obtain ⟨r, hr, hret⟩ := hrest buf
    refine ⟨r, ?_, hret⟩
    simpa [charResume, infnoiseCharRead, hattached] using hr
  | @locks total hmore hlocked =>
    exact .inr ⟨rfl, .locked total, Driver.setTask_tasks .., hmore, fun _ _ hends => hends⟩
  | @ends total hmore =>
    refine .inl ⟨_, rfl, ⟨true, true, false, false, []⟩, false, rfl, nofun, fun buf => ?_⟩
    exact ⟨⟨.ok total, buf, []⟩, if_neg (not_lt.mpr hmore), rfl, rfl⟩
  | @reads total r hread =>
    refine .inr ⟨rfl, .unlocking total r.ret r.result, Driver.setTask_tasks .., ?_, ?_⟩
    · exact fun n hn => (infnoiseReadData_le hread hn).trans (min_le_right _ _)
    · rintro ret bytes ⟨script, signal, hattached, hrange, hrest⟩
      let round := readRound d.dev d.multiplier input.scripts input.buffer
        (d.infnoiseRawMode || d.rawMode) signal
      refine ⟨{ script with rounds := round :: script.rounds }, signal, hattached, ?_,
        fun buf => ?_⟩
      · intro round hround
        rcases List.mem_cons.mp hround with rfl | hround
        · exact readRound_inRange _ _ _ _ _ _
        · exact hrange round hround
      · have hmore : total < call.count := hpc
        obtain ⟨r', hr', hret⟩ := hrest buf
        refine ⟨r', ?_, hret⟩
        simp only [charResume, charLoop, if_pos hmore, round, readRound, hread]
        exact hr'
  | @unlocks total ret data =>
    exact .inr ⟨rfl, .copying total ret data, Driver.setTask_tasks .., hpc, fun _ _ hends => hends⟩
  | @error total e data =>
    refine .inl ⟨_, rfl, ⟨true, true, false, false, []⟩, false, rfl, nofun, fun buf => ?_⟩
    exact ⟨_, rfl, rfl, rfl⟩
  | @dry total data htotal =>
    refine .inl ⟨_, rfl, ⟨true, true, false, false, []⟩, false, rfl, nofun, fun buf => ?_⟩
    refine ⟨⟨.ok total, buf, [(.ok 0, data)]⟩, ?_, rfl, rfl⟩
    simp only [charResume, afterRead, if_pos htotal]
  | @again data hnonblock =>
    refine .inl ⟨_, rfl, ⟨true, true, false, false, []⟩, false, rfl, nofun, fun buf => ?_⟩
    refine ⟨⟨.error .eagain, buf, [(.ok 0, data)]⟩, ?_, rfl, rfl⟩
    simp [charResume, afterRead, hnonblock]
  | @signalled data hnonblock hsignal =>
    refine .inl ⟨_, rfl, ⟨true, true, false, false, []⟩, true, rfl, nofun, fun buf => ?_⟩
    refine ⟨⟨.error .erestartsys, buf, [(.ok 0, data)]⟩, ?_, rfl, rfl⟩
    simp [charResume, afterRead, hnonblock]
  | @retries data hnonblock hsignal =>
    refine .inr ⟨rfl, .loop 0, Driver.setTask_tasks .., trivial, ?_⟩
    rintro ret bytes ⟨script, signal, hattached, hrange, hrest⟩
    refine ⟨script, false, hattached, hrange, fun buf => ?_⟩
    obtain ⟨r, hr, hret, hbytes⟩ := hrest buf
    refine ⟨r.after (.ok 0, data), ?_, hret, (r.bytes_after _).trans (by rw [hbytes]; rfl)⟩
    simp only [charResume] at hr
    simp [charResume, afterRead, hnonblock, hr]
  | @faults total n data hfault =>
    have hn : n + 1 ≤ 128 := hpc (n + 1) rfl
    omega
  | @copies total n data hcopy =>
    refine .inr ⟨rfl, .loop (total + (n + 1)), Driver.setTask_tasks .., trivial, ?_⟩
    rintro ret bytes ⟨script, signal, hattached, hrange, hrest⟩
    refine ⟨script, false, hattached, hrange, fun buf => ?_⟩
    obtain ⟨r, hr, hret, hbytes⟩ := hrest (memcpy buf total data (n + 1))
    refine ⟨r.after (.ok (n + 1), data), ?_, hret, (r.bytes_after _).trans (by rw [hbytes]; rfl)⟩
    simp only [charResume] at hr
    simp only [charResume, afterRead, hr, Option.map_some]

end

/-- The bytes that the steps of a task hand out. -/
def deliveredTo (t : ℕ) (cs : List DriverRecord) : List Byte :=
  cs.flatMap fun c => if c.task = some t then c.output.delivered else []

/-- The steps of other tasks leave a task where it stands. -/
lemma tasks_of_task_ne {c : DriverRecord} {t : ℕ}
    (hstep : c.before.step c.input = some (c.output, c.after)) (hne : c.task ≠ some t) :
    c.after.tasks t = c.before.tasks t := by
  obtain ⟨d, a, o, d'⟩ := c
  dsimp only at hstep ⊢
  cases a with
  | warmup =>
    cases (warmupStep_cases hstep).2 <;> rfl
  | step t' =>
    obtain ⟨_, task, hmove⟩ := step_moves hstep
    have htask : t ≠ t' := fun heq => hne (heq ▸ rfl)
    exact (congrFun hmove.tasks_eq t).trans (Function.update_of_ne htask _ _)
  | hwrngRead t' | charRead t' | ioctlGet t' =>
    have htask : t ≠ t' := fun heq => hne (heq ▸ rfl)
    cases driverStep_cases hstep
    exact Driver.setTask_tasks_of_ne _ htask _
  | ioctlSetRaw | setParameters =>
    cases driverStep_cases hstep
    rfl

/-- A task in `infnoise_char_read` takes one of its branches. -/
lemma charStep_of_task {c : DriverRecord} {t : ℕ} {call : CharCall} {pc : CharPc}
    (hstep : c.before.step c.input = some (c.output, c.after)) (hc : c.task = some t)
    (ht : c.before.tasks t = .char call pc) :
    ∃ input, c.input = .step t input ∧ CharStep c.before t input call pc c.output c.after := by
  obtain ⟨d, a, o, d'⟩ := c
  dsimp only at hstep ht ⊢
  cases a with
  | warmup | ioctlSetRaw | setParameters => cases hc
  | hwrngRead | charRead | ioctlGet =>
    cases hc
    cases driverStep_cases hstep
    rename_i hidle
    cases ht.symm.trans hidle
  | step t' input =>
    cases hc
    refine ⟨input, rfl, ?_⟩
    cases driverStep_cases hstep with
    | hwrng ht' h | ioctl ht' h => cases ht.symm.trans ht'
    | char ht' h =>
      cases ht.symm.trans ht'
      exact h

/-- Every call that a task of the driver makes is a call of `infnoise_char_read` alone, which meets
what the task met. The run ends with the step in which the call returns, and the other tasks, the
warm-up and the ioctls may do anything in it. -/
theorem charCall_refines {d d' : Driver} {t : ℕ} {call : CharCall} {pc : CharPc}
    {pre : List DriverRecord} {c : DriverRecord} {ret : Except Errno ℕ}
    (h : Run Driver.step d (pre ++ [c]) d') (ht : d.tasks t = .char call pc)
    (hpc : call.Meets pc) (hcopied : ∀ e ∈ pre ++ [c], ∀ input, e.input = .step t input →
      128 ≤ input.copied)
    (hpre : ∀ e ∈ pre, e.task = some t → e.output.returned = none) (hc : c.task = some t)
    (hret : c.output.returned = some ret) :
    call.Ends pc ret (deliveredTo t (pre ++ [c])) := by
  induction pre generalizing d pc with
  | nil =>
    obtain ⟨rfl, hstep, -⟩ := Run.cons_iff.mp h
    obtain ⟨input, hinput, hchar⟩ := charStep_of_task hstep hc ht
    rcases hchar.resumes (hcopied c List.mem_cons_self input hinput) hpc with
      ⟨ret', hret', hends⟩ | ⟨hnone, -⟩
    · cases hret.symm.trans hret'
      rw [deliveredTo, List.nil_append, List.flatMap_singleton, if_pos hc]
      exact hends
    · cases hret.symm.trans hnone
  | cons e pre ih =>
    obtain ⟨rfl, hstep, hrest⟩ := Run.cons_iff.mp h
    have hcopied' : ∀ e ∈ pre ++ [c], ∀ input, e.input = .step t input → 128 ≤ input.copied :=
      fun x hx => hcopied x (List.mem_cons_of_mem _ hx)
    have hpre' : ∀ e ∈ pre, e.task = some t → e.output.returned = none :=
      fun x hx => hpre x (List.mem_cons_of_mem _ hx)
    rw [List.cons_append, deliveredTo, List.flatMap_cons]
    by_cases he : e.task = some t
    · obtain ⟨input, hinput, hchar⟩ := charStep_of_task hstep he ht
      rcases hchar.resumes (hcopied e List.mem_cons_self input hinput) hpc with
        ⟨ret', hret', -⟩ | ⟨-, pc', ht', hpc', hends⟩
      · cases (hpre e List.mem_cons_self he).symm.trans hret'
      · rw [if_pos he]
        exact hends ret _ (ih hrest ht' hpc' hcopied' hpre')
    · rw [if_neg he]
      exact ih hrest ((tasks_of_task_ne hstep he).trans ht) hpc hcopied' hpre'

/-- A task that reads the character device gets as many bytes as the call returns, and at least
one, or an error and no byte. -/
theorem charCall_sound {d d' : Driver} {t : ℕ} {call : CharCall} {pre : List DriverRecord}
    {c : DriverRecord} {ret : Except Errno ℕ} (hcount : 0 < call.count)
    (h : Run Driver.step d (pre ++ [c]) d') (ht : d.tasks t = .char call .entered)
    (hcopied : ∀ e ∈ pre ++ [c], ∀ input, e.input = .step t input → 128 ≤ input.copied)
    (hpre : ∀ e ∈ pre, e.task = some t → e.output.returned = none) (hc : c.task = some t)
    (hret : c.output.returned = some ret) :
    (∃ e, ret = .error e ∧ deliveredTo t (pre ++ [c]) = []) ∨
      ∃ total, ret = .ok total ∧ 1 ≤ total ∧ total ≤ call.count ∧
        (deliveredTo t (pre ++ [c])).length = total := by
  obtain ⟨script, signal, -, hrange, hrest⟩ :=
    charCall_refines h ht trivial hcopied hpre hc hret
  obtain ⟨r, hr, rfl, hbytes⟩ := hrest fun _ => 0
  have hsound := infnoiseCharRead_sound hcount hrange hr
  rcases hret : r.ret with e | total
  · exact .inl ⟨e, rfl, hbytes ▸ (hsound.error e hret).2.1⟩
  · obtain ⟨hpos, hle, hbuf⟩ := hsound.ok total hret
    have hlength := congrArg List.length hbuf
    simp only [bufferBytes, List.length_append, List.length_map, List.length_range, hbytes]
      at hlength
    exact .inr ⟨total, rfl, hpos, hle, by omega⟩

/-! ### A call between the steps of another one -/

/-- Tasks 0 and 1 are where `p` and `q` say. -/
def Driver.withTasks (d : Driver) (p q : Task) : Driver := (d.setTask 0 p).setTask 1 q

section

variable {d d' : Driver} {p p' q q' : Task} {input : StepInput} {o : Output}

lemma Driver.withTasks_zero : (d.withTasks p q).tasks 0 = p := by
  rw [withTasks, setTask_tasks_of_ne _ (by decide), setTask_tasks]

lemma Driver.withTasks_one : (d.withTasks p q).tasks 1 = q := setTask_tasks ..

lemma Driver.withTasks_setTask_zero : (d.withTasks p q).setTask 0 p' = d.withTasks p' q := by
  simp only [withTasks, setTask]
  rw [Function.update_comm (by decide), Function.update_idem]

lemma Driver.withTasks_setTask_one : (d.withTasks p q).setTask 1 q' = d.withTasks p q' :=
  setTask_setTask ..

lemma step_char_zero {call : CharCall} {pc : CharPc}
    (h : CharStep (d.withTasks (.char call pc) q) 0 input call pc o
      ((d'.withTasks (.char call pc) q).setTask 0 p')) :
    (d.withTasks (.char call pc) q).step (.step 0 input) = some (o, d'.withTasks p' q) := by
  rw [Driver.withTasks_setTask_zero] at h
  exact step_of_charStep Driver.withTasks_zero h

lemma step_hwrng_one {call : HwrngCall} {pc : HwrngPc}
    (h : HwrngStep (d.withTasks p (.hwrng call pc)) 1 input call pc o
      ((d'.withTasks p (.hwrng call pc)).setTask 1 q')) :
    (d.withTasks p (.hwrng call pc)).step (.step 1 input) = some (o, d'.withTasks p q') :=
  step_setTask_hwrng (d.setTask 0 p) (d'.setTask 0 p) h

end

/-- A call of `infnoise_char_read` for 16 bytes on a warm device, with the steps of a call of
`infnoise_hwrng_read` between its own. The other call waits for the lock during the first read, and
reads before the bytes of the first are copied. -/
lemma exists_run_beside {dev dev₁ : Device} {scripts : ℕ → AttemptScript} {data : ℕ → Byte}
    {ops : List SpongeOp} {r₂ : ReadResult} (hpresent : dev.present = true)
    (hfail : dev.healthFail = false)
    (hread : infnoiseReadData dev 1 scripts (fun _ => 0) 16 false = some ⟨.ok 16, data, dev₁, ops⟩)
    (hread₂ : infnoiseReadData dev₁ 1 scripts (fun _ => 0) 16 false = some r₂) :
    ∃ (pre : List DriverRecord) (c : DriverRecord) (d' : Driver),
      Run Driver.step ((warmed dev).withTasks (.char ⟨16, false⟩ .entered) .idle) (pre ++ [c]) d' ∧
      c.task = some 0 ∧ c.output.returned = some (.ok 16) ∧
      (∃ e ∈ pre, e.task = some 1 ∧ e.before.dev = dev₁ ∧ e.after.dev = r₂.dev) ∧
      (∀ e ∈ pre ++ [c], ∀ input, e.input = .step 0 input → 128 ≤ input.copied) ∧
      ∀ e ∈ pre, e.task = some 0 → e.output.returned = none := by
  let input : StepInput := ⟨scripts, fun _ => 0, false, 128⟩
  let call : CharCall := ⟨16, false⟩
  let other : HwrngCall := ⟨16, false, false⟩
  let d : Driver := warmed dev
  have hstart : (d.withTasks (.char call .entered) .idle).step (.hwrngRead 1 16 false) =
      some (.silent, d.withTasks (.char call .entered) (.hwrng other .entered)) := by
    rw [Driver.step, Driver.withTasks_one]
    exact congrArg (fun d' : Driver => some (Output.silent, d')) Driver.withTasks_setTask_one
  have hwarm := @step_char_zero d d _ (.hwrng other .entered) input _ call _ (.warm rfl)
  have henters := @step_hwrng_one d d (.char call .failTest) _ input _ other _
    (.enters hpresent (.inl rfl))
  have htest := @step_char_zero d d _ (.hwrng other .warmupTest) input _ call _ (.healthy hfail)
  have hwarm₂ := @step_hwrng_one d d (.char call (.loop 0)) _ input _ other _ (.warm rfl)
  have hlock := @step_char_zero d { d with locked := true } _ (.hwrng other .failTest) input _ call _
    (.locks (Nat.succ_pos 15) rfl)
  have htest₂ := @step_hwrng_one { d with locked := true } { d with locked := true }
    (.char call (.locked 0)) _ input _ other _ (.healthy hfail)
  have hreads := @step_char_zero { d with locked := true } { d with locked := true, dev := dev₁ } _
    (.hwrng other .locking) input _ call _
    (@CharStep.reads _ _ _ _ 0 ⟨.ok 16, data, dev₁, ops⟩ hread)
  have hunlock := @step_char_zero { d with locked := true, dev := dev₁ } { d with dev := dev₁ } _
    (.hwrng other .locking) input _ call (.unlocking 0 (.ok 16) data) .unlocks
  have hlock₂ := @step_hwrng_one { d with dev := dev₁ } { d with locked := true, dev := dev₁ }
    (.char call (.copying 0 (.ok 16) data)) _ input _ other _ (.locks rfl)
  have hreads₂ := @step_hwrng_one { d with locked := true, dev := dev₁ }
    { d with locked := true, dev := r₂.dev } (.char call (.copying 0 (.ok 16) data)) _ input _
    other _ (.reads hread₂)
  have hcopy := @step_char_zero { d with locked := true, dev := r₂.dev }
    { d with locked := true, dev := r₂.dev } _ (.hwrng other (.unlocking r₂.ret r₂.result)) input _
    call (.copying 0 (.ok 16) data) (.copies (show 16 ≤ 128 by decide))
  have hends := @step_char_zero { d with locked := true, dev := r₂.dev }
    { d with locked := true, dev := r₂.dev } _ (.hwrng other (.unlocking r₂.ret r₂.result)) input _
    call (.loop 16) (.ends le_rfl)
  have hpre := Run.cons hstart (.cons hwarm (.cons henters (.cons htest (.cons hwarm₂ (.cons hlock
    (.cons htest₂ (.cons hreads (.cons hunlock (.cons hlock₂ (.cons hreads₂ (.single hcopy)))))))))))
  refine ⟨_, _, _, hpre.append (.single hends), rfl, rfl, ?_, ?_, ?_⟩
  · exact ⟨_, List.mem_of_getElem? (i := 10) rfl, rfl, rfl, rfl⟩
  · simp [input]
  · simp [DriverRecord.task, Output.silent]

/-- The call is given 16 bytes of a block and the other task the other 16. -/
theorem charCall_sound_beside : ∃ (d d' : Driver) (pre : List DriverRecord) (c : DriverRecord),
    Reachable Driver.step probed d ∧ Run Driver.step d (pre ++ [c]) d' ∧
      d.tasks 0 = .char ⟨16, false⟩ .entered ∧ c.output.returned = some (.ok 16) ∧
      (∃ e ∈ pre, e.task = some 1 ∧ e.before.dev.keccakBytesLeft = 16 ∧
        e.after.dev.keccakBytesLeft = 0) ∧
      ((∃ e, Except.ok 16 = (.error e : Except Errno ℕ) ∧ deliveredTo 0 (pre ++ [c]) = []) ∨
        ∃ total, Except.ok 16 = (.ok total : Except Errno ℕ) ∧ 1 ≤ total ∧ total ≤ 16 ∧
          (deliveredTo 0 (pre ++ [c])).length = total) := by
  obtain ⟨j, dev, cs, h157, h372, hwarming, hok, hwarm, -⟩ := exists_warmed
  obtain ⟨⟨ret, data, dev₁, ops⟩, hread, hret, -, hleft, hpresent, -⟩ :=
    exists_readData_half hwarming h157 h372 hok
  obtain rfl : ret = .ok 16 := hret
  dsimp only at hleft hpresent
  have hread₂ : infnoiseReadData dev₁ 1 (fun _ => registerScript (512 * j)) (fun _ => 0) 16 false =
      some (squeezeLeft dev₁ (fun _ => 0) 16) := by
    rw [infnoiseReadData, hpresent, hleft]
    rfl
  have hleft₂ : (squeezeLeft dev₁ (fun _ => 0) 16).dev.keccakBytesLeft = 0 := by
    have hsize : squeezeSize dev₁ 16 = 16 := by
      rw [squeezeSize, hleft]
      rfl
    rw [squeezeLeft_dev, hsize]
    dsimp only
    rw [hleft]
    rfl
  obtain ⟨pre, c, d', hrun, hc, hreturned, ⟨e, he, htask, hbefore, hafter⟩, hcopied, hpre⟩ :=
    exists_run_beside hwarming.present hwarming.healthFail hread hread₂
  have hstart : (warmed dev).step (.charRead 0 16 false) =
      some (.silent, (warmed dev).withTasks (.char ⟨16, false⟩ .entered) .idle) := by
    refine congrArg (fun d : Driver => some (Output.silent, d)) ?_
    exact congrArg (fun tasks => { warmed dev with tasks }) (Function.update_eq_self 1 _).symm
  refine ⟨_, d', pre, c, ⟨_, hwarm.1.append (.single hstart)⟩, hrun, Driver.withTasks_zero,
    hreturned, ?_, ?_⟩
  · exact ⟨e, he, htask, hbefore ▸ hleft, hafter ▸ hleft₂⟩
  · exact charCall_sound (show 0 < 16 by decide) hrun Driver.withTasks_zero hcopied hpre hc hreturned

end Kernel
