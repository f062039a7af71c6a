import Infnoise.Core.Machine
import Infnoise.Kernel.ReadData
import Mathlib.Data.List.DropRight

/-!
# Error accounting and recovery

The retries of `infnoise_usb_transfer` and its calls of `infnoise_try_recovery` depend on a counter
that is carried from one call to the next, and on nothing else of the device. Here the attempts and
the recoveries have any results. The transfers of a device are an instance.
-/

namespace Kernel

open Core

/-! ### The counters -/

/-- `usb_errors` and `consecutive_errors`. -/
structure ErrorCounters where
  usbErrors : ℕ
  consecutiveErrors : ℕ

/-- What an attempt returns, and the error of the recovery after it, should there be one. -/
structure AttemptResult where
  ret : Except Errno ℕ
  recovery : Option Errno

/-- What `infnoise_usb_transfer` does. -/
inductive TransferEvent where
  | attempt (ret : Except Errno ℕ)
  | recovery (error : Option Errno)

namespace TransferEvent

def isAttempt : TransferEvent → Bool
  | attempt _ => true
  | recovery _ => false

def isRecovery : TransferEvent → Bool
  | attempt _ => false
  | recovery _ => true

/-- A failed attempt. -/
def fails : TransferEvent → Bool
  | attempt (.error _) => true
  | attempt (.ok _) | recovery _ => false

/-- A successful attempt or a successful recovery. -/
def resets : TransferEvent → Bool
  | attempt (.ok _) | recovery none => true
  | attempt (.error _) | recovery (some _) => false

/-- A non-recoverable error or a failed recovery. -/
def blocks : TransferEvent → Bool
  | attempt (.error e) => !infnoiseIsRecoverableError e
  | recovery (some _) => true
  | attempt (.ok _) | recovery none => false

end TransferEvent

/-- An event, with the counters as they are after it. -/
structure TransferEntry where
  event : TransferEvent
  counters : ErrorCounters

/-- What a transfer returns, the counters it leaves, and the log of its events. The last is no state
of the driver. -/
structure TransferResult where
  ret : Except Errno ℕ
  counters : ErrorCounters
  entries : List TransferEntry

/-- What `infnoise_usb_transfer` does after an attempt: the value to return, or `none` when it goes
on, the counters, and the events. -/
def ErrorCounters.afterAttempt (c : ErrorCounters) (a : AttemptResult) :
    Option (Except Errno ℕ) × ErrorCounters × List TransferEntry :=
  match a.ret with
  | .ok entropy =>
    let c := { c with consecutiveErrors := 0 }
    (some (.ok entropy), c, [⟨.attempt a.ret, c⟩])
  | .error e =>
    let c := ⟨u32 (c.usbErrors + 1), u32 (c.consecutiveErrors + 1)⟩
    if !infnoiseIsRecoverableError e then (some (.error e), c, [⟨.attempt a.ret, c⟩])
    else if c.consecutiveErrors ≥ infnoiseRecoveryThreshold then
      match a.recovery with
      | some e' => (some (.error e'), c, [⟨.attempt a.ret, c⟩, ⟨.recovery (some e'), c⟩])
      | none =>
        let c' := { c with consecutiveErrors := 0 }
        (none, c', [⟨.attempt a.ret, c⟩, ⟨.recovery none, c'⟩])
    else (none, c, [⟨.attempt a.ret, c⟩])

/-- The retry loop with some attempts left, the last of which returned `last`. -/
def retryLoop : ℕ → (ℕ → AttemptResult) → Except Errno ℕ → ErrorCounters → TransferResult
  | 0, _, last, c => ⟨last, c, []⟩
  | retries + 1, attempts, _, c =>
    match c.afterAttempt (attempts 0) with
    | (some ret, c, entries) => ⟨ret, c, entries⟩
    | (none, c, entries) =>
      let r := retryLoop retries (fun i => attempts (i + 1)) (attempts 0).ret c
      { r with entries := entries ++ r.entries }

/-- `infnoise_usb_transfer`, when attempt `i` and the recovery after it have the results
`attempts i`. -/
def ErrorCounters.transfer (c : ErrorCounters) (attempts : ℕ → AttemptResult) : TransferResult :=
  retryLoop infnoiseMaxRetries attempts (.error .eio) c

/-! ### What the counters count -/

/-- The failed attempts since the later of the last successful attempt and the last successful
recovery. -/
def failuresSinceReset (events : List TransferEvent) : ℕ :=
  (events.rtakeWhile fun e => !e.resets).countP TransferEvent.fails

lemma failuresSinceReset_concat (events : List TransferEvent) (e : TransferEvent) :
    failuresSinceReset (events ++ [e]) =
      if e.resets then 0 else failuresSinceReset events + e.fails.toNat := by
  rw [failuresSinceReset, List.rtakeWhile_concat]
  cases hreset : e.resets
  · cases hfail : e.fails <;> simp [failuresSinceReset, hfail]
  · simp

/-- The counters count the failed attempts, as 32-bit words. -/
structure ErrorCounters.Counts (events : List TransferEvent) (c : ErrorCounters) : Prop where
  usbErrors_eq : c.usbErrors = events.countP TransferEvent.fails % 4294967296
  consecutiveErrors_eq : c.consecutiveErrors = failuresSinceReset events % 4294967296

/-- The counters after an event. -/
def ErrorCounters.after (c : ErrorCounters) (e : TransferEvent) : ErrorCounters where
  usbErrors := if e.fails then u32 (c.usbErrors + 1) else c.usbErrors
  consecutiveErrors :=
    if e.resets then 0 else if e.fails then u32 (c.consecutiveErrors + 1) else c.consecutiveErrors

lemma ErrorCounters.Counts.after {events : List TransferEvent} {c : ErrorCounters}
    (h : c.Counts events) (e : TransferEvent) : (c.after e).Counts (events ++ [e]) := by
  have husb := h.usbErrors_eq
  have hconsecutive := h.consecutiveErrors_eq
  refine ⟨?_, ?_⟩
  · rw [List.countP_append, List.countP_singleton]
    simp only [ErrorCounters.after, u32]
    split_ifs <;> omega
  · rw [failuresSinceReset_concat]
    simp only [ErrorCounters.after, u32]
    cases e.resets <;> cases e.fails <;> simp <;> omega

/-! ### One attempt -/

/-- The ways an attempt can go. -/
inductive AttemptStep (c : ErrorCounters) (a : AttemptResult) :
    Option (Except Errno ℕ) → ErrorCounters → List TransferEntry → Prop where
  | succeeds {entropy : ℕ} (hret : a.ret = .ok entropy) :
    AttemptStep c a (some (.ok entropy)) (c.after (.attempt (.ok entropy)))
      [⟨.attempt (.ok entropy), c.after (.attempt (.ok entropy))⟩]
  | stops {e : Errno} (hret : a.ret = .error e) (hrec : infnoiseIsRecoverableError e = false) :
    AttemptStep c a (some (.error e)) (c.after (.attempt (.error e)))
      [⟨.attempt (.error e), c.after (.attempt (.error e))⟩]
  | unrecovered {e e' : Errno} (hret : a.ret = .error e)
      (hrec : infnoiseIsRecoverableError e = true)
      (hdue : infnoiseRecoveryThreshold ≤ (c.after (.attempt (.error e))).consecutiveErrors) :
    AttemptStep c a (some (.error e')) ((c.after (.attempt (.error e))).after (.recovery (some e')))
      [⟨.attempt (.error e), c.after (.attempt (.error e))⟩,
        ⟨.recovery (some e'), (c.after (.attempt (.error e))).after (.recovery (some e'))⟩]
  | recovered {e : Errno} (hret : a.ret = .error e) (hrec : infnoiseIsRecoverableError e = true)
      (hdue : infnoiseRecoveryThreshold ≤ (c.after (.attempt (.error e))).consecutiveErrors) :
    AttemptStep c a none ((c.after (.attempt (.error e))).after (.recovery none))
      [⟨.attempt (.error e), c.after (.attempt (.error e))⟩,
        ⟨.recovery none, (c.after (.attempt (.error e))).after (.recovery none)⟩]
  | retries {e : Errno} (hret : a.ret = .error e) (hrec : infnoiseIsRecoverableError e = true)
      (hbelow : ¬ infnoiseRecoveryThreshold ≤ (c.after (.attempt (.error e))).consecutiveErrors) :
    AttemptStep c a none (c.after (.attempt (.error e)))
      [⟨.attempt (.error e), c.after (.attempt (.error e))⟩]

lemma ErrorCounters.afterAttempt_step (c : ErrorCounters) (a : AttemptResult) :
    AttemptStep c a (c.afterAttempt a).1 (c.afterAttempt a).2.1 (c.afterAttempt a).2.2 := by
  rcases hret : a.ret with e | entropy
  · rcases hrec : infnoiseIsRecoverableError e with _ | _
    · simp only [afterAttempt, hret, hrec, Bool.not_false, if_true]
      exact .stops hret hrec
    · simp only [afterAttempt, hret, hrec, Bool.not_true, Bool.false_eq_true, if_false]
      split_ifs with hdue
      · rcases hrecovery : a.recovery with _ | e'
        · exact .recovered hret hrec hdue
        · exact .unrecovered hret hrec hdue
      · exact .retries hret hrec hdue
  · simp only [afterAttempt, hret]
    exact .succeeds hret

/-! ### The log -/

/-- The last event is a failed attempt with a recoverable error, and its count has reached the
threshold. -/
def RecoveryDue (log : List TransferEntry) : Prop :=
  ∃ e c, log.getLast? = some ⟨.attempt (.error e), c⟩ ∧ infnoiseIsRecoverableError e = true ∧
    infnoiseRecoveryThreshold ≤ c.consecutiveErrors

/-- The counters count the failed attempts, after every event of the log, and an event is a recovery
exactly when one was due. -/
structure Accounted (log : List TransferEntry) (c : ErrorCounters) : Prop where
  counts : c.Counts (log.map TransferEntry.event)
  each : ∀ pre entry post, log = pre ++ entry :: post →
    entry.counters.Counts ((pre ++ [entry]).map TransferEntry.event) ∧
      (entry.event.isRecovery = true ↔ RecoveryDue pre)

lemma accounted_nil : Accounted [] ⟨0, 0⟩ where
  counts := ⟨rfl, rfl⟩
  each pre entry post h := by simp at h

/-- One more event. -/
lemma Accounted.concat {log : List TransferEntry} {c : ErrorCounters} (h : Accounted log c)
    (event : TransferEvent) (hrecovery : event.isRecovery = true ↔ RecoveryDue log) :
    Accounted (log ++ [⟨event, c.after event⟩]) (c.after event) := by
  have hcounts : (c.after event).Counts
      (List.map TransferEntry.event (log ++ [⟨event, c.after event⟩])) := by
    rw [List.map_append]
    exact h.counts.after event
  refine ⟨hcounts, fun pre entry post heq => ?_⟩
  rcases List.eq_nil_or_concat post with rfl | ⟨post, last, rfl⟩
  · obtain ⟨rfl, hentry⟩ := List.append_inj' heq rfl
    cases hentry
    exact ⟨hcounts, hrecovery⟩
  · rw [List.concat_eq_append, ← List.cons_append, ← List.append_assoc] at heq
    obtain ⟨hlog, _⟩ := List.append_inj' heq rfl
    exact h.each pre entry post hlog

lemma not_recoveryDue_nil : ¬ RecoveryDue [] := by
  rintro ⟨e, c, hlast, _⟩
  cases hlast

lemma recoveryDue_concat {log : List TransferEntry} {event : TransferEvent} {c : ErrorCounters} :
    RecoveryDue (log ++ [⟨event, c⟩]) ↔ ∃ e, event = .attempt (.error e) ∧
      infnoiseIsRecoverableError e = true ∧ infnoiseRecoveryThreshold ≤ c.consecutiveErrors := by
  rw [RecoveryDue]
  simp only [List.getLast?_concat, Option.some.injEq, TransferEntry.mk.injEq]
  constructor
  · rintro ⟨e, c', ⟨rfl, rfl⟩, hrest⟩
    exact ⟨e, rfl, hrest⟩
  · rintro ⟨e, rfl, hrest⟩
    exact ⟨e, c, ⟨rfl, rfl⟩, hrest⟩

/-- An attempt, and the recovery when one is due, keep the log accounted. -/
lemma AttemptStep.accounted {log : List TransferEntry} {c c' : ErrorCounters} {a : AttemptResult}
    {ret : Option (Except Errno ℕ)} {entries : List TransferEntry}
    (h : AttemptStep c a ret c' entries) (hlog : Accounted log c) (hnot : ¬ RecoveryDue log) :
    Accounted (log ++ entries) c' ∧ ¬ RecoveryDue (log ++ entries) := by
  have hattempt : ∀ r, Accounted (log ++ [⟨.attempt r, c.after (.attempt r)⟩])
      (c.after (.attempt r)) := fun r =>
    hlog.concat (.attempt r) ⟨fun hf => (Bool.false_ne_true hf).elim, fun hdue => absurd hdue hnot⟩
  have hrecovery : ∀ (e : Errno) (error : Option Errno), infnoiseIsRecoverableError e = true →
      infnoiseRecoveryThreshold ≤ (c.after (.attempt (.error e))).consecutiveErrors →
      Accounted (log ++ [⟨.attempt (.error e), c.after (.attempt (.error e))⟩,
          ⟨.recovery error, (c.after (.attempt (.error e))).after (.recovery error)⟩])
        ((c.after (.attempt (.error e))).after (.recovery error)) ∧
      ¬ RecoveryDue (log ++ [⟨.attempt (.error e), c.after (.attempt (.error e))⟩,
          ⟨.recovery error, (c.after (.attempt (.error e))).after (.recovery error)⟩]) := by
    intro e error hrec hdue
    have hnext := (hattempt (.error e)).concat (.recovery error)
      ⟨fun _ => recoveryDue_concat.mpr ⟨e, rfl, hrec, hdue⟩, fun _ => rfl⟩
    rw [List.append_assoc] at hnext
    refine ⟨hnext, fun hcon => ?_⟩
    rw [← List.singleton_append, ← List.append_assoc, recoveryDue_concat] at hcon
    obtain ⟨_, heq, _⟩ := hcon
    cases heq
  cases h with
  | succeeds hret =>
    refine ⟨hattempt _, fun hcon => ?_⟩
    obtain ⟨_, heq, _⟩ := recoveryDue_concat.mp hcon
    cases heq
  | stops hret hrec =>
    refine ⟨hattempt _, fun hcon => ?_⟩
    obtain ⟨_, heq, hrec', _⟩ := recoveryDue_concat.mp hcon
    cases heq
    cases hrec.symm.trans hrec'
  | unrecovered hret hrec hdue => exact hrecovery _ _ hrec hdue
  | recovered hret hrec hdue => exact hrecovery _ _ hrec hdue
  | retries hret hrec hbelow =>
    refine ⟨hattempt _, fun hcon => ?_⟩
    obtain ⟨_, heq, _, hdue⟩ := recoveryDue_concat.mp hcon
    cases heq
    exact hbelow hdue

/-! ### What a call returns -/

/-- An attempt returned the value, with no non-recoverable error and no failed recovery before
it. -/
def Succeeds (events : List TransferEvent) (entropy : ℕ) : Prop :=
  ∃ pre post, events = pre ++ .attempt (.ok entropy) :: post ∧ ∀ e ∈ pre, e.blocks = false

lemma not_succeeds_nil (entropy : ℕ) : ¬ Succeeds [] entropy := by
  rintro ⟨pre, post, heq, _⟩
  cases pre <;> cases heq

lemma succeeds_cons {e : TransferEvent} {events : List TransferEvent} {entropy : ℕ} :
    Succeeds (e :: events) entropy ↔
      e = .attempt (.ok entropy) ∨ e.blocks = false ∧ Succeeds events entropy := by
  constructor
  · rintro ⟨pre, post, heq, hpre⟩
    rcases pre with _ | ⟨d, pre⟩
    · exact .inl (List.cons.inj heq).1
    · obtain ⟨rfl, hevents⟩ := List.cons.inj heq
      rw [List.forall_mem_cons] at hpre
      exact .inr ⟨hpre.1, pre, post, hevents, hpre.2⟩
  · rintro (rfl | ⟨hblocks, pre, post, rfl, hpre⟩)
    · exact ⟨[], events, rfl, by simp⟩
    · exact ⟨e :: pre, post, rfl, List.forall_mem_cons.mpr ⟨hblocks, hpre⟩⟩

/-- The events of a call. -/
def TransferResult.events (r : TransferResult) : List TransferEvent :=
  r.entries.map TransferEntry.event

namespace AttemptStep

variable {c c' : ErrorCounters} {a : AttemptResult} {ret : Option (Except Errno ℕ)}
  {entries : List TransferEntry}

lemma countP_isAttempt (h : AttemptStep c a ret c' entries) :
    (entries.map TransferEntry.event).countP TransferEvent.isAttempt = 1 := by
  cases h <;> rfl

/-- The value of an attempt that ends the call. -/
lemma some_ok_iff (h : AttemptStep c a ret c' entries) {r : Except Errno ℕ} (hret : ret = some r)
    (entropy : ℕ) : r = .ok entropy ↔ Succeeds (entries.map TransferEntry.event) entropy := by
  cases h with
  | succeeds =>
    obtain rfl := Option.some.inj hret
    simp [succeeds_cons, not_succeeds_nil]
  | stops | unrecovered =>
    obtain rfl := Option.some.inj hret
    simp [succeeds_cons, not_succeeds_nil]
  | recovered | retries => cases hret

/-- An attempt after which the call goes on has failed, and it blocks no later one. -/
lemma of_none (h : AttemptStep c a ret c' entries) (hret : ret = none) :
    (∃ e, a.ret = .error e) ∧ ∀ events entropy,
      Succeeds (entries.map TransferEntry.event ++ events) entropy ↔ Succeeds events entropy := by
  cases h with
  | succeeds | stops | unrecovered => cases hret
  | recovered herr hrec | retries herr hrec =>
    refine ⟨⟨_, herr⟩, fun events entropy => ?_⟩
    simp [succeeds_cons, TransferEvent.blocks, hrec]

end AttemptStep

/-- What holds of a call that starts with some log behind it, when at most `retries` attempts are
left. -/
structure CallAccounted (log : List TransferEntry) (retries : ℕ) (r : TransferResult) : Prop where
  accounted : Accounted (log ++ r.entries) r.counters
  not_due : ¬ RecoveryDue (log ++ r.entries)
  attempts_le : r.events.countP TransferEvent.isAttempt ≤ retries
  ok_iff : ∀ entropy, r.ret = .ok entropy ↔ Succeeds r.events entropy

section RetryLoop

variable {log : List TransferEntry} {retries : ℕ} {c c' : ErrorCounters} {last : Except Errno ℕ}
  {attempts : ℕ → AttemptResult} {entries : List TransferEntry}

lemma retryLoop_of_some {ret : Except Errno ℕ}
    (hafter : c.afterAttempt (attempts 0) = (some ret, c', entries)) :
    retryLoop (retries + 1) attempts last c = ⟨ret, c', entries⟩ := by
  rw [retryLoop, hafter]

lemma retryLoop_of_none (hafter : c.afterAttempt (attempts 0) = (none, c', entries)) :
    retryLoop (retries + 1) attempts last c =
      let r := retryLoop retries (fun i => attempts (i + 1)) (attempts 0).ret c'
      { r with entries := entries ++ r.entries } := by
  rw [retryLoop, hafter]

/-- The attempt that ends a call. -/
lemma AttemptStep.callAccounted {a : AttemptResult} {ret : Except Errno ℕ}
    (h : AttemptStep c a (some ret) c' entries) (hlog : Accounted log c)
    (hnot : ¬ RecoveryDue log) : CallAccounted log (retries + 1) ⟨ret, c', entries⟩ := by
  obtain ⟨hlog', hnot'⟩ := h.accounted hlog hnot
  refine ⟨hlog', hnot', ?_, h.some_ok_iff rfl⟩
  exact h.countP_isAttempt.le.trans (Nat.le_add_left 1 retries)

/-- An attempt before the rest of a call. -/
lemma CallAccounted.cons {a : AttemptResult} {r : TransferResult}
    (hrest : CallAccounted (log ++ entries) retries r) (h : AttemptStep c a none c' entries) :
    CallAccounted log (retries + 1) { r with entries := entries ++ r.entries } := by
  obtain ⟨-, hsucceeds⟩ := h.of_none rfl
  have hevents : ({ r with entries := entries ++ r.entries } : TransferResult).events =
      entries.map TransferEntry.event ++ r.events := List.map_append
  refine ⟨?_, ?_, ?_, fun entropy => ?_⟩
  · rw [← List.append_assoc]
    exact hrest.accounted
  · rw [← List.append_assoc]
    exact hrest.not_due
  · rw [hevents, List.countP_append, h.countP_isAttempt, Nat.add_comm]
    exact Nat.succ_le_succ hrest.attempts_le
  · rw [hevents, hsucceeds]
    exact hrest.ok_iff entropy

lemma retryLoop_accounted (hlog : Accounted log c) (hnot : ¬ RecoveryDue log)
    (hlast : ∃ e, last = .error e) :
    CallAccounted log retries (retryLoop retries attempts last c) := by
  induction retries generalizing log c last attempts with
  | zero =>
    obtain ⟨e, rfl⟩ := hlast
    refine ⟨by rwa [retryLoop, List.append_nil], by rwa [retryLoop, List.append_nil], le_rfl,
      fun entropy => ?_⟩
    constructor
    · intro hok
      cases hok
    · intro hsucceeds
      exact (not_succeeds_nil _ hsucceeds).elim
  | succ retries ih =>
    have hstep := c.afterAttempt_step (attempts 0)
    rcases hafter : c.afterAttempt (attempts 0) with ⟨_ | ret, c', entries⟩ <;> rw [hafter] at hstep
    · obtain ⟨hlog', hnot'⟩ := hstep.accounted hlog hnot
      rw [retryLoop_of_none hafter]
      exact (ih hlog' hnot' (hstep.of_none rfl).1).cons hstep
    · rw [retryLoop_of_some hafter]
      exact hstep.callAccounted hlog hnot

end RetryLoop

/-! ### Runs of calls -/

/-- The transfer as a machine on the counters. -/
def transferStep (c : ErrorCounters) (attempts : ℕ → AttemptResult) :
    Option (TransferResult × ErrorCounters) :=
  some (c.transfer attempts, (c.transfer attempts).counters)

/-- The events of the calls of a run. -/
def transferLog (cs : List (Call ErrorCounters (ℕ → AttemptResult) TransferResult)) :
    List TransferEntry :=
  cs.flatMap fun call => call.output.entries

lemma transferLog_concat (cs : List (Call ErrorCounters (ℕ → AttemptResult) TransferResult))
    (call : Call ErrorCounters (ℕ → AttemptResult) TransferResult) :
    transferLog (cs ++ [call]) = transferLog cs ++ call.output.entries := by
  rw [transferLog, List.flatMap_append, List.flatMap_singleton]
  rfl

/-- The accounts of a run. -/
structure RunAccounted (cs : List (Call ErrorCounters (ℕ → AttemptResult) TransferResult))
    (c : ErrorCounters) : Prop where
  accounted : Accounted (transferLog cs) c
  not_due : ¬ RecoveryDue (transferLog cs)
  attempts_le : ∀ call ∈ cs,
    call.output.events.countP TransferEvent.isAttempt ≤ infnoiseMaxRetries
  ok_iff : ∀ call ∈ cs, ∀ entropy,
    call.output.ret = .ok entropy ↔ Succeeds call.output.events entropy

lemma runAccounted_nil : RunAccounted [] ⟨0, 0⟩ where
  accounted := accounted_nil
  not_due := not_recoveryDue_nil
  attempts_le := by simp
  ok_iff := by simp

lemma RunAccounted.concat {cs : List (Call ErrorCounters (ℕ → AttemptResult) TransferResult)}
    {call : Call ErrorCounters (ℕ → AttemptResult) TransferResult}
    (h : RunAccounted cs call.before)
    (hstep : transferStep call.before call.input = some (call.output, call.after)) :
    RunAccounted (cs ++ [call]) call.after := by
  obtain ⟨hout, hafter⟩ := Prod.mk.inj (Option.some.inj hstep)
  have hcall : CallAccounted (transferLog cs) infnoiseMaxRetries call.output := by
    rw [← hout]
    exact retryLoop_accounted h.accounted h.not_due ⟨.eio, rfl⟩
  rw [hout] at hafter
  constructor
  · rw [transferLog_concat, ← hafter]
    exact hcall.accounted
  · rw [transferLog_concat]
    exact hcall.not_due
  · intro d hd
    rcases List.mem_append.mp hd with hd | hd
    · exact h.attempts_le d hd
    · obtain rfl := List.mem_singleton.mp hd
      exact hcall.attempts_le
  · intro d hd
    rcases List.mem_append.mp hd with hd | hd
    · exact h.ok_iff d hd
    · obtain rfl := List.mem_singleton.mp hd
      exact hcall.ok_iff

/-- In every run from a new device, a call makes at most three attempts, the counters count the
failed attempts, a recovery is tried exactly when one is due, and a call returns the value of an
attempt before which nothing has ended the call. -/
theorem transfer_accounted {cs : List (Call ErrorCounters (ℕ → AttemptResult) TransferResult)}
    {c : ErrorCounters} (h : Run transferStep ⟨0, 0⟩ cs c) : RunAccounted cs c :=
  h.history (fun _ _ _ hstep hcs => hcs.concat hstep) runAccounted_nil

/-- Three timeouts, and in the next call two more, a recovery, and one more. -/
theorem transfer_accounted_timeouts :
    RunAccounted
      [⟨⟨0, 0⟩, fun _ => ⟨.error .etimedout, none⟩,
          ErrorCounters.transfer ⟨0, 0⟩ fun _ => ⟨.error .etimedout, none⟩, ⟨3, 3⟩⟩,
        ⟨⟨3, 3⟩, fun _ => ⟨.error .etimedout, none⟩,
          ErrorCounters.transfer ⟨3, 3⟩ fun _ => ⟨.error .etimedout, none⟩, ⟨6, 1⟩⟩] ⟨6, 1⟩ :=
  transfer_accounted (.cons rfl (.cons rfl (.nil _)))

/-! ### The counter of consecutive errors is a 32-bit word -/

/-- A device that has gone fails every attempt. -/
lemma run_enodev (n : ℕ) : ∃ cs, Run transferStep ⟨0, 0⟩ cs ⟨n % 4294967296, n % 4294967296⟩ ∧
    (transferLog cs).map TransferEntry.event = List.replicate n (.attempt (.error .enodev)) := by
  induction n with
  | zero => exact ⟨[], .nil _, rfl⟩
  | succ n ih =>
    obtain ⟨cs, hrun, hlog⟩ := ih
    have hcall : transferStep ⟨n % 4294967296, n % 4294967296⟩ (fun _ => ⟨.error .enodev, none⟩) =
        some (_, ⟨u32 (n % 4294967296 + 1), u32 (n % 4294967296 + 1)⟩) := rfl
    have hcount : u32 (n % 4294967296 + 1) = (n + 1) % 4294967296 := by
      simp only [u32]
      omega
    rw [hcount] at hcall
    refine ⟨_, hrun.append (.single hcall), ?_⟩
    rw [transferLog_concat, List.map_append, hlog, List.replicate_succ']
    rfl

lemma failuresSinceReset_replicate (n : ℕ) (e : Errno) :
    failuresSinceReset (List.replicate n (.attempt (.error e))) = n := by
  induction n with
  | zero => rfl
  | succ n ih =>
    rw [List.replicate_succ', failuresSinceReset_concat, ih]
    rfl

/-- The counter is back at zero after `2 ^ 32` failed attempts. -/
theorem consecutiveErrors_wraps : ∃ cs c, Run transferStep ⟨0, 0⟩ cs c ∧
    c.consecutiveErrors ≠ failuresSinceReset ((transferLog cs).map TransferEntry.event) := by
  obtain ⟨cs, hrun, hlog⟩ := run_enodev 4294967296
  refine ⟨cs, _, hrun, ?_⟩
  rw [hlog, failuresSinceReset_replicate]
  decide

/-! ### The transfers of a device -/

/-- The counters of a device. -/
def Device.errorCounters (dev : Device) : ErrorCounters := ⟨dev.usbErrors, dev.consecutiveErrors⟩

lemma infnoiseUsbTransferOnce_errorCounters {dev dev' : Device} {script : AttemptScript}
    {ret : Except Errno ℕ} (h : infnoiseUsbTransferOnce dev script = some (ret, dev')) :
    dev'.errorCounters = dev.errorCounters := by
  rw [infnoiseUsbTransferOnce] at h
  rcases hrecv : receiveSamples script.write script.reads dev.usbBuf dev.readBuf with
    ⟨_ | e, usbBuf, readBuf⟩
  · rw [hrecv] at h
    obtain ⟨outBuf, health, ⟨-, -, rfl⟩ | ⟨-, rfl⟩⟩ := infnoiseExtractBytes_cases h <;> rfl
  · rw [hrecv] at h
    cases h
    rfl

lemma infnoiseTryRecovery_errorCounters (dev : Device) (script : RecoveryScript) :
    (infnoiseTryRecovery dev script).2.errorCounters =
      match (infnoiseTryRecovery dev script).1 with
      | some _ => dev.errorCounters
      | none => { dev.errorCounters with consecutiveErrors := 0 } := by
  rw [infnoiseTryRecovery]
  split
  · rfl
  · rcases (recoveryRequests script).2 with _ | e <;> rfl

/-- An attempt of a device, with the error the recovery would return after it. -/
lemma afterAttempt_errorCounters (dev : Device) (script : AttemptScript) (ret : Except Errno ℕ) :
    ∃ recovery,
      (dev.errorCounters.afterAttempt ⟨ret, recovery⟩).1 = (afterAttempt dev script ret).1 ∧
      (dev.errorCounters.afterAttempt ⟨ret, recovery⟩).2.1 =
        (afterAttempt dev script ret).2.errorCounters := by
  rcases ret with e | entropy
  · have htry := infnoiseTryRecovery_errorCounters { dev with
      usbErrors := u32 (dev.usbErrors + 1)
      consecutiveErrors := u32 (dev.consecutiveErrors + 1) } script.recovery
    rcases hrecovery : infnoiseTryRecovery { dev with
      usbErrors := u32 (dev.usbErrors + 1)
      consecutiveErrors := u32 (dev.consecutiveErrors + 1) } script.recovery
      with ⟨recovery, dev'⟩
    rw [hrecovery] at htry
    have hcounters : dev.errorCounters = ⟨dev.usbErrors, dev.consecutiveErrors⟩ := rfl
    refine ⟨recovery, ?_⟩
    simp only [hcounters, ErrorCounters.afterAttempt, afterAttempt, hrecovery]
    split
    · exact ⟨rfl, rfl⟩
    · by_cases hdue : u32 (dev.consecutiveErrors + 1) ≥ infnoiseRecoveryThreshold
      · simp only [if_pos hdue]
        rcases recovery with _ | e'
        · exact ⟨rfl, htry.symm⟩
        · exact ⟨rfl, htry.symm⟩
      · simp only [if_neg hdue, Device.errorCounters, and_self]
  · exact ⟨none, rfl, rfl⟩

lemma transferLoop_errorCounters {scripts : ℕ → AttemptScript} {retries : ℕ}
    {last ret : Except Errno ℕ} {dev dev' : Device}
    (h : transferLoop scripts retries last dev = some (ret, dev')) :
    ∃ attempts, (retryLoop retries attempts last dev.errorCounters).ret = ret ∧
      (retryLoop retries attempts last dev.errorCounters).counters = dev'.errorCounters := by
  induction retries generalizing last dev with
  | zero =>
    cases h
    exact ⟨fun _ => ⟨ret, none⟩, rfl, rfl⟩
  | succ retries ih =>
    rw [transferLoop] at h
    rcases honce : infnoiseUsbTransferOnce dev (scripts (infnoiseMaxRetries - (retries + 1)))
      with _ | ⟨ret₁, dev₁⟩
    · rw [honce] at h
      cases h
    · rw [honce] at h
      dsimp only at h
      obtain ⟨recovery, hret, hcounters⟩ := afterAttempt_errorCounters dev₁
        (scripts (infnoiseMaxRetries - (retries + 1))) ret₁
      rw [infnoiseUsbTransferOnce_errorCounters honce] at hret hcounters
      rcases hafter : dev.errorCounters.afterAttempt ⟨ret₁, recovery⟩ with ⟨ret₂, c, entries⟩
      rcases hdev : afterAttempt dev₁ (scripts (infnoiseMaxRetries - (retries + 1))) ret₁
        with ⟨_ | ret₃, dev₂⟩ <;> rw [hdev] at h hret hcounters <;> rw [hafter] at hret hcounters
      · obtain rfl : ret₂ = none := hret
        obtain rfl : c = dev₂.errorCounters := hcounters
        obtain ⟨attempts, hih⟩ := ih h
        -- the results of this attempt, and of the ones after it
        refine ⟨fun i => i.casesOn ⟨ret₁, recovery⟩ attempts, ?_⟩
        rw [retryLoop_of_none hafter]
        exact hih
      · obtain rfl : ret₂ = some ret₃ := hret
        obtain rfl : c = dev₂.errorCounters := hcounters
        cases h
        refine ⟨fun _ => ⟨ret₁, recovery⟩, ?_⟩
        rw [retryLoop_of_some hafter]
        exact ⟨rfl, rfl⟩

/-- A transfer of a device is one of its counters, with some results of the attempts. -/
theorem infnoiseUsbTransfer_errorCounters {dev dev' : Device} {scripts : ℕ → AttemptScript}
    {ret : Except Errno ℕ} (h : infnoiseUsbTransfer dev scripts = some (ret, dev')) :
    ∃ attempts, (dev.errorCounters.transfer attempts).ret = ret ∧
      (dev.errorCounters.transfer attempts).counters = dev'.errorCounters :=
  transferLoop_errorCounters h

/-- The transfers of a device, one after the other, are accounted. -/
theorem infnoiseUsbTransfer_run {dev dev' : Device}
    {calls : List (Call Device (ℕ → AttemptScript) (Except Errno ℕ))}
    (h : Run infnoiseUsbTransfer dev calls dev') (hdev : dev.errorCounters = ⟨0, 0⟩) :
    ∃ cs, RunAccounted cs dev'.errorCounters ∧
      cs.map (fun call => call.output.ret) = calls.map Call.output := by
  have hsim : ∃ cs, Run transferStep dev.errorCounters cs dev'.errorCounters ∧
      cs.map (fun call => call.output.ret) = calls.map Call.output := by
    clear hdev
    induction h with
    | nil dev => exact ⟨[], .nil _, rfl⟩
    | cons hcall _ ih =>
      obtain ⟨attempts, hret, hcounters⟩ := infnoiseUsbTransfer_errorCounters hcall
      obtain ⟨cs, hrun, houts⟩ := ih
      rw [← hcounters] at hrun
      exact ⟨_, .cons rfl hrun, by rw [List.map_cons, List.map_cons, hret, houts]⟩
  obtain ⟨cs, hrun, houts⟩ := hsim
  rw [hdev] at hrun
  exact ⟨cs, transfer_accounted hrun, houts⟩

end Kernel
