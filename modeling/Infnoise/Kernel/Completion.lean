import Infnoise.Kernel.Session
import Infnoise.Kernel.Tasks
import Infnoise.Kernel.Warmup
import Mathlib.Data.Set.Card

/-!
# The completion of the warm-up

The readers that come before the warm-up is over wait for its completion, and the work completes it
once. No reader is stranded exactly in the runs in which one reader at most waits for the work, and
none later without a completion that is left.
-/

namespace Kernel

open Core

attribute [local irreducible] infnoiseKeccakPermutation infnoiseKeccakAbsorb

/-- The readers that are blocked. -/
def Session.waiting (s : Session) : Set ℕ := {t | (s.driver.tasks t).isWaiting = true}

/-- The completions that are there for them. -/
def Session.tokens (s : Session) : ℕ∞ := if s.completedAll then ⊤ else s.driver.completions

/-- Once the work has returned, there is a completion for every reader that waits. -/
def Session.NoneStranded (s : Session) : Prop :=
  s.driver.warmup = .finished → s.waiting.encard ≤ s.tokens

/-- A step that strands no reader: a reader starts to wait after the work only when a completion is
left for it, one reader at most waits when the work calls `complete`, and none when the work gives
up on an absent device, unless `complete_all` has been called. -/
structure SessionRecord.Spared (c : SessionRecord) : Prop where
  starts : ∀ t input, c.input = .step t input → c.before.driver.startsWait t = true →
    c.before.driver.warmup = .finished → c.before.waiting.encard + 1 ≤ c.before.tokens
  completes : ∀ scripts discard, c.input = .warmup scripts discard →
    c.before.driver.warmup = .completing →
      c.before.completedAll = true ∨ c.before.waiting.encard ≤ 1
  gone : ∀ scripts discard rounds, c.input = .warmup scripts discard →
    c.before.driver.warmup = .checking rounds → c.before.driver.dev.present = false →
      c.before.completedAll = true ∨ c.before.waiting = ∅

/-- Before the work has returned nothing is completed but by `complete_all`. -/
def Session.Pending (s : Session) : Prop :=
  s.driver.warmup ≠ .finished → s.driver.completions = 0

lemma waiting_update (tasks : ℕ → Task) (t : ℕ) (task : Task) :
    {t' | (Function.update tasks t task t').isWaiting = true} =
      if task.isWaiting = true then insert t {t' | (tasks t').isWaiting = true}
      else {t' | (tasks t').isWaiting = true} \ {t} := by
  ext t'
  by_cases ht : t' = t
  · subst ht
    split_ifs with hwait <;> simp [hwait]
  · split_ifs <;> simp [ht]

/-! ### Steps that leave the readers waiting -/

/-- A step in which no reader starts or stops to wait, the work does not move, and no completion is
taken. -/
structure Session.Quiet (s s' : Session) : Prop where
  waiting_eq : s'.waiting = s.waiting
  warmup_eq : s'.driver.warmup = s.driver.warmup
  completions_eq : s'.driver.completions = s.driver.completions
  completedAll : s.completedAll = true → s'.completedAll = true

lemma Session.Quiet.keeps {s s' : Session} (h : s.Quiet s') (hpending : s.Pending)
    (hs : s.NoneStranded) : s'.Pending ∧ s'.NoneStranded := by
  refine ⟨fun hnot => ?_, fun hfinished => ?_⟩
  · rw [h.completions_eq]
    exact hpending (h.warmup_eq ▸ hnot)
  · have hle := hs (h.warmup_eq ▸ hfinished)
    rw [h.waiting_eq]
    refine hle.trans ?_
    rw [tokens, tokens, h.completions_eq]
    split_ifs with hbefore hafter
    · exact le_rfl
    · exact absurd (h.completedAll hbefore) hafter
    · exact le_top
    · exact le_rfl

/-- A step of the driver that changes no task but one that begins a call. -/
lemma Session.Quiet.onDriver {s s' : Session} {a : Action} {o : Output}
    (h : s.onDriver a = some (o, s'))
    (hstep : ∀ d d' : Driver, d.step a = some (o, d') → d'.warmup = d.warmup ∧
      d'.completions = d.completions ∧
        {t | (d'.tasks t).isWaiting = true} = {t | (d.tasks t).isWaiting = true}) :
    s.Quiet s' := by
  obtain ⟨n, n', d', hd, rfl, hn⟩ := Session.onDriver_cases h
  obtain ⟨hwarmup, hcompletions, hwaiting⟩ := hstep _ _ hd
  refine ⟨hwaiting, hwarmup, ?_, id⟩
  rcases hn with ⟨_, rfl⟩ | ⟨rfl, rfl⟩
  · rfl
  · exact hcompletions

/-- A call that begins does not wait yet. -/
lemma waiting_start {d : Driver} {t : ℕ} {task : Task} (hidle : d.tasks t = .idle)
    (hwait : task.isWaiting = false) :
    {t' | ((d.setTask t task).tasks t').isWaiting = true} =
      {t' | (d.tasks t').isWaiting = true} := by
  refine (waiting_update d.tasks t task).trans ?_
  rw [hwait, if_neg Bool.false_ne_true, Set.sdiff_singleton_eq_self]
  simp [hidle, Task.isWaiting]

lemma Session.Quiet.startCall {s s' : Session} {t : ℕ} {caller : Caller} {a : Action} {o : Output}
    (h : s.startCall t caller a = some (o, s'))
    (hstep : ∀ d d' : Driver, d.step a = some (o, d') → d'.warmup = d.warmup ∧
      d'.completions = d.completions ∧
        {t | (d'.tasks t).isWaiting = true} = {t | (d.tasks t).isWaiting = true}) :
    s.Quiet s' := by
  obtain ⟨hwaiting, hwarmup, hcompletions, hall⟩ := Session.Quiet.onDriver h hstep
  exact ⟨hwaiting, hwarmup, hcompletions, hall⟩

lemma infnoiseDisconnect_quiet {s s' : Session} {o : Output}
    (h : s.infnoiseDisconnect = some (o, s')) : s.Quiet s' := by
  rw [Session.infnoiseDisconnect] at h
  split at h
  · cases h
    exact ⟨rfl, rfl, rfl, id⟩
  · cases h
    exact ⟨rfl, rfl, rfl, fun _ => rfl⟩
  · split at h <;> cases h <;> exact ⟨rfl, rfl, rfl, id⟩
  · split at h
    · cases h
      exact ⟨rfl, rfl, rfl, id⟩
    · cases h
  · cases h
    exact ⟨rfl, rfl, rfl, id⟩
  · cases h
    exact ⟨rfl, rfl, rfl, id⟩
  · cases h

/-! ### Steps of a reader -/

lemma Driver.not_waiting_of_startsWait {d : Driver} {t : ℕ} (h : d.startsWait t = true) :
    (d.tasks t).isWaiting = false := by
  rw [Driver.startsWait] at h
  rcases ht : d.tasks t with _ | ⟨call, pc⟩ | ⟨call, pc⟩ | locked
  · rfl
  · cases pc <;> first | rfl | (rw [ht] at h; cases h)
  · cases pc <;> first | rfl | (rw [ht] at h; cases h)
  · rfl

/-- One reader less needs one completion less. -/
lemma encard_diff_le {W : Set ℕ} {t n : ℕ} (ht : t ∈ W) (hpos : 0 < n) (hle : W.encard ≤ n) :
    (W \ {t}).encard ≤ (n - 1 : ℕ) := by
  obtain ⟨n, rfl⟩ : ∃ m, n = m + 1 := ⟨n - 1, by omega⟩
  rw [← Set.encard_sdiff_singleton_add_one ht, Nat.cast_add, Nat.cast_one] at hle
  exact (ENat.add_le_add_iff_right ENat.one_ne_top).mp hle

/-- A step of a task strands a reader when the task starts to wait without a completion. -/
lemma taskStep_stranded {s s' : Session} {t : ℕ} {input : StepInput} {o : Output}
    (h : s.onDriver (.step t input) = some (o, s')) (hpending : s.Pending) (hs : s.NoneStranded) :
    s'.Pending ∧ (s'.NoneStranded ↔ (s.driver.startsWait t = true → s.driver.warmup = .finished →
      s.waiting.encard + 1 ≤ s.tokens)) := by
  obtain ⟨n, n', d', hstep, rfl, hn⟩ := Session.onDriver_cases h
  obtain ⟨_, task, hmove⟩ := step_moves hstep
  have hwarmup : d'.warmup = s.driver.warmup := hmove.warmup_eq
  have hwait : task.isWaiting = s.driver.startsWait t := hmove.isWaiting_eq
  have hwaiting : {t | (d'.tasks t).isWaiting = true} =
      if task.isWaiting = true then insert t s.waiting else s.waiting \ {t} := by
    rw [hmove.tasks_eq]
    exact waiting_update s.driver.tasks t task
  have hcompletions : n' = s.driver.completions ∨
      t ∈ s.waiting ∧ 0 < s.driver.completions ∧ n' = s.driver.completions - 1 := by
    rcases hn with ⟨_, rfl⟩ | ⟨rfl, rfl⟩
    · exact .inl rfl
    · exact hmove.completions
  refine ⟨fun hnot => ?_, ?_⟩
  · have hzero := hpending (hwarmup ▸ hnot)
    rcases hcompletions with rfl | ⟨_, hpos, _⟩
    · exact hzero
    · omega
  · rw [Session.NoneStranded, Session.waiting, Session.tokens]
    dsimp only
    rw [hwarmup, hwaiting]
    by_cases hstarts : s.driver.startsWait t = true
    · have hnot : t ∉ s.waiting := by
        intro hmem
        exact Bool.false_ne_true ((Driver.not_waiting_of_startsWait hstarts).symm.trans hmem)
      rcases hcompletions with rfl | ⟨hmem, _⟩
      · rw [if_pos (hwait.trans hstarts), Set.encard_insert_of_notMem hnot]
        exact ⟨fun hle _ => hle, fun hle => hle hstarts⟩
      · exact absurd hmem hnot
    · refine ⟨fun _ hfalse => absurd hfalse hstarts, fun _ hfinished => ?_⟩
      rw [if_neg (hwait ▸ hstarts)]
      have hle := hs hfinished
      rw [Session.tokens] at hle
      split_ifs at hle ⊢ with hall
      · exact le_top
      · rcases hcompletions with rfl | ⟨hmem, hpos, rfl⟩
        · exact (Set.encard_le_encard Set.sdiff_subset).trans hle
        · exact encard_diff_le hmem hpos hle

/-! ### Steps of the work -/

/-- The work strands a reader when it leaves one without a completion. -/
lemma warmupStep_stranded {s s' : Session} {scripts : ℕ → AttemptScript} {discard : ℕ → Byte}
    {o : Output} (h : s.onDriver (.warmup scripts discard) = some (o, s')) (hpending : s.Pending) :
    s'.Pending ∧ (s'.NoneStranded ↔
      (s.driver.warmup = .completing → s.completedAll = true ∨ s.waiting.encard ≤ 1) ∧
      ∀ rounds, s.driver.warmup = .checking rounds → s.driver.dev.present = false →
        s.completedAll = true ∨ s.waiting = ∅) := by
  obtain ⟨n, n', d', hstep, rfl, hn⟩ := Session.onDriver_cases h
  obtain ⟨rfl, hcases⟩ := warmupStep_cases hstep
  have hbefore : s.driver.warmup ≠ .finished := by
    intro hfinished
    cases hcases with
    | locks hw | reads hw | stops hw | gone hw | fails hw | succeeds hw | completes hw =>
      cases hfinished.symm.trans hw
  have hzero := hpending hbefore
  have hidle : d'.completions = n → n' = 0 := by
    intro hsame
    rcases hn with ⟨_, rfl⟩ | ⟨rfl, rfl⟩
    · exact hzero
    · exact hsame.trans hzero
  cases hcases with
  | locks hw | reads hw | stops hw =>
    -- the work goes on
    refine ⟨fun _ => hidle rfl, (fun _ => ⟨fun hcompleting => ?_, fun rounds hchecking => ?_⟩), ?_⟩
    · cases hw.symm.trans hcompleting
    · cases hw.symm.trans hchecking
    · intro _ hfinished
      cases hfinished
  | fails hw hpresent | succeeds hw hpresent =>
    refine ⟨fun _ => hidle rfl, (fun _ => ⟨fun hcompleting => ?_, fun rounds _ habsent => ?_⟩), ?_⟩
    · cases hw.symm.trans hcompleting
    · cases hpresent.symm.trans habsent
    · intro _ hfinished
      cases hfinished
  | gone hw hpresent =>
    obtain rfl := hidle rfl
    refine ⟨fun _ => rfl, fun hs' => ⟨fun hcompleting => ?_, fun rounds _ _ => ?_⟩,
      fun hspared _ => ?_⟩
    · cases hw.symm.trans hcompleting
    · have hle := hs' rfl
      rw [Session.tokens] at hle
      split_ifs at hle with hall
      · exact .inl hall
      · exact .inr (Set.encard_eq_zero.mp (nonpos_iff_eq_zero.mp hle))
    · rcases hspared.2 _ hw hpresent with hall | hnone
      · rw [Session.tokens, if_pos hall]
        exact le_top
      · change s.waiting.encard ≤ _
        rw [hnone, Set.encard_empty]
        exact zero_le
  | completes hw =>
    refine ⟨fun hnot => absurd rfl hnot, fun hs' => ⟨fun _ => ?_, fun rounds hchecking => ?_⟩,
      fun hspared _ => ?_⟩
    · have hle := hs' rfl
      rw [Session.tokens] at hle
      split_ifs at hle with hall
      · exact .inl hall
      · rcases hn with ⟨hall', _⟩ | ⟨rfl, rfl⟩
        · exact absurd hall' hall
        · rw [hzero] at hle
          exact .inr hle
    · cases hw.symm.trans hchecking
    · rw [Session.tokens]
      split_ifs with hall
      · exact le_top
      · rcases hn with ⟨hall', _⟩ | ⟨rfl, rfl⟩
        · exact absurd hall' hall
        · rw [hzero]
          exact (hspared.1 hw).resolve_left hall

/-! ### Runs -/

/-- A step strands a reader exactly when it is not spared. -/
lemma step_stranded {c : SessionRecord} (hstep : c.before.step c.input = some (c.output, c.after))
    (hpending : c.before.Pending) (hs : c.before.NoneStranded) :
    c.after.Pending ∧ (c.after.NoneStranded ↔ c.Spared) := by
  obtain ⟨s, a, o, s'⟩ := c
  dsimp only at hstep hpending hs ⊢
  have hquiet : s.Quiet s' → (∀ t input, a ≠ .step t input) →
      (∀ scripts discard, a ≠ .warmup scripts discard) →
        s'.Pending ∧ (s'.NoneStranded ↔ SessionRecord.Spared ⟨s, a, o, s'⟩) := by
    intro h htask hwork
    obtain ⟨hpending', hs'⟩ := h.keeps hpending hs
    refine ⟨hpending', fun _ => ⟨?_, ?_, ?_⟩, fun _ => hs'⟩
    · exact fun t input ha => absurd ha (htask t input)
    · exact fun scripts discard ha => absurd ha (hwork scripts discard)
    · exact fun scripts discard _ ha => absurd ha (hwork scripts discard)
  cases a with
  | openFile file =>
    refine hquiet ?_ nofun nofun
    rw [Session.step, Session.infnoiseOpen] at hstep
    split_ifs at hstep <;> cases hstep <;> exact ⟨rfl, rfl, rfl, id⟩
  | releaseFile file =>
    refine hquiet ?_ nofun nofun
    rw [Session.step, Session.infnoiseRelease] at hstep
    split_ifs at hstep
    cases hstep
    exact ⟨rfl, rfl, rfl, id⟩
  | charRead | ioctlGet | hwrngRead =>
    refine hquiet ?_ nofun nofun
    rw [Session.step] at hstep
    split_ifs at hstep
    refine .startCall hstep fun d d' hd => ?_
    cases driverStep_cases hd
    rename_i hidle
    exact ⟨rfl, rfl, waiting_start hidle rfl⟩
  | ioctlSetRaw file raw =>
    refine hquiet ?_ nofun nofun
    rw [Session.step] at hstep
    split_ifs at hstep
    refine .onDriver hstep fun d d' hd => ?_
    cases driverStep_cases hd
    exact ⟨rfl, rfl, rfl⟩
  | setParameters multiplier rawMode =>
    refine hquiet (.onDriver hstep fun d d' hd => ?_) nofun nofun
    cases driverStep_cases hd
    exact ⟨rfl, rfl, rfl⟩
  | disconnect => exact hquiet (infnoiseDisconnect_quiet hstep) nofun nofun
  | step t input =>
    obtain ⟨⟨o', s₁⟩, hdriver, heq⟩ := Option.map_eq_some_iff.mp hstep
    obtain ⟨rfl, rfl⟩ := Prod.mk.inj heq
    obtain ⟨hpending', hiff⟩ := taskStep_stranded hdriver hpending hs
    obtain ⟨calls, hcalls⟩ := s₁.endCall_eq t o'
    have hiff' : (s₁.endCall t o').NoneStranded ↔ s₁.NoneStranded := by
      rw [hcalls]
      exact Iff.rfl
    refine ⟨hcalls ▸ hpending', (hiff'.trans hiff).trans ⟨fun h => ⟨?_, nofun, nofun⟩, fun h => ?_⟩⟩
    · intro t' input' ha
      obtain ⟨rfl, _⟩ := SessionAction.step.inj ha
      exact h
    · exact h.starts t input rfl
  | warmup scripts discard =>
    rw [Session.step] at hstep
    split_ifs at hstep
    obtain ⟨hpending', hiff⟩ := warmupStep_stranded hstep hpending
    refine ⟨hpending', hiff.trans ⟨fun h => ⟨nofun, ?_, ?_⟩, fun h => ⟨?_, ?_⟩⟩⟩
    · exact fun _ _ _ hw => h.1 hw
    · exact fun _ _ rounds _ hw => h.2 rounds hw
    · exact h.completes scripts discard rfl
    · exact fun rounds => h.gone scripts discard rounds rfl

/-- In every run of a device from its probe on, with any number of readers and in any order: no
reader is stranded exactly when every step spares them. -/
theorem noneStranded_iff {clockBuf usbBuf readBuf outBuf : ℕ → Byte} {multiplier : ℕ}
    {rawMode hwrngReg : Bool} {s : Session} {cs : List SessionRecord}
    (h : Run Session.step (.probe
      (infnoiseProbe clockBuf usbBuf readBuf outBuf multiplier rawMode) hwrngReg) cs s) :
    (∀ c ∈ cs, c.after.NoneStranded) ↔ ∀ c ∈ cs, c.Spared := by
  refine h.forall_after_iff (I := Session.Pending) (fun c hstep => step_stranded hstep) ?_ ?_
  · exact fun _ => rfl
  · intro hfinished
    cases hfinished

/-! ### Readers that wait for the warm-up -/

/-- What is no step of the work spares the readers as long as the work has not returned. -/
lemma SessionRecord.Spared.of_warming {c : SessionRecord}
    (hinput : ∀ scripts discard, c.input ≠ .warmup scripts discard)
    (hwarmup : c.before.driver.warmup ≠ .finished) : c.Spared where
  starts _ _ _ _ hfinished := absurd hfinished hwarmup
  completes scripts discard hwork := absurd hwork (hinput scripts discard)
  gone scripts discard _ hwork := absurd hwork (hinput scripts discard)

/-- A reader of an open file comes to wait. -/
lemma exists_run_waiting {s : Session} {file t : ℕ} (hfile : file ∈ s.files)
    (hall : s.completedAll = false) (ht : s.driver.tasks t = .idle)
    (hdone : s.driver.warmupDone = false) (hwarmup : s.driver.warmup ≠ .finished) :
    ∃ (cs : List SessionRecord) (calls : List (ℕ × Caller)), Run Session.step s cs { s with
      driver := s.driver.setTask t (.char ⟨1, false⟩ .waiting), calls } ∧ ∀ c ∈ cs, c.Spared := by
  have hstart : s.step (.charRead file t 1 false) = some (.silent, { s with
      driver := s.driver.setTask t (.char ⟨1, false⟩ .entered),
      calls := (t, .file file) :: s.calls }) := by
    rw [Session.step, if_pos hfile, Session.startCall, Session.onDriver]
    dsimp only
    rw [hall, if_neg Bool.false_ne_true, Driver.step, ht]
    rfl
  have hstep : CharStep (s.driver.setTask t (.char ⟨1, false⟩ .entered)) t
      ⟨fun _ => registerScript 0, fun _ => 0, false, 0⟩ ⟨1, false⟩ .entered .silent
        ((s.driver.setTask t (.char ⟨1, false⟩ .entered)).setTask t (.char ⟨1, false⟩ .waiting)) :=
    .waits hdone rfl
  rw [Driver.setTask_setTask] at hstep
  have hwait : ({ s with
      driver := s.driver.setTask t (.char ⟨1, false⟩ .entered)
      calls := (t, .file file) :: s.calls } : Session).step
        (.step t ⟨fun _ => registerScript 0, fun _ => 0, false, 0⟩) = some (.silent, { s with
          driver := s.driver.setTask t (.char ⟨1, false⟩ .waiting),
          calls := (t, .file file) :: s.calls }) := by
    rw [Session.step, Session.onDriver]
    dsimp only
    rw [hall, if_neg Bool.false_ne_true, step_of_charStep (Driver.setTask_tasks ..) hstep]
    rfl
  refine ⟨_, _, .cons hstart (.cons hwait (.nil _)), ?_⟩
  simp only [List.forall_mem_cons]
  refine ⟨.of_warming ?_ hwarmup, .of_warming ?_ hwarmup, List.forall_mem_nil _⟩
  · intro _ _ h
    cases h
  · intro _ _ h
    cases h

lemma WarmupStep.tasks_eq {d d' : Driver} {scripts : ℕ → AttemptScript} {discard : ℕ → Byte}
    (h : WarmupStep d scripts discard d') : d'.tasks = d.tasks := by
  cases h <;> rfl

/-- The work does in a session what it does alone, and leaves the readers and the plug alone. -/
lemma exists_run_warmup {s : Session} {d : Driver} {cs : List DriverRecord}
    (hall : s.completedAll = false) (hplugged : s.disconnect = .plugged)
    (h : WarmupRun s.driver cs d) :
    ∃ cs', Run Session.step s cs' { s with driver := d } ∧
      ∀ c ∈ cs', (∃ scripts discard, c.input = .warmup scripts discard) ∧
        c.before.waiting = s.waiting ∧ c.before.driver.dev.present = s.driver.dev.present := by
  have hinv := (h.1.invariant_of (I := fun d => d.dev.present = s.driver.dev.present ∧
    ∃ cs', Run Session.step s cs' { s with driver := d } ∧ d.tasks = s.driver.tasks ∧
      ∀ c ∈ cs', (∃ scripts discard, c.input = .warmup scripts discard) ∧
        c.before.waiting = s.waiting ∧ c.before.driver.dev.present = s.driver.dev.present)
    (fun c hstep hwarmup hI => ?_) h.2 ⟨rfl, [], .nil s, rfl, List.forall_mem_nil _⟩).2
  · obtain ⟨_, cs', hcs', _, hrecords⟩ := hinv
    exact ⟨cs', hcs', hrecords⟩
  · obtain ⟨hpresent, cs', hcs', htasks, hrecords⟩ := hI
    obtain ⟨scripts, discard, hinput⟩ := hwarmup
    have hstep' : ({ s with driver := c.before } : Session).step (.warmup scripts discard) =
        some (c.output, { s with driver := c.after }) := by
      rw [Session.step, Session.warmupQueued, Session.onDriver]
      dsimp only
      rw [hplugged, hall, ← hinput, hstep]
      rfl
    have hsame : c.after.tasks = c.before.tasks := by
      rw [hinput] at hstep
      exact (warmupStep_cases hstep).2.tasks_eq
    refine ⟨(step_present hstep).trans hpresent, _, hcs'.append (.single hstep'),
      hsame.trans htasks, ?_⟩
    simp only [List.forall_mem_append, List.forall_mem_singleton]
    refine ⟨hrecords, ⟨scripts, discard, rfl⟩, ?_, hpresent⟩
    rw [Session.waiting, htasks]
    rfl

/-- One reader comes before the warm-up. -/
lemma exists_run_one_waiting : ∃ (cs : List SessionRecord) (calls : List (ℕ × Caller)),
    Run Session.step (.probe probed true) cs
      { Session.probe probed true with
        driver := probed.setTask 0 (.char ⟨1, false⟩ .waiting), files := [0], calls } ∧
      ∀ c ∈ cs, c.Spared := by
  let s₁ : Session := { Session.probe probed true with files := [0] }
  have hopen : (Session.probe probed true).step (.openFile 0) = some (⟨[], some (.ok 0)⟩, s₁) := rfl
  have hwarmup : s₁.driver.warmup ≠ .finished := fun h => by cases h
  obtain ⟨cs, calls, hrun, hspared⟩ :=
    @exists_run_waiting s₁ 0 0 List.mem_cons_self rfl rfl rfl hwarmup
  refine ⟨_, calls, .cons hopen hrun,
    List.forall_mem_cons.mpr ⟨.of_warming ?_ hwarmup, hspared⟩⟩
  intro _ _ h
  cases h

/-- The work spares a reader that waits alone. -/
lemma SessionRecord.Spared.of_one {c : SessionRecord} {t : ℕ}
    (hinput : ∃ scripts discard, c.input = .warmup scripts discard)
    (hwaiting : c.before.waiting = {t}) (hpresent : c.before.driver.dev.present = true) :
    c.Spared := by
  obtain ⟨scripts, discard, hinput⟩ := hinput
  refine ⟨fun t' input hstep => ?_, fun _ _ _ _ => .inr ?_, fun _ _ _ _ _ habsent => ?_⟩
  · cases hinput.symm.trans hstep
  · rw [hwaiting, Set.encard_singleton]
  · cases hpresent.symm.trans habsent

/-- The completion is there for the reader, and it takes it. -/
lemma exists_run_served : ∃ (cs : List SessionRecord) (s : Session),
    Run Session.step (.probe probed true) cs s ∧ s.driver.warmup = .finished ∧
      (∃ c ∈ cs, c.before.waiting = {0} ∧ c.before.tokens = 1 ∧ c.after.waiting = ∅ ∧
        c.after.tokens = 0) ∧ ∀ c ∈ cs, c.Spared := by
  obtain ⟨cs₁, calls, hrun₁, hspared₁⟩ := exists_run_one_waiting
  let s : Session := { Session.probe probed true with
    driver := probed.setTask 0 (.char ⟨1, false⟩ .waiting), files := [0], calls }
  have hwarming : s.driver.dev.Warming 0 := infnoiseProbe_warming _ _ _ _ 1 false
  obtain ⟨_, dev, _, _, _, _, cs, hwarm, _⟩ := exists_warm (d := s.driver) rfl rfl hwarming
  obtain ⟨cs₂, hrun₂, hrecords⟩ := exists_run_warmup (s := s) rfl rfl hwarm
  have hidle : {t | (probed.tasks t).isWaiting = true} = ∅ :=
    Set.eq_empty_of_forall_notMem fun t ht => by cases ht
  have hwaiting : s.waiting = {0} := by
    refine (waiting_update probed.tasks 0 (.char ⟨1, false⟩ .waiting)).trans ?_
    rw [if_pos (by decide), hidle, insert_empty_eq]
  let d : Driver := { s.driver with
    dev, locked := false, warmupDone := true, completions := 1, warmup := .finished }
  let d' : Driver := { d with completions := 0 }.setTask 0 (.char ⟨1, false⟩ .failTest)
  let input : StepInput := ⟨fun _ => registerScript 0, fun _ => 0, false, 0⟩
  have hwoken : CharStep d 0 input ⟨1, false⟩ .waiting .silent d' := .woken rfl Nat.one_pos
  have hstep : ({ s with driver := d } : Session).step (.step 0 input) =
      some (.silent, { s with driver := d' }) := by
    rw [Session.step, Session.onDriver]
    dsimp only
    rw [show s.completedAll = false from rfl, if_neg Bool.false_ne_true,
      step_of_charStep rfl hwoken]
    rfl
  refine ⟨_, _, hrun₁.append (hrun₂.append (.single hstep)), rfl, ⟨_, List.mem_append_right _
    (List.mem_append_right _ (List.mem_singleton_self _)), hwaiting, rfl, ?_, rfl⟩, ?_⟩
  · refine (waiting_update d.tasks 0 (.char ⟨1, false⟩ .failTest)).trans ?_
    rw [if_neg (by decide)]
    exact Set.sdiff_eq_empty.mpr hwaiting.le
  · simp only [List.forall_mem_append, List.forall_mem_singleton]
    refine ⟨hspared₁, fun c hc => ?_, ?_, fun _ _ h => ?_, fun _ _ _ h => ?_⟩
    · obtain ⟨hinput, hsame, hpresent⟩ := hrecords c hc
      exact .of_one hinput (hsame.trans hwaiting) hpresent
    · intro t input hinput hstarts
      obtain ⟨rfl, _⟩ := SessionAction.step.inj hinput
      cases (Driver.not_waiting_of_startsWait hstarts).symm.trans rfl
    · cases h
    · cases h

/-- Two readers come before the warm-up, which completes once. -/
lemma exists_run_two_waiting : ∃ cs s, Run Session.step (.probe probed true) cs s ∧
      s.driver.warmup = .finished ∧ {0, 1} ⊆ s.waiting ∧ s.tokens = 1 := by
  obtain ⟨cs₁, calls₁, hrun₁, -⟩ := exists_run_one_waiting
  let s₁ : Session := { Session.probe probed true with
    driver := probed.setTask 0 (.char ⟨1, false⟩ .waiting), files := [0], calls := calls₁ }
  have hwarmup : s₁.driver.warmup ≠ .finished := fun h => by cases h
  obtain ⟨cs₂, calls₂, hrun₂, -⟩ :=
    @exists_run_waiting s₁ 0 1 List.mem_cons_self rfl rfl rfl hwarmup
  let s₂ : Session := { s₁ with
    driver := s₁.driver.setTask 1 (.char ⟨1, false⟩ .waiting), calls := calls₂ }
  have hwarming : s₂.driver.dev.Warming 0 := infnoiseProbe_warming _ _ _ _ 1 false
  obtain ⟨_, dev, _, _, _, _, cs, hwarm, _⟩ := exists_warm (d := s₂.driver) rfl rfl hwarming
  obtain ⟨cs₃, hrun₃, -⟩ := exists_run_warmup (s := s₂) rfl rfl hwarm
  refine ⟨_, _, hrun₁.append (hrun₂.append hrun₃), rfl, ?_, rfl⟩
  rintro t (rfl | rfl)
  · rfl
  · rfl

/-- Then one of them is stranded. -/
lemma not_noneStranded_of_two {s : Session} (hfinished : s.driver.warmup = .finished)
    (hwaiting : {0, 1} ⊆ s.waiting) (htokens : s.tokens = 1) : ¬ s.NoneStranded := by
  intro hnone
  have htwo : (2 : ℕ∞) ≤ 1 := calc
    (2 : ℕ∞) = ({0, 1} : Set ℕ).encard := (Set.encard_pair Nat.zero_ne_one).symm
    _ ≤ s.waiting.encard := Set.encard_le_encard hwaiting
    _ ≤ s.tokens := hnone hfinished
    _ = 1 := htokens
  exact absurd htwo (by decide)

lemma noneStranded_last {s s' : Session} {cs : List SessionRecord} (h : Run Session.step s cs s')
    (hs : s.NoneStranded) (hall : ∀ c ∈ cs, c.after.NoneStranded) : s'.NoneStranded :=
  (h.invariant_of (I := Session.NoneStranded) (P := fun c => c.after.NoneStranded)
    (fun _ _ hc _ => hc) hall hs).2

/-- One reader that waits is served and all steps spare it; of two that wait one is stranded, and
some step does not spare them. -/
theorem noneStranded_iff_readers :
    (∃ (cs : List SessionRecord) (s : Session), Run Session.step (.probe probed true) cs s ∧
      s.driver.warmup = .finished ∧ (∃ c ∈ cs, c.before.waiting = {0} ∧ c.before.tokens = 1 ∧
        c.after.waiting = ∅ ∧ c.after.tokens = 0) ∧ ∀ c ∈ cs, c.after.NoneStranded) ∧
    ∃ (cs : List SessionRecord) (s : Session), Run Session.step (.probe probed true) cs s ∧
      ∃ c ∈ cs, ¬ c.Spared := by
  constructor
  · obtain ⟨cs, s, hrun, hfinished, hserved, hspared⟩ := exists_run_served
    exact ⟨cs, s, hrun, hfinished, hserved, (noneStranded_iff hrun).mpr hspared⟩
  · obtain ⟨cs, s, hrun, hfinished, hwaiting, htokens⟩ := exists_run_two_waiting
    refine ⟨cs, s, hrun, ?_⟩
    by_contra hspared
    push Not at hspared
    have hall := (noneStranded_iff hrun).mpr hspared
    exact not_noneStranded_of_two hfinished hwaiting htokens (noneStranded_last hrun nofun hall)

/-- Of two readers that wait for the warm-up one is stranded. -/
theorem reader_stranded : ∃ cs s, Run Session.step (.probe probed true) cs s ∧
      ¬ ∀ c ∈ cs, c.after.NoneStranded := by
  obtain ⟨cs, s, hrun, hfinished, hwaiting, htokens⟩ := exists_run_two_waiting
  refine ⟨cs, s, hrun, fun hall => ?_⟩
  exact not_noneStranded_of_two hfinished hwaiting htokens (noneStranded_last hrun nofun hall)

end Kernel
