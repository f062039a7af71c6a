import Infnoise.Kernel.Driver

/-!
# Transitions of the driver

One case for each branch that a step of the driver can take: what the branch has tested, what it
hands out, and what it does to the driver.
-/

namespace Kernel

open Core

attribute [local irreducible] infnoiseKeccakPermutation infnoiseKeccakAbsorb

/-- The branches of `infnoise_hwrng_read`. -/
inductive HwrngStep (d : Driver) (t : ℕ) (input : StepInput) (call : HwrngCall) :
    HwrngPc → Output → Driver → Prop where
  | absent (hpresent : d.dev.present = false) :
    HwrngStep d t input call .entered ⟨[], some (.error .enodev)⟩ (d.setTask t .idle)
  | waits (hpresent : d.dev.present = true) (hwait : call.wait = true)
      (hdone : d.warmupDone = false) :
    HwrngStep d t input call .entered .silent (d.setTask t (.hwrng call .waiting))
  | enters (hpresent : d.dev.present = true) (hgo : call.wait = false ∨ d.warmupDone = true) :
    HwrngStep d t input call .entered .silent (d.setTask t (.hwrng call .warmupTest))
  | interrupted (hsignal : input.signal = true) :
    HwrngStep d t input call .waiting ⟨[], some (.error .erestartsys)⟩ (d.setTask t .idle)
  | woken (hsignal : input.signal = false) (htoken : 0 < d.completions) :
    HwrngStep d t input call .waiting .silent
      ({ d with completions := d.completions - 1 }.setTask t (.hwrng call .warmupTest))
  | cold (hdone : d.warmupDone = false) :
    HwrngStep d t input call .warmupTest ⟨[], some (.ok 0)⟩ (d.setTask t .idle)
  | warm (hdone : d.warmupDone = true) :
    HwrngStep d t input call .warmupTest .silent (d.setTask t (.hwrng call .failTest))
  | failed (hfail : d.dev.healthFail = true) :
    HwrngStep d t input call .failTest ⟨[], some (.error .eio)⟩ (d.setTask t .idle)
  | healthy (hfail : d.dev.healthFail = false) :
    HwrngStep d t input call .failTest .silent (d.setTask t (.hwrng call .locking))
  | locks (hlocked : d.locked = false) :
    HwrngStep d t input call .locking .silent
      ({ d with locked := true }.setTask t (.hwrng call .locked))
  | reads {r : ReadResult}
      (hread : infnoiseReadData d.dev d.multiplier input.scripts input.buffer call.max call.raw =
        some r) :
    HwrngStep d t input call .locked .silent
      ({ d with dev := r.dev }.setTask t (.hwrng call (.unlocking r.ret r.result)))
  | unlocks {ret : Except Errno ℕ} {data : ℕ → Byte} :
    HwrngStep d t input call (.unlocking ret data) .silent
      ({ d with locked := false }.setTask t (.hwrng call (.returning ret data)))
  | returns {ret : Except Errno ℕ} {data : ℕ → Byte} :
    HwrngStep d t input call (.returning ret data) ⟨deliveredBytes ret data, some ret⟩
      (d.setTask t .idle)

/-- The branches of `infnoise_char_read`. -/
inductive CharStep (d : Driver) (t : ℕ) (input : StepInput) (call : CharCall) :
    CharPc → Output → Driver → Prop where
  | cold (hdone : d.warmupDone = false) (hnonblock : call.nonblock = true) :
    CharStep d t input call .entered ⟨[], some (.error .eagain)⟩ (d.setTask t .idle)
  | waits (hdone : d.warmupDone = false) (hnonblock : call.nonblock = false) :
    CharStep d t input call .entered .silent (d.setTask t (.char call .waiting))
  | warm (hdone : d.warmupDone = true) :
    CharStep d t input call .entered .silent (d.setTask t (.char call .failTest))
  | interrupted (hsignal : input.signal = true) :
    CharStep d t input call .waiting ⟨[], some (.error .erestartsys)⟩ (d.setTask t .idle)
  | woken (hsignal : input.signal = false) (htoken : 0 < d.completions) :
    CharStep d t input call .waiting .silent
      ({ d with completions := d.completions - 1 }.setTask t (.char call .failTest))
  | failed (hfail : d.dev.healthFail = true) :
    CharStep d t input call .failTest ⟨[], some (.error .eio)⟩ (d.setTask t .idle)
  | healthy (hfail : d.dev.healthFail = false) :
    CharStep d t input call .failTest .silent (d.setTask t (.char call (.loop 0)))
  | locks {total : ℕ} (hmore : total < call.count) (hlocked : d.locked = false) :
    CharStep d t input call (.loop total) .silent
      ({ d with locked := true }.setTask t (.char call (.locked total)))
  | ends {total : ℕ} (hmore : call.count ≤ total) :
    CharStep d t input call (.loop total) ⟨[], some (.ok total)⟩ (d.setTask t .idle)
  | reads {total : ℕ} {r : ReadResult}
      (hread : infnoiseReadData d.dev d.multiplier input.scripts input.buffer
        (min (call.count - total) 128) (d.infnoiseRawMode || d.rawMode) = some r) :
    CharStep d t input call (.locked total) .silent
      ({ d with dev := r.dev }.setTask t (.char call (.unlocking total r.ret r.result)))
  | unlocks {total : ℕ} {ret : Except Errno ℕ} {data : ℕ → Byte} :
    CharStep d t input call (.unlocking total ret data) .silent
      ({ d with locked := false }.setTask t (.char call (.copying total ret data)))
  | error {total : ℕ} {e : Errno} {data : ℕ → Byte} :
    CharStep d t input call (.copying total (.error e) data)
      ⟨[], some (if total ≠ 0 then .ok total else .error e)⟩ (d.setTask t .idle)
  | dry {total : ℕ} {data : ℕ → Byte} (htotal : 0 < total) :
    CharStep d t input call (.copying total (.ok 0) data) ⟨[], some (.ok total)⟩ (d.setTask t .idle)
  | again {data : ℕ → Byte} (hnonblock : call.nonblock = true) :
    CharStep d t input call (.copying 0 (.ok 0) data) ⟨[], some (.error .eagain)⟩
      (d.setTask t .idle)
  | signalled {data : ℕ → Byte} (hnonblock : call.nonblock = false)
      (hsignal : input.signal = true) :
    CharStep d t input call (.copying 0 (.ok 0) data) ⟨[], some (.error .erestartsys)⟩
      (d.setTask t .idle)
  | retries {data : ℕ → Byte} (hnonblock : call.nonblock = false) (hsignal : input.signal = false) :
    CharStep d t input call (.copying 0 (.ok 0) data) .silent (d.setTask t (.char call (.loop 0)))
  | faults {total n : ℕ} {data : ℕ → Byte} (hcopied : input.copied < n + 1) :
    CharStep d t input call (.copying total (.ok (n + 1)) data)
      ⟨bufferBytes data input.copied, some (.error .efault)⟩ (d.setTask t .idle)
  | copies {total n : ℕ} {data : ℕ → Byte} (hcopied : n + 1 ≤ input.copied) :
    CharStep d t input call (.copying total (.ok (n + 1)) data) ⟨bufferBytes data (n + 1), none⟩
      (d.setTask t (.char call (.loop (total + (n + 1)))))

/-- The branches of the ioctls that read the health checker. -/
inductive IoctlStep (d : Driver) (t : ℕ) : Bool → Output → Driver → Prop where
  | locks (hlocked : d.locked = false) :
    IoctlStep d t false .silent ({ d with locked := true }.setTask t (.ioctl true))
  | returns :
    IoctlStep d t true ⟨[], some (.ok 0)⟩ ({ d with locked := false }.setTask t .idle)

/-- The branches of `infnoise_warmup_work`. -/
inductive WarmupStep (d : Driver) (scripts : ℕ → AttemptScript) (discard : ℕ → Byte) :
    Driver → Prop where
  | locks (hw : d.warmup = .scheduled) :
    WarmupStep d scripts discard { d with locked := true, warmup := .running 0 }
  | reads {rounds : ℕ} {r : ReadResult} (hw : d.warmup = .running rounds)
      (hok : infnoiseHealthOk d.dev.health = false) (hrounds : rounds < infnoiseWarmupRounds)
      (hread : infnoiseReadData d.dev d.multiplier scripts discard 64 true = some r) :
    WarmupStep d scripts discard { d with dev := r.dev, warmup := .running (rounds + 1) }
  | stops {rounds : ℕ} (hw : d.warmup = .running rounds)
      (hstop : infnoiseHealthOk d.dev.health = true ∨ infnoiseWarmupRounds ≤ rounds ∨
        d.dev.present = false) :
    WarmupStep d scripts discard { d with locked := false, warmup := .checking rounds }
  | gone {rounds : ℕ} (hw : d.warmup = .checking rounds) (hpresent : d.dev.present = false) :
    WarmupStep d scripts discard { d with warmup := .finished }
  | fails {rounds : ℕ} (hw : d.warmup = .checking rounds) (hpresent : d.dev.present = true)
      (hrounds : infnoiseWarmupRounds ≤ rounds) :
    WarmupStep d scripts discard
      { d with dev := { d.dev with healthFail := true }, warmup := .completing }
  | succeeds {rounds : ℕ} (hw : d.warmup = .checking rounds) (hpresent : d.dev.present = true)
      (hrounds : rounds < infnoiseWarmupRounds) :
    WarmupStep d scripts discard { d with warmupDone := true, warmup := .completing }
  | completes (hw : d.warmup = .completing) :
    WarmupStep d scripts discard { d with completions := d.completions + 1, warmup := .finished }

/-- The transitions of the driver. -/
inductive DriverStep (d : Driver) : Action → Output → Driver → Prop where
  | warmup {scripts : ℕ → AttemptScript} {discard : ℕ → Byte} {d' : Driver}
      (h : WarmupStep d scripts discard d') : DriverStep d (.warmup scripts discard) .silent d'
  | hwrngRead {t max : ℕ} {wait : Bool} (hidle : d.tasks t = .idle) :
    DriverStep d (.hwrngRead t max wait) .silent
      (d.setTask t (.hwrng ⟨max, wait, d.infnoiseRawMode || d.rawMode⟩ .entered))
  | charRead {t count : ℕ} {nonblock : Bool} (hidle : d.tasks t = .idle) :
    DriverStep d (.charRead t count nonblock) .silent
      (d.setTask t (.char ⟨count, nonblock⟩ .entered))
  | ioctlGet {t : ℕ} (hidle : d.tasks t = .idle) :
    DriverStep d (.ioctlGet t) .silent (d.setTask t (.ioctl false))
  | ioctlSetRaw {raw : Bool} : DriverStep d (.ioctlSetRaw raw) .silent { d with rawMode := raw }
  | setParameters {multiplier : ℕ} {rawMode : Bool} :
    DriverStep d (.setParameters multiplier rawMode) .silent
      { d with multiplier, infnoiseRawMode := rawMode }
  | hwrng {t : ℕ} {input : StepInput} {call : HwrngCall} {pc : HwrngPc} {o : Output} {d' : Driver}
      (ht : d.tasks t = .hwrng call pc) (h : HwrngStep d t input call pc o d') :
    DriverStep d (.step t input) o d'
  | char {t : ℕ} {input : StepInput} {call : CharCall} {pc : CharPc} {o : Output} {d' : Driver}
      (ht : d.tasks t = .char call pc) (h : CharStep d t input call pc o d') :
    DriverStep d (.step t input) o d'
  | ioctl {t : ℕ} {input : StepInput} {locked : Bool} {o : Output} {d' : Driver}
      (ht : d.tasks t = .ioctl locked) (h : IoctlStep d t locked o d') :
    DriverStep d (.step t input) o d'

section

variable {d d' : Driver} {t : ℕ} {input : StepInput} {o : Output}

lemma lock_eq_some_iff {task : Task} :
    d.lock t task = some (o, d') ↔
      d.locked = false ∧ (.silent, { d with locked := true }.setTask t task) = (o, d') := by
  rw [Driver.lock, Driver.goto]
  split
  · simp [*]
  · simp [*]

lemma waitForCompletion_eq_some_iff {signal : Bool} {task : Task} :
    d.waitForCompletion t signal task = some (o, d') ↔
      signal = true ∧ (⟨[], some (.error .erestartsys)⟩, d.setTask t .idle) = (o, d') ∨
        signal = false ∧ 0 < d.completions ∧
          (.silent, { d with completions := d.completions - 1 }.setTask t task) = (o, d') := by
  rw [Driver.waitForCompletion, Driver.finish, Driver.goto]
  split
  · simp [*]
  · split
    · simp [*]
    · simp [*, Nat.pos_iff_ne_zero]

lemma hwrngStep_cases {call : HwrngCall} {pc : HwrngPc}
    (h : d.hwrngStep t input call pc = some (o, d')) : HwrngStep d t input call pc o d' := by
  cases pc with
  | entered =>
    rw [Driver.hwrngStep] at h
    split at h
    · rename_i hpresent
      cases h
      exact .absent (by simpa using hpresent)
    · rename_i hpresent
      split at h
      · rename_i hwait
        cases h
        rw [Bool.and_eq_true, Bool.not_eq_true'] at hwait
        exact .waits (by simpa using hpresent) hwait.1 hwait.2
      · rename_i hwait
        cases h
        refine .enters (by simpa using hpresent) ?_
        rw [Bool.and_eq_true, not_and_or] at hwait
        simpa using hwait
  | waiting =>
    rcases waitForCompletion_eq_some_iff.mp h with ⟨hsignal, heq⟩ | ⟨hsignal, htoken, heq⟩
    · cases heq
      exact .interrupted hsignal
    · cases heq
      exact .woken hsignal htoken
  | warmupTest =>
    rw [Driver.hwrngStep] at h
    split at h
    · rename_i hdone
      cases h
      exact .cold (by simpa using hdone)
    · rename_i hdone
      cases h
      exact .warm (by simpa using hdone)
  | failTest =>
    rw [Driver.hwrngStep] at h
    split at h
    · rename_i hfail
      cases h
      exact .failed hfail
    · rename_i hfail
      cases h
      exact .healthy (by simpa using hfail)
  | locking =>
    obtain ⟨hlocked, heq⟩ := lock_eq_some_iff.mp h
    cases heq
    exact .locks hlocked
  | locked =>
    obtain ⟨r, hread, heq⟩ := Option.map_eq_some_iff.mp h
    cases heq
    exact .reads hread
  | unlocking ret data =>
    cases h
    exact .unlocks
  | returning ret data =>
    cases h
    exact .returns

/-- Each of the branches can be taken. -/
lemma HwrngStep.hwrngStep_eq {call : HwrngCall} {pc : HwrngPc} (h : HwrngStep d t input call pc o d') :
    d.hwrngStep t input call pc = some (o, d') := by
  cases h with
  | absent hpresent => simp [Driver.hwrngStep, Driver.finish, hpresent]
  | waits hpresent hwait hdone => simp [Driver.hwrngStep, Driver.goto, hpresent, hwait, hdone]
  | enters hpresent hgo =>
    rcases hgo with hwait | hdone
    · simp [Driver.hwrngStep, Driver.goto, hpresent, hwait]
    · simp [Driver.hwrngStep, Driver.goto, hpresent, hdone]
  | interrupted hsignal => exact waitForCompletion_eq_some_iff.mpr (.inl ⟨hsignal, rfl⟩)
  | woken hsignal htoken =>
    exact waitForCompletion_eq_some_iff.mpr (.inr ⟨hsignal, htoken, rfl⟩)
  | cold hdone => simp [Driver.hwrngStep, Driver.finish, hdone]
  | warm hdone => simp [Driver.hwrngStep, Driver.goto, hdone]
  | failed hfail => simp [Driver.hwrngStep, Driver.finish, hfail]
  | healthy hfail => simp [Driver.hwrngStep, Driver.goto, hfail]
  | locks hlocked => exact lock_eq_some_iff.mpr ⟨hlocked, rfl⟩
  | reads hread => exact Option.map_eq_some_iff.mpr ⟨_, hread, rfl⟩
  | unlocks | returns => rfl

lemma charStep_cases {call : CharCall} {pc : CharPc}
    (h : d.charStep t input call pc = some (o, d')) : CharStep d t input call pc o d' := by
  cases pc with
  | entered =>
    rw [Driver.charStep] at h
    split at h
    · rename_i hdone
      rw [Bool.not_eq_true'] at hdone
      split at h
      · rename_i hnonblock
        cases h
        exact .cold hdone hnonblock
      · rename_i hnonblock
        cases h
        exact .waits hdone (by simpa using hnonblock)
    · rename_i hdone
      cases h
      exact .warm (by simpa using hdone)
  | waiting =>
    rcases waitForCompletion_eq_some_iff.mp h with ⟨hsignal, heq⟩ | ⟨hsignal, htoken, heq⟩
    · cases heq
      exact .interrupted hsignal
    · cases heq
      exact .woken hsignal htoken
  | failTest =>
    rw [Driver.charStep] at h
    split at h
    · rename_i hfail
      cases h
      exact .failed hfail
    · rename_i hfail
      cases h
      exact .healthy (by simpa using hfail)
  | loop total =>
    rw [Driver.charStep] at h
    split at h
    · rename_i hmore
      obtain ⟨hlocked, heq⟩ := lock_eq_some_iff.mp h
      cases heq
      exact .locks hmore hlocked
    · rename_i hmore
      cases h
      exact .ends (not_lt.mp hmore)
  | locked total =>
    obtain ⟨r, hread, heq⟩ := Option.map_eq_some_iff.mp h
    cases heq
    exact .reads hread
  | unlocking total ret data =>
    cases h
    exact .unlocks
  | copying total ret data =>
    rcases ret with e | _ | n
    · cases h
      exact .error
    · rw [Driver.charStep] at h
      split at h
      · rename_i htotal
        cases h
        exact .dry htotal
      · rename_i htotal
        obtain rfl := Nat.eq_zero_of_not_pos htotal
        split at h
        · rename_i hnonblock
          cases h
          exact .again hnonblock
        · rename_i hnonblock
          rw [Bool.not_eq_true] at hnonblock
          split at h
          · rename_i hsignal
            cases h
            exact .signalled hnonblock hsignal
          · rename_i hsignal
            cases h
            exact .retries hnonblock (by simpa using hsignal)
    · rw [Driver.charStep] at h
      split at h
      · rename_i hcopied
        cases h
        exact .faults hcopied
      · rename_i hcopied
        cases h
        exact .copies (not_lt.mp hcopied)

/-- Each of the branches can be taken. -/
lemma CharStep.charStep_eq {call : CharCall} {pc : CharPc} (h : CharStep d t input call pc o d') :
    d.charStep t input call pc = some (o, d') := by
  cases h with
  | cold hdone hnonblock => simp [Driver.charStep, Driver.finish, hdone, hnonblock]
  | waits hdone hnonblock => simp [Driver.charStep, Driver.goto, hdone, hnonblock]
  | warm hdone => simp [Driver.charStep, Driver.goto, hdone]
  | interrupted hsignal => exact waitForCompletion_eq_some_iff.mpr (.inl ⟨hsignal, rfl⟩)
  | woken hsignal htoken =>
    exact waitForCompletion_eq_some_iff.mpr (.inr ⟨hsignal, htoken, rfl⟩)
  | failed hfail => simp [Driver.charStep, Driver.finish, hfail]
  | healthy hfail => simp [Driver.charStep, Driver.goto, hfail]
  | locks hmore hlocked =>
    rw [Driver.charStep, if_pos hmore]
    exact lock_eq_some_iff.mpr ⟨hlocked, rfl⟩
  | ends hmore => rw [Driver.charStep, if_neg (not_lt.mpr hmore), Driver.finish]
  | reads hread => exact Option.map_eq_some_iff.mpr ⟨_, hread, rfl⟩
  | unlocks | error => rfl
  | dry htotal => rw [Driver.charStep, if_pos htotal, Driver.finish]
  | again hnonblock => simp [Driver.charStep, Driver.finish, hnonblock]
  | signalled hnonblock hsignal => simp [Driver.charStep, Driver.finish, hnonblock, hsignal]
  | retries hnonblock hsignal => simp [Driver.charStep, Driver.goto, hnonblock, hsignal]
  | faults hcopied => rw [Driver.charStep, if_pos hcopied, Driver.finish]
  | copies hcopied => rw [Driver.charStep, if_neg (not_lt.mpr hcopied)]

lemma ioctlStep_cases {locked : Bool} (h : d.ioctlStep t locked = some (o, d')) :
    IoctlStep d t locked o d' := by
  cases locked with
  | false =>
    obtain ⟨hlocked, heq⟩ := lock_eq_some_iff.mp h
    cases heq
    exact .locks hlocked
  | true =>
    cases h
    exact .returns

lemma warmupStep_cases {scripts : ℕ → AttemptScript} {discard : ℕ → Byte}
    (h : d.warmupStep scripts discard = some (o, d')) :
    o = .silent ∧ WarmupStep d scripts discard d' := by
  rw [Driver.warmupStep] at h
  split at h
  · rename_i hw
    split at h
    · cases h
    · cases h
      exact ⟨rfl, .locks hw⟩
  · rename_i rounds hw
    split at h
    · rename_i hcond
      simp only [Bool.and_eq_true, Bool.not_eq_true', decide_eq_true_iff] at hcond
      rw [Option.map_eq_some_iff] at h
      obtain ⟨r, hread, heq⟩ := h
      cases heq
      exact ⟨rfl, .reads hw hcond.1.1 hcond.1.2 hread⟩
    · rename_i hcond
      cases h
      refine ⟨rfl, .stops hw ?_⟩
      rcases hok : infnoiseHealthOk d.dev.health with _ | _
      · rcases hpresent : d.dev.present with _ | _
        · exact .inr (.inr rfl)
        · simp only [hok, hpresent, Bool.not_false, Bool.true_and, Bool.and_true,
            decide_eq_true_iff, not_lt] at hcond
          exact .inr (.inl hcond)
      · exact .inl rfl
  · rename_i rounds hw
    split at h
    · rename_i hpresent
      cases h
      exact ⟨rfl, .gone hw (by simpa using hpresent)⟩
    · rename_i hpresent
      split at h
      · rename_i hrounds
        cases h
        exact ⟨rfl, .fails hw (by simpa using hpresent) hrounds⟩
      · rename_i hrounds
        cases h
        exact ⟨rfl, .succeeds hw (by simpa using hpresent) (not_le.mp hrounds)⟩
  · rename_i hw
    cases h
    exact ⟨rfl, .completes hw⟩
  · cases h

/-- Every step of the driver takes one of the branches. -/
lemma driverStep_cases {a : Action} (h : d.step a = some (o, d')) : DriverStep d a o d' := by
  cases a with
  | warmup scripts discard =>
    obtain ⟨rfl, hstep⟩ := warmupStep_cases h
    exact .warmup hstep
  | hwrngRead t max wait =>
    rw [Driver.step] at h
    split at h
    · rename_i hidle
      cases h
      exact .hwrngRead hidle
    · cases h
  | charRead t count nonblock =>
    rw [Driver.step] at h
    split at h
    · rename_i hidle
      cases h
      exact .charRead hidle
    · cases h
  | ioctlGet t =>
    rw [Driver.step] at h
    split at h
    · rename_i hidle
      cases h
      exact .ioctlGet hidle
    · cases h
  | ioctlSetRaw raw =>
    cases h
    exact .ioctlSetRaw
  | setParameters multiplier rawMode =>
    cases h
    exact .setParameters
  | step t input =>
    rw [Driver.step] at h
    split at h
    · cases h
    · rename_i call pc ht
      exact .hwrng ht (hwrngStep_cases h)
    · rename_i call pc ht
      exact .char ht (charStep_cases h)
    · rename_i locked ht
      exact .ioctl ht (ioctlStep_cases h)

lemma step_of_hwrngStep {call : HwrngCall} {pc : HwrngPc} (ht : d.tasks t = .hwrng call pc)
    (h : HwrngStep d t input call pc o d') : d.step (.step t input) = some (o, d') := by
  rw [Driver.step, ht]
  exact h.hwrngStep_eq

lemma step_of_charStep {call : CharCall} {pc : CharPc} (ht : d.tasks t = .char call pc)
    (h : CharStep d t input call pc o d') : d.step (.step t input) = some (o, d') := by
  rw [Driver.step, ht]
  exact h.charStep_eq

/-- A call of the hwrng core begins. -/
lemma step_hwrngRead (max : ℕ) (ht : d.tasks t = .idle) :
    d.step (.hwrngRead t max false) = some (.silent,
      d.setTask t (.hwrng ⟨max, false, d.infnoiseRawMode || d.rawMode⟩ .entered)) := by
  rw [Driver.step, ht]
  rfl

/-- A step of a call from where the step before it has left the call. -/
lemma step_setTask_hwrng (d d' : Driver) {call : HwrngCall} {pc : HwrngPc} {task : Task}
    (h : HwrngStep (d.setTask t (.hwrng call pc)) t input call pc o
      ((d'.setTask t (.hwrng call pc)).setTask t task)) :
    (d.setTask t (.hwrng call pc)).step (.step t input) = some (o, d'.setTask t task) := by
  rw [Driver.setTask_setTask] at h
  exact step_of_hwrngStep (Driver.setTask_tasks ..) h

end

end Kernel
