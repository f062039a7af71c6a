import Infnoise.Kernel.Tasks
import Infnoise.Kernel.Warmup

/-!
# How the warm-up work ends

The loop of `infnoise_warmup_work` stops when the health check holds, after 5000 rounds, or when the
device is gone. The verdict is taken from the number of rounds, and the flag of a failed health
check may have been set by a round before.
-/

namespace Kernel

open Core

/-! ### Rounds -/

/-- The rounds that the work has made, until its verdict. -/
def WarmupPc.rounds : WarmupPc → ℕ
  | .running rounds | .checking rounds => rounds
  | _ => 0

/-- A round of the loop: the work reads from the device. -/
def DriverRecord.isRound (c : DriverRecord) : Bool :=
  match c.input, c.after.warmup with
  | .warmup _ _, .running (_ + 1) => true
  | _, _ => false

/-- A bit fails its health check in this step, for the first time. -/
def DriverRecord.setsFail (c : DriverRecord) : Bool :=
  !c.before.dev.healthFail && c.after.dev.healthFail

/-- The work leaves its loop. -/
def DriverRecord.IsExit (c : DriverRecord) : Prop :=
  ∃ rounds, c.before.warmup = .running rounds ∧ c.after.warmup = .checking rounds

/-- The work takes its verdict on a device that is present. -/
def DriverRecord.IsVerdict (c : DriverRecord) : Prop :=
  ∃ rounds scripts discard, c.before.warmup = .checking rounds ∧ c.before.dev.present = true ∧
    c.input = .warmup scripts discard

/-- The rounds of a run. -/
def roundsOf (cs : List DriverRecord) : ℕ := cs.countP DriverRecord.isRound

/-- Whether a bit failed in a round of a run. -/
def failsRound (cs : List DriverRecord) : Bool := cs.any fun c => c.isRound && c.setsFail

/-! ### One step -/

/-- A round is a step of the warm-up work. -/
lemma isRound_eq_false {c : DriverRecord}
    (h : ∀ scripts discard, c.input ≠ .warmup scripts discard) : c.isRound = false := by
  rw [DriverRecord.isRound]
  split
  · rename_i hinput _
    exact absurd hinput (h _ _)
  · rfl

/-- Before the verdict, what is not a round leaves the device and the count of the rounds alone. -/
lemma step_round {c : DriverRecord} (h : c.before.step c.input = some (c.output, c.after))
    (hd : c.before.Early) (hafter : c.after.warmup.early = true) :
    c.before.warmup.early = true ∧
      c.after.warmup.rounds = c.before.warmup.rounds + c.isRound.toNat ∧
      (c.isRound = false → c.after.dev = c.before.dev) := by
  rcases step_cases h with ⟨scripts, discard, hinput, hstep⟩ | ⟨hinput, hwarmup, hdev⟩
  · obtain ⟨d, a, o, d'⟩ := c
    dsimp only at hinput hstep hafter ⊢
    subst hinput
    cases hstep with
    | locks hw | stops hw _ => exact ⟨hw ▸ rfl, by rw [hw]; rfl, fun _ => rfl⟩
    | reads hw _ _ _ => exact ⟨hw ▸ rfl, by rw [hw]; rfl, fun hround => (by cases hround)⟩
    | gone | fails | succeeds | completes => cases hafter
  · have hbefore := hwarmup ▸ hafter
    rw [isRound_eq_false hinput, hwarmup]
    refine ⟨hbefore, rfl, fun _ => hdev.resolve_right ?_⟩
    rintro ⟨t, hpast⟩
    rw [Task.pastTest_of_beforeTest ((hd hbefore).2.2 t)] at hpast
    cases hpast

/-! ### A run up to the verdict -/

/-- Along a run that has not reached the verdict the rounds are counted, the flag tells whether one
of them failed, and without one the device is as it was. -/
lemma run_rounds {d d' : Driver} {cs : List DriverRecord} (h : Run Driver.step d cs d')
    (hd : d.Early) (hearly : d'.warmup.early = true) :
    d.warmup.early = true ∧ d'.warmup.rounds = d.warmup.rounds + roundsOf cs ∧
      d'.dev.healthFail = (d.dev.healthFail || failsRound cs) ∧
      (roundsOf cs = 0 → d'.dev = d.dev) := by
  induction h with
  | nil d => exact ⟨hearly, rfl, (Bool.or_false _).symm, fun _ => rfl⟩
  | @cons d d₁ d' a o cs hstep hrun ih =>
    obtain ⟨hearly₁, hrounds₁, hfail₁, hdev₁⟩ := ih (step_early hstep hd) hearly
    obtain ⟨hearly₀, hrounds₀, hdev₀⟩ := step_round (c := ⟨d, a, o, d₁⟩) hstep hd hearly₁
    have hcount : roundsOf (⟨d, a, o, d₁⟩ :: cs) =
        roundsOf cs + (DriverRecord.isRound ⟨d, a, o, d₁⟩).toNat := by
      rw [roundsOf, List.countP_cons, roundsOf]
      cases DriverRecord.isRound ⟨d, a, o, d₁⟩ <;> rfl
    have hmono := fun hfail => step_healthFail hstep hfail
    refine ⟨hearly₀, ?_, ?_, ?_⟩
    · dsimp only at hrounds₀
      omega
    · have hany : failsRound (⟨d, a, o, d₁⟩ :: cs) =
          ((DriverRecord.isRound ⟨d, a, o, d₁⟩ && DriverRecord.setsFail ⟨d, a, o, d₁⟩) ||
            failsRound cs) := rfl
      rw [hfail₁, hany, ← Bool.or_assoc]
      congr 1
      cases hround : DriverRecord.isRound ⟨d, a, o, d₁⟩
      · rw [hdev₀ hround, Bool.false_and, Bool.or_false]
      · rw [Bool.true_and, DriverRecord.setsFail]
        dsimp only
        cases hbefore : d.dev.healthFail
        · rfl
        · exact hmono hbefore
    · intro hzero
      rw [hcount] at hzero
      have hround : DriverRecord.isRound ⟨d, a, o, d₁⟩ = false := by
        cases hround : DriverRecord.isRound ⟨d, a, o, d₁⟩
        · rfl
        · rw [hround, Bool.toNat_true] at hzero
          omega
      exact (hdev₁ (by omega)).trans (hdev₀ hround)

/-- Between its loop and its verdict the work makes no step. -/
lemma step_checking {c : DriverRecord} {rounds : ℕ}
    (h : c.before.step c.input = some (c.output, c.after))
    (hbefore : c.before.warmup = .checking rounds) (hafter : c.after.warmup.early = true) :
    c.after.warmup = .checking rounds ∧ c.isRound = false := by
  rcases step_cases h with ⟨scripts, discard, _, hstep⟩ | ⟨hinput, hwarmup, _⟩
  · obtain ⟨d, a, o, d'⟩ := c
    dsimp only at hstep hbefore hafter
    cases hstep with
    | locks hw | reads hw _ _ _ | stops hw _ | completes hw =>
      rw [hbefore] at hw
      cases hw
    | gone | fails | succeeds => cases hafter
  · exact ⟨hwarmup.trans hbefore, isRound_eq_false hinput⟩

lemma run_checking {d d' : Driver} {cs : List DriverRecord} {rounds : ℕ}
    (h : Run Driver.step d cs d') (hd : d.Early) (hchecking : d.warmup = .checking rounds)
    (hearly : d'.warmup.early = true) : d'.warmup = .checking rounds ∧ d'.dev = d.dev := by
  induction h with
  | nil d => exact ⟨hchecking, rfl⟩
  | @cons d d₁ d' a o cs hstep hrun ih =>
    have hd₁ := step_early hstep hd
    have hearly₁ := (run_rounds hrun hd₁ hearly).1
    obtain ⟨hchecking₁, hround⟩ := step_checking (c := ⟨d, a, o, d₁⟩) hstep hchecking hearly₁
    obtain ⟨hend, hdev⟩ := ih hd₁ hchecking₁ hearly
    exact ⟨hend, hdev.trans ((step_round (c := ⟨d, a, o, d₁⟩) hstep hd hearly₁).2.2 hround)⟩

/-! ### The verdict -/

/-- Why the work leaves its loop. -/
lemma exit_stops {c : DriverRecord} {rounds : ℕ}
    (h : c.before.step c.input = some (c.output, c.after))
    (hbefore : c.before.warmup = .running rounds) (hafter : c.after.warmup = .checking rounds) :
    infnoiseHealthOk c.before.dev.health = true ∨ infnoiseWarmupRounds ≤ rounds ∨
      c.before.dev.present = false := by
  rcases step_cases h with ⟨scripts, discard, _, hstep⟩ | ⟨_, hwarmup, _⟩
  · obtain ⟨d, a, o, d'⟩ := c
    dsimp only at hstep hbefore hafter ⊢
    cases hstep with
    | stops hw hstop =>
      rw [hbefore] at hw
      cases hw
      exact hstop
    | locks | reads | gone | fails | succeeds | completes => cases hafter
  · rw [hbefore, hafter] at hwarmup
    cases hwarmup

/-- What the verdict does to the flags. -/
lemma verdict_flags {c : DriverRecord} {rounds : ℕ} {scripts : ℕ → AttemptScript}
    {discard : ℕ → Byte} (h : c.before.step c.input = some (c.output, c.after))
    (hbefore : c.before.warmup = .checking rounds) (hpresent : c.before.dev.present = true)
    (hinput : c.input = .warmup scripts discard) :
    if infnoiseWarmupRounds ≤ rounds then
      c.after.warmupDone = c.before.warmupDone ∧ c.after.dev.healthFail = true
    else c.after.warmupDone = true ∧ c.after.dev.healthFail = c.before.dev.healthFail := by
  obtain ⟨d, a, o, d'⟩ := c
  dsimp only at h hbefore hpresent hinput ⊢
  subst hinput
  cases (warmupStep_cases h).2 with
  | locks hw | reads hw _ _ _ | stops hw _ | completes hw =>
    rw [hbefore] at hw
    cases hw
  | gone hw hgone =>
    rw [hpresent] at hgone
    cases hgone
  | fails hw _ hrounds =>
    rw [hbefore] at hw
    cases hw
    rw [if_pos hrounds]
    exact ⟨rfl, rfl⟩
  | succeeds hw _ hrounds =>
    rw [hbefore] at hw
    cases hw
    rw [if_neg (not_le.mpr hrounds)]
    exact ⟨rfl, rfl⟩

/-- A warm-up that ends well: whenever the health check holds as the loop is left, after the steps
`cs`, there were fewer than 5000 rounds and no bit failed in any of them. -/
def EndsWell (cs : List DriverRecord) (ok : Bool) : Prop :=
  ok = true → roundsOf cs < infnoiseWarmupRounds ∧ failsRound cs = false

/-- In every run, whatever the order of the steps: when the work leaves its loop and takes its
verdict, the two flags tell whether the health check held at that point exactly when a warm-up in
which it held had fewer than 5000 rounds, none of which failed. -/
theorem warmup_verdict_iff {clockBuf usbBuf readBuf outBuf : ℕ → Byte} {multiplier : ℕ}
    {rawMode : Bool} {d : Driver} {pre mid post : List DriverRecord} {e c : DriverRecord}
    (hrun : Run Driver.step (infnoiseProbe clockBuf usbBuf readBuf outBuf multiplier rawMode)
      (pre ++ e :: mid ++ c :: post) d)
    (hexit : e.IsExit) (hverdict : c.IsVerdict) :
    (c.after.warmupDone = infnoiseHealthOk e.after.dev.health ∧
        c.after.dev.healthFail = !infnoiseHealthOk e.after.dev.health) ↔
      EndsWell pre (infnoiseHealthOk e.after.dev.health) := by
  obtain ⟨exitRounds, hrunning, hleft⟩ := hexit
  obtain ⟨rounds, scripts, discard, hchecking, hpresent, hinput⟩ := hverdict
  rw [List.append_assoc] at hrun
  obtain ⟨d₁, hpre, hrest⟩ := Run.append_iff.mp hrun
  obtain ⟨rfl, hexit, hrest⟩ := Run.cons_iff.mp hrest
  obtain ⟨d₂, hmid, hrest⟩ := Run.append_iff.mp hrest
  obtain ⟨rfl, hverdict, -⟩ := Run.cons_iff.mp hrest
  have hstep : ∀ s i o s', Driver.step s i = some (o, s') → s.Early → s'.Early :=
    fun _ _ _ _ h hs => step_early h hs
  have hearly₁ := (hpre.invariant hstep (infnoiseProbe_early _ _ _ _ _ _)).2
  have hearly₂ := step_early hexit hearly₁
  have hearly₃ := (hmid.invariant hstep hearly₂).2
  -- the rounds and the flag at the loop exit, the same as at the verdict
  obtain ⟨_, hrounds, hfail, _⟩ := run_rounds hpre (infnoiseProbe_early _ _ _ _ _ _)
    (by rw [hrunning]; rfl)
  have hround : e.isRound = false := by
    rw [DriverRecord.isRound, hleft]
    split
    · rename_i heq
      cases heq
    · rfl
  have hdev := (step_round hexit hearly₁ (by rw [hleft]; rfl)).2.2 hround
  obtain ⟨hwarmup, hdev'⟩ := run_checking hmid hearly₂ hleft (by rw [hchecking]; rfl)
  have hdone := (hearly₃ (by rw [hchecking]; rfl)).1
  rw [hrunning] at hrounds
  rw [hwarmup] at hchecking
  cases hchecking
  change exitRounds = 0 + roundsOf pre at hrounds
  rw [Nat.zero_add] at hrounds
  rw [show (infnoiseProbe clockBuf usbBuf readBuf outBuf multiplier rawMode).dev.healthFail = false
    from rfl, Bool.false_or, ← hdev, ← hdev'] at hfail
  have hflags := verdict_flags hverdict hwarmup hpresent hinput
  rw [hrounds, hdone, hfail] at hflags
  rw [EndsWell]
  split at hflags
  · rename_i hmany
    rw [hflags.1, hflags.2]
    cases infnoiseHealthOk e.after.dev.health
    · exact ⟨fun _ hfalse => (by cases hfalse), fun _ => ⟨rfl, rfl⟩⟩
    · exact ⟨fun hflag => (by cases hflag.1), fun hgood => absurd (hgood rfl).1 (not_lt.mpr hmany)⟩
  · rename_i hfew
    rw [hflags.1, hflags.2]
    cases hok : infnoiseHealthOk e.after.dev.health
    · -- the loop was left after fewer than 5000 rounds with the device present, so the check held
      rcases exit_stops hexit hrunning hleft with hok' | hmany | hgone
      · rw [← hdev, hok] at hok'
        cases hok'
      · exact absurd (hrounds ▸ hmany) hfew
      · rw [hdev', hdev, hgone] at hpresent
        cases hpresent
    · exact ⟨fun hflag _ => ⟨not_le.mp hfew, hflag.2⟩, fun hgood => ⟨rfl, (hgood rfl).2⟩⟩

/-! ### A warm-up that ends in both flags the wrong way round -/

/-- A transfer for which `usb_bulk_msg` finds no memory. -/
def unsentScript : AttemptScript where
  write := .error (.other 12)
  reads := []
  recovery := ⟨fun _ => none, none, fun _ => none⟩

lemma infnoiseReadData_unsent {dev : Device} (h : dev.present = true) (multiplier : ℕ)
    (discard : ℕ → Byte) : infnoiseReadData dev multiplier (fun _ => unsentScript) discard 64 true =
      some ⟨.error (.other 12), discard, { dev with
        usbErrors := u32 (dev.usbErrors + 1)
        consecutiveErrors := u32 (dev.consecutiveErrors + 1) }, []⟩ := by
  simp [infnoiseReadData, h, infnoiseUsbTransfer, transferLoop, infnoiseUsbTransferOnce,
    receiveSamples, unsentScript, afterAttempt, infnoiseIsRecoverableError]

/-- Rounds that get no block leave the health checker as it is. -/
lemma exists_unsent_rounds {d : Driver} {j n : ℕ} (hd : d.warmup = .running j)
    (hwarming : d.dev.Warming j) (hnot : infnoiseHealthOk d.dev.health = false)
    (hn : j + n ≤ 5000) : ∃ dev : Device, dev.Warming j ∧ dev.health = d.dev.health ∧
      ∃ cs, WarmupRun d cs { d with dev, warmup := .running (j + n) } := by
  induction n with
  | zero =>
    refine ⟨d.dev, hwarming, rfl, [], ?_, by simp⟩
    rw [Nat.add_zero, ← hd]
    exact .nil d
  | succ n ih =>
    obtain ⟨dev, hdev, hhealth, cs, hcs⟩ := ih (by omega)
    have hrounds : j + n < 5000 := by omega
    obtain ⟨cs', hcs', _⟩ := hcs.tail (warmupStep_reads rfl (hhealth ▸ hnot) hrounds hdev.present
      (infnoiseReadData_unsent hdev.present _ fun _ => 0))
    refine ⟨_, ?_, ?_, cs', hcs'⟩
    · exact ⟨hdev.fed, hdev.low, hdev.present, hdev.healthFail, hdev.keccakBytesLeft⟩
    · exact hhealth

/-- A loop that the health check ends after `rounds` rounds. -/
lemma exists_verdict {d : Driver} {rounds : ℕ} (hd : d.warmup = .running rounds)
    (hpresent : d.dev.present = true) (hok : infnoiseHealthOk d.dev.health = true) :
    ∃ (d' : Driver) (e c : DriverRecord), Run Driver.step d [e, c] d' ∧ e.IsExit ∧ c.IsVerdict ∧
      infnoiseHealthOk e.after.dev.health = true ∧
      if infnoiseWarmupRounds ≤ rounds then
        c.after.warmupDone = d.warmupDone ∧ c.after.dev.healthFail = true
      else c.after.warmupDone = true ∧ c.after.dev.healthFail = d.dev.healthFail := by
  have hleave : d.step (.warmup (fun _ => unsentScript) fun _ => 0) =
      some (.silent, { d with locked := false, warmup := .checking rounds }) :=
    warmupStep_leaves hd hok _ _
  obtain ⟨⟨o, d'⟩, hr⟩ : ∃ r, ({ d with locked := false, warmup := .checking rounds } : Driver).step
      (.warmup (fun _ => unsentScript) fun _ => 0) = some r := by
    simp only [Driver.step, Driver.warmupStep, hpresent]
    split
    · exact ⟨_, rfl⟩
    · split <;> exact ⟨_, rfl⟩
  refine ⟨d', ⟨d, _, _, _⟩, ⟨_, _, o, d'⟩, .cons hleave (.single hr), ⟨rounds, hd, rfl⟩,
    ⟨rounds, _, _, rfl, hpresent, rfl⟩, hok, ?_⟩
  exact verdict_flags (c := ⟨_, _, o, d'⟩) hr rfl hpresent rfl

theorem warmup_verdict_healthy : ∃ (d : Driver) (pre : List DriverRecord) (e c : DriverRecord),
    Run Driver.step probed (pre ++ e :: [] ++ c :: []) d ∧ e.IsExit ∧ c.IsVerdict ∧
      infnoiseHealthOk e.after.dev.health = true ∧
      EndsWell pre (infnoiseHealthOk e.after.dev.health) := by
  obtain ⟨j, hj, dev, hdev, hnot, hlast, cs, hcs, _⟩ := exists_last_block probed rfl rfl
    (infnoiseProbe_warming _ _ _ _ _ _)
  obtain ⟨r, hread, hnext, hhealth⟩ := hdev.next (by omega) hnot 1 fun _ => 0
  rw [← hhealth] at hlast
  obtain ⟨cs, hcs, _⟩ := hcs.tail (warmupStep_reads rfl hnot (by omega) hdev.present hread)
  obtain ⟨d, e, c, hrun, hexit, hverdict, hok, hflags⟩ := exists_verdict
    (d := { probed with dev := r.dev, locked := true, warmup := .running (j + 1) })
    rfl hnext.present hlast
  have hrun' : Run Driver.step probed (cs ++ e :: [] ++ c :: []) d := by
    simpa using hcs.1.append hrun
  refine ⟨d, cs, e, c, hrun', hexit, hverdict, hok, ?_⟩
  rw [if_neg (by simp only [infnoiseWarmupRounds]; omega)] at hflags
  refine (warmup_verdict_iff hrun' hexit hverdict).mp ?_
  rw [hok, hflags.1, hflags.2]
  exact ⟨rfl, hnext.healthFail⟩

/-- The health check holds from the last of 5000 rounds on, most of which got no block. -/
theorem warmup_verdict_inverted : ∃ (d : Driver) (pre : List DriverRecord) (e c : DriverRecord),
    Run Driver.step probed (pre ++ e :: [] ++ c :: []) d ∧ e.IsExit ∧ c.IsVerdict ∧
      infnoiseHealthOk e.after.dev.health = true ∧ c.after.warmupDone = false ∧
      c.after.dev.healthFail = true := by
  obtain ⟨j, hj, dev, hdev, hnot, hlast, cs, hcs, _⟩ := exists_last_block probed rfl rfl
    (infnoiseProbe_warming _ _ _ _ _ _)
  obtain ⟨dev', hdev', hsame, cs', hcs'⟩ := exists_unsent_rounds (n := 4999 - j)
    (d := { probed with dev, locked := true, warmup := .running j }) rfl hdev hnot (by omega)
  rw [show j + (4999 - j) = 4999 by omega] at hcs'
  change dev'.health = dev.health at hsame
  rw [← hsame] at hnot hlast
  obtain ⟨r, hread, hnext, hhealth⟩ := hdev'.next (by omega) hnot 1 fun _ => 0
  rw [← hhealth] at hlast
  obtain ⟨cs'', hcs'', _⟩ := hcs'.tail (warmupStep_reads rfl hnot (by omega) hdev'.present hread)
  obtain ⟨d, e, c, hrun, hexit, hverdict, hok, hflags⟩ := exists_verdict
    (d := { probed with dev := r.dev, locked := true, warmup := .running (4999 + 1) })
    rfl hnext.present hlast
  have hrun' : Run Driver.step probed (cs ++ cs'' ++ e :: [] ++ c :: []) d := by
    simpa using (hcs.1.append hcs''.1).append hrun
  rw [if_pos (by simp only [infnoiseWarmupRounds]; omega)] at hflags
  exact ⟨d, cs ++ cs'', e, c, hrun', hexit, hverdict, hok, hflags.1, hflags.2⟩

end Kernel
