import Infnoise.Userspace.Pool

/-!
# Entropy credit

Every round hands `entropyThisTime` to the pool, whatever `readData` did: the entropy of a block
can be credited again while its bytes are squeezed, and when later samples are not used.
-/

namespace Userspace

open Core Core.Binary64 Reference

attribute [local irreducible] keccakPermutation keccakAbsorb keccakExtract

/-- The entropy a round hands to the pool. -/
def RoundRecord.credit (c : RoundRecord) : ℕ :=
  match c.output.poolWrite with
  | some w => w.entropyCount
  | none => 0

/-- The entropy of the block a round used, as `processBytes` left it. -/
def RoundRecord.entropyAccepted (c : RoundRecord) : ℕ :=
  if c.output.read.accepted then c.output.read.context.entropyThisTime else 0

/-- The round only squeezes bytes of an earlier block. -/
def RoundRecord.squeezes (c : RoundRecord) : Prop := c.before.context.keccakBytesGiven ≠ 0

/-- A round credits at most the block it used, and nothing when it returns no bytes or only
squeezes. -/
structure RoundRecord.CreditSound (c : RoundRecord) : Prop where
  credit_le : c.credit ≤ c.entropyAccepted
  nothing : c.output.read.rc = .ok 0 ∨ c.squeezes → c.credit = 0

/-- The credit of a run is covered by the blocks it used, and so is that of each of its rounds. -/
structure CreditSound (cs : List RoundRecord) : Prop where
  total : (cs.map RoundRecord.credit).sum ≤ (cs.map RoundRecord.entropyAccepted).sum
  once : ∀ c ∈ cs, c.output.read.accepted = true → c.credit ≤ c.entropyAccepted
  nothing : ∀ c ∈ cs, c.output.read.rc = .ok 0 ∨ c.squeezes → c.credit = 0

/-- No branch is taken in which an old or unused measurement is credited: nothing is pending from an
earlier block, samples come too late only when no measurement stands in the context, a block is
rejected only when nothing was measured in it, and a block that is used yields bytes. -/
structure RoundRecord.Fresh (opts : OptStruct) (c : RoundRecord) : Prop where
  not_squeezes : ¬ c.squeezes
  late : c.before.context.Sampled c.input.script → c.input.script.late →
    c.before.context.entropyThisTime = 0
  rejected : ∀ bytes context', c.before.context.Block c.input.script true bytes context' →
    context'.accepts = false → context'.entropyThisTime = 0
  accepted : ∀ bytes context', c.before.context.Block c.input.script true bytes context' →
    context'.accepts = true →
      opts.raw = true ∨ opts.outputMultiplier = 0 ∨ opts.outputMultiplier % 16777216 ≠ 0

/-! ### One round -/

/-- What holds of a context between the rounds: as long as bytes are pending, the entropy of their
block stands in the context. -/
structure Context.Pending (context : Context) : Prop where
  initialised : context.Initialised
  entropy_eq : context.keccakBytesGiven ≠ 0 → context.entropyThisTime = 437

lemma readStep_pending {c : ReadRecord}
    (hstep : readStep c.before c.input = some (c.output, c.after)) (h : c.before.Pending) :
    c.after.Pending := by
  refine ⟨readStep_initialised hstep h.initialised, fun hafter => ?_⟩
  obtain ⟨hread, heq⟩ := readStep_cases hstep
  rw [heq] at hafter ⊢
  by_cases hacc : c.output.accepted = true
  · exact hread.entropy_of_accepted h.initialised.started hacc
  · by_cases hgiven : c.before.keccakBytesGiven = 0
    · exact absurd (hread.given_of_unspent hgiven fun htrue => absurd htrue hacc) hafter
    · rw [hread.of_pending hgiven, Filled.toRead, squeezeChunk_context]
      exact h.entropy_eq hgiven

/-- With output on, a round credits what stands in the context when its call returns a count. -/
lemma credit_eq {opts : OptStruct} {c : RoundRecord}
    (h : mainStep opts c.before c.input = some (c.output, c.after))
    (hdev : opts.devRandom = true) :
    c.credit = if opts.noOutput then 0 else
      match c.output.read.rc with
      | .ok _ => c.output.read.context.entropyThisTime
      | .error _ => 0 := by
  rw [RoundRecord.credit]
  rcases hw : c.output.poolWrite with _ | w
  · split_ifs with hno
    · rfl
    · rcases hrc : c.output.read.rc with e | n
      · rfl
      · obtain ⟨w, hw', _⟩ := mainStep_poolWrite_of_ok h hdev (by simpa using hno) hrc
        rw [hw] at hw'
        cases hw'
  · obtain ⟨hno, hrc, _, hentropy⟩ := mainStep_poolWrite h hdev hw
    rw [hno, hrc]
    exact hentropy

/-- With output off nothing is credited. -/
lemma creditSound_of_noOutput {opts : OptStruct} {c : RoundRecord}
    (h : mainStep opts c.before c.input = some (c.output, c.after))
    (hdev : opts.devRandom = true) (hno : opts.noOutput = true) : c.CreditSound := by
  have hcredit := credit_eq h hdev
  rw [if_pos hno] at hcredit
  exact ⟨hcredit.le.trans (Nat.zero_le _), fun _ => hcredit⟩

/-- A round that receives a block is fresh when nothing that is not used was measured, and what is
used yields bytes. -/
lemma fresh_of_block {opts : OptStruct} {c : RoundRecord} {ok : Bool} {bytes : ℕ → Byte}
    {context' : Context} (hblock : c.before.context.Block c.input.script ok bytes context')
    (hrejected : ok = true → context'.accepts = false → context'.entropyThisTime = 0)
    (haccepted : ok = true → context'.accepts = true →
      opts.raw = true ∨ opts.outputMultiplier = 0 ∨ opts.outputMultiplier % 16777216 ≠ 0) :
    c.Fresh opts := by
  refine ⟨not_not.mpr hblock.given_eq, fun _ hlate => absurd hlate hblock.inTime, ?_, ?_⟩
  · intro bytes₁ context₁ hblock₁
    obtain ⟨rfl, _, rfl⟩ := hblock.unique hblock₁
    exact hrejected rfl
  · intro bytes₁ context₁ hblock₁
    obtain ⟨rfl, _, rfl⟩ := hblock.unique hblock₁
    exact haccepted rfl

/-- A block that is used yields no bytes only when the product with the multiplier wraps to zero. -/
lemma count_eq_zero_iff {context context' : Context} {script : UsbScript} {bytes : ℕ → Byte}
    {result : Option (ℕ → Byte)} {raw : Bool} {outputMultiplier : ℕ}
    (hblock : context.Block script true bytes context') (hgood : context'.accepts = true)
    (hstarted : context.health.Started) :
    (processBytes context' bytes result raw outputMultiplier).count = 0 ↔
      ¬ (raw = true ∨ outputMultiplier = 0 ∨ outputMultiplier % 16777216 ≠ 0) := by
  have hread : ReadStep context script result raw outputMultiplier _ := .accepted hblock hgood
  have hrc := hread.count_of_accepted hstarted rfl
  rw [Except.ok.inj hrc, bytesOfMultiplier_eq]
  split_ifs with hraw hm
  · simp [hraw]
  · simp [hm]
  · simp only [hraw, hm, Bool.false_eq_true, false_or]
    omega

/-- With output on, a round credits soundly exactly when it is fresh. -/
lemma creditSound_iff_fresh {opts : OptStruct} {c : RoundRecord}
    (h : mainStep opts c.before c.input = some (c.output, c.after))
    (hdev : opts.devRandom = true) (hno : opts.noOutput = false) (hctx : c.before.context.Pending) :
    c.CreditSound ↔ c.Fresh opts := by
  have hcredit := credit_eq h hdev
  obtain ⟨hread, _⟩ := readStep_cases (mainStep_cases h).1
  have hstarted := hctx.initialised.started
  obtain ⟨⟨context, pool, returned⟩, ⟨script, result, ok⟩, ⟨r, w⟩, p'⟩ := c
  simp only [RoundRecord.call] at hread
  dsimp only at hcredit hctx hstarted
  rw [hno, if_neg Bool.false_ne_true] at hcredit
  cases hread with
  | usbFailed hgiven husb =>
    refine ⟨fun _ => ⟨not_not.mpr hgiven, fun hsampled => absurd hsampled husb, ?_, ?_⟩, fun _ => ?_⟩
    · exact fun bytes context' hblock => absurd hblock.toSampled husb
    · exact fun bytes context' hblock => absurd hblock.toSampled husb
    · exact ⟨hcredit.le.trans (Nat.zero_le _), fun _ => hcredit⟩
  | late hsampled hlate =>
    constructor
    · intro hsound
      refine ⟨not_not.mpr hsampled.given_eq, fun _ _ => ?_, ?_, ?_⟩
      · exact hcredit.symm.trans (hsound.nothing (.inl rfl))
      · exact fun bytes context' hblock => absurd hlate hblock.inTime
      · exact fun bytes context' hblock => absurd hlate hblock.inTime
    · intro hfresh
      have hzero := hcredit.trans (hfresh.late hsampled hlate)
      exact ⟨hzero.le.trans (Nat.zero_le _), fun _ => hzero⟩
  | unhealthy hblock =>
    constructor
    · exact fun _ => fresh_of_block hblock (fun hok => by cases hok) fun hok => by cases hok
    · exact fun _ => ⟨hcredit.le.trans (Nat.zero_le _), fun _ => hcredit⟩
  | @rejected bytes context' hblock hbad =>
    constructor
    · intro hsound
      refine fresh_of_block hblock (fun _ _ => ?_) fun _ hgood => ?_
      · exact hcredit.symm.trans (hsound.nothing (.inl rfl))
      · rw [hbad] at hgood
        cases hgood
    · intro hfresh
      have hzero := hcredit.trans (hfresh.rejected _ _ hblock hbad)
      exact ⟨hzero.le.trans (Nat.zero_le _), fun _ => hzero⟩
  | @accepted bytes context' hblock hgood =>
    have hread : ReadStep context script (some result) opts.raw opts.outputMultiplier _ :=
      .accepted hblock hgood
    have hentropy := hread.entropy_of_accepted hstarted rfl
    have hzero : (processBytes context' bytes (some result) opts.raw
        opts.outputMultiplier).count = 0 ↔ _ := count_eq_zero_iff hblock hgood hstarted
    constructor
    · intro hsound
      refine fresh_of_block hblock (fun _ hbad => ?_) fun _ _ => ?_
      · rw [hgood] at hbad
        cases hbad
      · by_contra hcon
        have hcredit0 := hsound.nothing (.inl (congrArg Except.ok (hzero.mpr hcon)))
        rw [hcredit0] at hcredit
        exact absurd (hcredit.trans hentropy) (by norm_num)
    · intro hfresh
      refine ⟨hcredit.le, ?_⟩
      rintro (hnone | hsqueezes)
      · exact absurd (hfresh.accepted _ _ hblock hgood) (hzero.mp (Except.ok.inj hnone))
      · exact absurd hblock.given_eq hsqueezes
  | chunk hgiven =>
    have hpos := Nat.ne_of_gt hgiven
    constructor
    · intro hsound
      have hcredit0 := hsound.nothing (.inr hpos)
      rw [hcredit0, Filled.toRead, squeezeChunk_context] at hcredit
      exact absurd (hcredit.trans (hctx.entropy_eq hpos)) (by norm_num)
    · exact fun hfresh => absurd hpos hfresh.not_squeezes

/-! ### Runs -/

/-- A run credits soundly exactly when its rounds do. -/
lemma creditSound_iff (cs : List RoundRecord)
    (hnone : ∀ c ∈ cs, c.output.read.accepted = false →
      c.credit = 0 ∨ c.output.read.rc = .ok 0 ∨ c.squeezes) :
    CreditSound cs ↔ ∀ c ∈ cs, c.CreditSound := by
  constructor
  · intro h c hc
    refine ⟨?_, h.nothing c hc⟩
    by_cases hacc : c.output.read.accepted = true
    · exact h.once c hc hacc
    · have hzero : c.credit = 0 := by
        rcases hnone c hc (by simpa using hacc) with hzero | hcase
        · exact hzero
        · exact h.nothing c hc hcase
      exact hzero.le.trans (Nat.zero_le _)
  · intro h
    exact ⟨List.sum_le_sum fun c hc => (h c hc).credit_le, fun c hc _ => (h c hc).credit_le,
      fun c hc => (h c hc).nothing⟩

/-- A round that uses no block fails, returns nothing or only squeezes. -/
lemma credit_of_not_accepted {opts : OptStruct} {c : RoundRecord}
    (h : mainStep opts c.before c.input = some (c.output, c.after))
    (hdev : opts.devRandom = true) (hacc : c.output.read.accepted = false) :
    c.credit = 0 ∨ c.output.read.rc = .ok 0 ∨ c.squeezes := by
  have hcredit := credit_eq h hdev
  obtain ⟨hread, _⟩ := readStep_cases (mainStep_cases h).1
  rcases hrc : c.output.read.rc with e | n
  · rw [hrc] at hcredit
    dsimp only at hcredit
    rw [ite_self] at hcredit
    exact .inl hcredit
  · have hle := hread.count_of_not_accepted hacc hrc
    by_cases hgiven : c.before.context.keccakBytesGiven = 0
    · simp only [RoundRecord.call, hgiven, Nat.le_zero] at hle
      exact .inr (.inl (congrArg Except.ok hle))
    · exact .inr (.inr hgiven)

/-- In every run of the main loop with `--dev-random`, from every command line that is accepted: the
credit is sound exactly when output is off or every round is fresh. -/
theorem creditSound_iff_forall_fresh {log : Float → Float} (hlog : LogAccurate log)
    {env : Environment} {options : List CommandOption} {context : Context} {script : InitScript}
    {fuel : ℕ} {opts : OptStruct} {p p' : Process} {cs : List RoundRecord}
    (hstart : startMain log env options context script fuel = some (opts, p))
    (hdev : opts.devRandom = true) (h : Run (mainStep opts) p cs p') :
    CreditSound cs ↔ opts.noOutput = true ∨ ∀ c ∈ cs, c.Fresh opts := by
  obtain ⟨hinit, hgiven, _⟩ := startMain_cases hlog hstart
  have hinv := ((mainStep_refines h).invariant_of (I := Context.Pending) (P := fun _ => True)
    (fun c hstep _ hI => readStep_pending hstep hI) (fun _ _ => trivial)
    ⟨hinit, fun hpos => absurd hgiven hpos⟩).1
  rw [creditSound_iff cs fun c hc => credit_of_not_accepted (h.step_of_mem hc) hdev]
  by_cases hno : opts.noOutput = true
  · simp only [hno, true_or, iff_true]
    exact fun c hc => creditSound_of_noOutput (h.step_of_mem hc) hdev hno
  · have hiff : ∀ c ∈ cs, c.CreditSound ↔ c.Fresh opts := fun c hc =>
      creditSound_iff_fresh (h.step_of_mem hc) hdev (by simpa using hno)
        (hinv _ (List.mem_map_of_mem hc)).1
    rw [or_iff_right hno]
    exact forall₂_congr hiff

/-- A round that uses a block, and yields bytes of it, is fresh. -/
lemma fresh_of_accepted {opts : OptStruct} {c : RoundRecord}
    (h : mainStep opts c.before c.input = some (c.output, c.after))
    (hacc : c.output.read.accepted = true)
    (hopts : opts.raw = true ∨ opts.outputMultiplier = 0 ∨ opts.outputMultiplier % 16777216 ≠ 0) :
    c.Fresh opts := by
  obtain ⟨hread, _⟩ := readStep_cases (mainStep_cases h).1
  rcases hread.idle_or with ⟨_, hnot, _⟩ | ⟨bytes, context', hblock, hgood, _⟩ | ⟨_, hchunk⟩
  · rw [hnot] at hacc
    cases hacc
  · refine fresh_of_block hblock (fun _ hbad => ?_) fun _ _ => hopts
    rw [hgood] at hbad
    cases hbad
  · rw [hchunk] at hacc
    cases hacc

/-- A round on a device that was unplugged is fresh, and credits nothing. -/
lemma exists_unplugged_round {m : ℕ} {p : Process} (hreturned : p.returned = false)
    (hgiven : p.context.keccakBytesGiven = 0) :
    ∃ (p' : Process) (c : RoundRecord), Run (mainStep (devRandomOpts m)) p [c] p' ∧ c.credit = 0 ∧
      c.Fresh (devRandomOpts m) := by
  let round : Round := ⟨unplugged, fun _ => 0, true⟩
  let read : ReadResult := nothingRead (.error .usbWrite) (some round.result)
    { p.context with message := "USB write failed" } none
  have hread : readData p.context unplugged (some round.result) (devRandomOpts m).raw
      (devRandomOpts m).outputMultiplier = some read := by
    rw [readData, if_pos hgiven, if_pos (by decide)]
  have hstep : mainStep (devRandomOpts m) p round =
      some (⟨read, none⟩, { p with context := read.context, returned := true }) := by
    rw [mainStep, if_neg (by simp [hreturned]), hread]
    rfl
  have hnever : ¬ p.context.Sampled unplugged := fun h => absurd h.write_eq (by decide)
  refine ⟨_, ⟨p, round, _, _⟩, .single hstep, rfl, not_not.mpr hgiven, ?_, ?_, ?_⟩
  · exact fun hsampled => absurd hsampled hnever
  · exact fun bytes context' hblock => absurd hblock.toSampled hnever
  · exact fun bytes context' hblock => absurd hblock.toSampled hnever

/-- With `--dev-random` alone the first round credits the 437 bits of its block. Then the device is
unplugged. -/
theorem creditSound_default : ∃ (p p' : Process) (c d : RoundRecord),
    startMain tableLog noEnvironment [.devRandom] blankContext registerScript 371 =
      some (devRandomOpts 2, p) ∧
    Run (mainStep (devRandomOpts 2)) p [c, d] p' ∧ c.credit = 437 ∧ d.credit = 0 ∧
    CreditSound [c, d] := by
  obtain ⟨p, p₁, c, w, hstart, hrun₁, hreturned, hacc, hw, _, _, hcount, _, hgiven⟩ :=
    exists_first_round configure_devRandom (by norm_num)
  obtain ⟨p', d, hrun₂, hcredit', hfresh'⟩ := exists_unplugged_round (m := 2) hreturned hgiven
  have hcredit : c.credit = 437 := by
    rw [RoundRecord.credit, hw]
    exact hcount
  have hfresh : c.Fresh (devRandomOpts 2) := fresh_of_accepted
    (hrun₁.step_of_mem List.mem_cons_self) hacc (.inr (.inr (by decide)))
  have hrun := hrun₁.append hrun₂
  refine ⟨p, p', c, d, hstart, hrun, hcredit, hcredit', ?_⟩
  refine (creditSound_iff_forall_fresh tableLog_accurate hstart rfl hrun).mpr (.inr ?_)
  exact List.forall_mem_cons.mpr ⟨hfresh, List.forall_mem_singleton.mpr hfresh'⟩

/-- A second round whose samples come too late returns nothing, and credits the block again. -/
theorem credited_twice : ∃ (p p' : Process) (c d : RoundRecord),
    startMain tableLog noEnvironment [.devRandom] blankContext registerScript 371 =
      some (devRandomOpts 2, p) ∧
    Run (mainStep (devRandomOpts 2)) p [c, d] p' ∧ d.output.read.rc = .ok 0 ∧ d.credit = 437 ∧
    ¬ CreditSound [c, d] := by
  obtain ⟨p, p₁, c, _, hstart, hrun₁, hreturned, _, _, _, _, _, hentropy, hgiven⟩ :=
    exists_first_round configure_devRandom (by norm_num)
  obtain ⟨p', d, w, hrun₂, hrc, hw, _, hcount⟩ := exists_late_round (m := 2) hreturned hgiven
  have hcredit : d.credit = 437 := by
    rw [RoundRecord.credit, hw]
    exact hcount.trans hentropy
  refine ⟨p, p', c, d, hstart, hrun₁.append hrun₂, hrc, hcredit, fun hsound => ?_⟩
  have hnothing := hsound.nothing d (List.mem_cons_of_mem _ List.mem_cons_self) (.inl hrc)
  omega

end Userspace
