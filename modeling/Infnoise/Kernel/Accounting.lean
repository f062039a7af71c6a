import Infnoise.Core.Budget
import Infnoise.Kernel.ReadData
import Infnoise.Kernel.Warmup

/-!
# Sponge accounting of the kernel driver

The calls of `infnoise_read_data` on a device, by any readers in any order, refine a budget: a
whitened call that absorbs a block funds it, the bytes squeezed are drawn from it, and raw calls
leave it alone.
-/

namespace Kernel

open Core

attribute [local irreducible] infnoiseKeccakPermutation infnoiseKeccakAbsorb

/-- The arguments of a call, and what the device and the module parameter are meanwhile. -/
structure ReadCall where
  multiplier : ℕ
  scripts : ℕ → AttemptScript
  result : ℕ → Byte
  maxLen : ℕ
  raw : Bool

/-- A call of `infnoise_read_data` by the reader that holds the lock. -/
def readStep (dev : Device) (call : ReadCall) : Option (ReadResult × Device) :=
  (infnoiseReadData dev call.multiplier call.scripts call.result call.maxLen call.raw).map
    fun r => (r, r.dev)

/-- A call in a run of calls. -/
abbrev ReadRecord := Call Device ReadCall ReadResult

namespace ReadRecord

/-- The call absorbed a block. -/
def absorbs (c : ReadRecord) : Bool :=
  c.output.ops.any fun
    | .absorb _ => true
    | _ => false

/-- The bytes the call returned. -/
def bytesReturned (c : ReadRecord) : ℕ :=
  match c.output.ret with
  | .ok n => n
  | .error _ => 0

/-- The whitened bytes the call delivered. -/
def whitenedBytes (c : ReadRecord) : ℕ := if c.input.raw then 0 else c.bytesReturned

/-- The budget a call that absorbs has to fix: 32 bytes for each unit of the multiplier, up to
ten units, or the bytes of the entropy that was measured in the block. -/
def blockBudget (c : ReadRecord) : ℕ :=
  if c.input.multiplier = 0 then infnoiseHealthGetEntropy c.after.health / 8
  else 32 * min c.input.multiplier 10

/-- What the call does to the budget. -/
def move (c : ReadRecord) : Move :=
  if c.absorbs then .fund c.blockBudget c.whitenedBytes
  else if 0 < c.whitenedBytes then .draw c.whitenedBytes
  else .idle

/-- The call as a step on the budget. -/
def onBudget (c : ReadRecord) : Call ℕ Move Unit :=
  ⟨c.before.keccakBytesLeft, c.move, (), c.after.keccakBytesLeft⟩

end ReadRecord

lemma outputBudget_eq (multiplier entropy : ℕ) :
    outputBudget multiplier entropy =
      if multiplier = 0 then entropy / 8 else 32 * min multiplier 10 := by
  by_cases hcap : multiplier > 10
  · rw [outputBudget, if_pos hcap, if_neg (by omega), if_neg (by omega), min_eq_right (by omega)]
  · rw [outputBudget, if_neg hcap, min_eq_left (by omega), Nat.mul_comm]

/-! ### One call -/

/-- The law of one call: raw calls leave the counter alone, only a whitened call that finds it
at zero absorbs, and what is left after a call is what it found, or the budget of its block,
less the bytes it delivered. -/
structure ReadRecord.Lawful (c : ReadRecord) : Prop where
  absorbs_only : c.absorbs → c.input.raw = false ∧ c.before.keccakBytesLeft = 0
  raw_keeps : c.input.raw = true → c.after.keccakBytesLeft = c.before.keccakBytesLeft
  no_underflow : c.whitenedBytes ≤ (if c.absorbs then c.blockBudget else c.before.keccakBytesLeft)
  after_eq : c.after.keccakBytesLeft =
    (if c.absorbs then c.blockBudget else c.before.keccakBytesLeft) - c.whitenedBytes
  after_lt : c.after.keccakBytesLeft < 4294967296

/-- A call that neither touches the counter nor delivers whitened bytes. -/
lemma ReadRecord.lawful_of_keeps {c : ReadRecord} (hbefore : c.before.keccakBytesLeft < 4294967296)
    (hafter : c.after.keccakBytesLeft = c.before.keccakBytesLeft) (habs : c.absorbs = false)
    (hbytes : c.whitenedBytes = 0) : c.Lawful where
  absorbs_only h := by simp [habs] at h
  raw_keeps _ := hafter
  no_underflow := by rw [hbytes]; exact Nat.zero_le _
  after_eq := by rw [hafter, habs, hbytes]; rfl
  after_lt := hafter ▸ hbefore

lemma readStep_lawful {c : ReadRecord}
    (hstep : readStep c.before c.input = some (c.output, c.after))
    (hleft : c.before.keccakBytesLeft < 4294967296) : c.Lawful := by
  obtain ⟨dev, ⟨multiplier, scripts, result, maxLen, raw⟩, r, dev'⟩ := c
  rw [readStep, Option.map_eq_some_iff] at hstep
  obtain ⟨r', hread, heq⟩ := hstep
  obtain ⟨rfl, rfl⟩ := Prod.mk.inj heq
  dsimp only at hread hleft
  cases infnoiseReadData_step hread with
  | absent hpresent =>
    apply ReadRecord.lawful_of_keeps hleft rfl rfl
    simp [ReadRecord.whitenedBytes, ReadRecord.bytesReturned]
  | squeezed hpresent hraw hpos =>
    subst hraw
    have hsize := squeezeSize_le dev maxLen
    have hafter := subU32_of_le hsize hleft
    refine ⟨fun h => by simp [ReadRecord.absorbs] at h, (fun h => nomatch h), ?_, ?_, ?_⟩
    · simp only [ReadRecord.whitenedBytes, ReadRecord.bytesReturned, squeezeLeft_ret]
      exact hsize
    · simp only [ReadRecord.whitenedBytes, ReadRecord.bytesReturned, squeezeLeft_ret,
        squeezeLeft_dev]
      exact hafter
    · simp only [squeezeLeft_dev, hafter]
      omega
  | failed hpresent htransfer =>
    obtain ⟨hframe, _⟩ := infnoiseUsbTransfer_cases htransfer
    apply ReadRecord.lawful_of_keeps hleft hframe.keccakBytesLeft_eq rfl
    simp [ReadRecord.whitenedBytes, ReadRecord.bytesReturned]
  | rejected hpresent htransfer hbad =>
    obtain ⟨hframe, _⟩ := infnoiseUsbTransfer_cases htransfer
    apply ReadRecord.lawful_of_keeps hleft hframe.keccakBytesLeft_eq rfl
    simp [ReadRecord.whitenedBytes, ReadRecord.bytesReturned]
  | rawBlock hpresent htransfer hgood hraw =>
    obtain ⟨hframe, _⟩ := infnoiseUsbTransfer_cases htransfer
    apply ReadRecord.lawful_of_keeps hleft hframe.keccakBytesLeft_eq rfl
    simp [ReadRecord.whitenedBytes, hraw]
  | @absorbed entropy dev₁ hpresent htransfer hgood hraw hzero =>
    subst hraw
    obtain ⟨_, hlevel⟩ := infnoiseUsbTransfer_cases htransfer
    obtain ⟨hentropy, hlt⟩ := hlevel entropy rfl
    have hbudget : u32 (outputBudget multiplier entropy) =
        if multiplier = 0 then infnoiseHealthGetEntropy dev₁.health / 8
        else 32 * min multiplier 10 := by
      rw [outputBudget_eq, ← hentropy]
      apply u32_of_lt
      split_ifs <;> omega
    have hlt' := u32_lt (outputBudget multiplier entropy)
    have hsize := squeezeSize_le (dev₁.absorb multiplier entropy) maxLen
    have hafter := subU32_of_le hsize hlt'
    simp only [Device.absorb_keccakBytesLeft, hbudget] at hsize hafter hlt'
    refine ⟨fun _ => ⟨rfl, hzero⟩, (fun h => nomatch h), ?_, ?_, ?_⟩
    · simp only [ReadRecord.whitenedBytes, ReadRecord.bytesReturned, absorbAndSqueeze_ret]
      exact hsize
    · simp only [ReadRecord.whitenedBytes, ReadRecord.bytesReturned, absorbAndSqueeze_ret,
        ReadRecord.blockBudget, absorbAndSqueeze_dev, squeezeLeft_dev,
        Device.absorb_keccakBytesLeft, hbudget]
      exact hafter
    · simp only [absorbAndSqueeze_dev, squeezeLeft_dev, Device.absorb_keccakBytesLeft, hbudget,
        hafter]
      omega

/-! ### Runs of calls -/

lemma ReadRecord.move_isFund (c : ReadRecord) : c.move.isFund ↔ c.absorbs = true := by
  simp only [move]
  split_ifs with habs hpos
  · simp [Move.isFund, habs]
  · simp [Move.isFund, habs]
  · simp [Move.isFund, habs]

lemma ReadRecord.absorbs_of_eq {c : ReadRecord} {dev : Device} {multiplier entropy maxLen : ℕ}
    {result : ℕ → Byte} (h : c.output = absorbAndSqueeze dev multiplier entropy result maxLen) :
    c.absorbs = true := by
  rw [absorbs, h, absorbAndSqueeze_ops]
  rfl

lemma ReadRecord.move_drawn (c : ReadRecord) : c.move.drawn = c.whitenedBytes := by
  simp only [move]
  split_ifs with habs hpos
  · rfl
  · rfl
  · exact (Nat.eq_zero_of_not_pos hpos).symm

/-- A lawful call is a step on the budget. -/
lemma ReadRecord.Lawful.budgetStep {c : ReadRecord} (h : c.Lawful) :
    budgetStep c.before.keccakBytesLeft c.move = some ((), c.after.keccakBytesLeft) := by
  have hno := h.no_underflow
  have hafter := h.after_eq
  simp only [move]
  split_ifs with habs hpos
  · rw [if_pos habs] at hno hafter
    rw [Core.budgetStep, if_pos ⟨(h.absorbs_only habs).2, hno⟩, hafter]
  · rw [if_neg habs] at hno hafter
    rw [Core.budgetStep, if_pos ⟨by omega, hno⟩, hafter]
  · rw [if_neg habs] at hafter
    rw [Core.budgetStep, hafter, Nat.eq_zero_of_not_pos hpos, Nat.sub_zero]

/-- The calls on a device refine the budget. -/
lemma readStep_refines {dev dev' : Device} {cs : List ReadRecord} (h : Run readStep dev cs dev')
    (hleft : dev.keccakBytesLeft < 4294967296) :
    Run budgetStep dev.keccakBytesLeft (cs.map ReadRecord.onBudget) dev'.keccakBytesLeft :=
  h.simulate (I := fun dev => dev.keccakBytesLeft < 4294967296) Device.keccakBytesLeft
    ReadRecord.onBudget
    (fun _ hstep hlt =>
      have hlaw := readStep_lawful hstep hlt
      ⟨hlaw.after_lt, rfl, rfl, hlaw.budgetStep⟩)
    hleft

/-- In every run of calls, by any readers, with any sizes, modes and multipliers: every call is
lawful, and from a call that absorbs to any later call before the next absorption the whitened
bytes delivered and the bytes still left make up the budget of the block. -/
theorem readData_accounting {dev dev' : Device} {cs : List ReadRecord}
    (h : Run readStep dev cs dev') (hleft : dev.keccakBytesLeft < 4294967296) :
    (∀ c ∈ cs, c.Lawful) ∧
      ∀ pre c mid post d, cs = pre ++ (c :: mid) ++ post → c.absorbs = true →
        (∀ e ∈ mid, e.absorbs = false) → (c :: mid).getLast? = some d →
        c.whitenedBytes + (mid.map ReadRecord.whitenedBytes).sum + d.after.keccakBytesLeft
          = c.blockBudget := by
  have hI := fun (s : Device) (cs : List ReadRecord) (s' : Device) (h : Run readStep s cs s') =>
    h.invariant_of (I := fun dev => dev.keccakBytesLeft < 4294967296) (P := fun _ => True)
      (fun c hstep _ hlt => (readStep_lawful hstep hlt).after_lt) (fun _ _ => trivial)
  constructor
  · intro c hc
    exact readStep_lawful (h.step_of_mem hc) ((hI _ _ _ h hleft).1 c hc).1
  · rintro pre c mid post d rfl habs hmid hlast
    obtain ⟨dev₂, hrun, _⟩ := Run.append_iff.mp h
    obtain ⟨dev₁, hpre, hseg⟩ := Run.append_iff.mp hrun
    have hbudget := readStep_refines hseg (hI _ _ _ hpre hleft).2
    have hc : c.onBudget.input = .fund c.blockBudget c.whitenedBytes := if_pos habs
    have hsum := hbudget.drawn_eq hc (by
      intro e he
      obtain ⟨e', he', rfl⟩ := List.mem_map.mp he
      change ¬ e'.move.isFund
      rw [e'.move_isFund, hmid e' he']
      exact Bool.false_ne_true)
    rw [List.map_map] at hsum
    rw [hseg.after_getLast? hlast, ← hsum]
    congr 3
    apply List.map_congr_left
    intro e _
    exact e.move_drawn.symm

/-- Two reads of 16 bytes, with multiplier 1: the block that the first one absorbs has 32 bytes. -/
theorem readData_accounting_read : ∃ (dev dev' : Device) (c d : ReadRecord),
    Run readStep dev [c, d] dev' ∧ c.absorbs = true ∧ d.absorbs = false ∧ c.blockBudget = 32 ∧
      c.whitenedBytes + d.whitenedBytes + d.after.keccakBytesLeft = 32 := by
  obtain ⟨j, dev, hwarming, _, _, _, hread⟩ := exists_warm_read
  obtain ⟨dev₁, entropy, hloaded, hread⟩ := hread 1 (fun _ => 0) 16
  obtain ⟨r, hr⟩ : ∃ r, r = absorbAndSqueeze dev₁ 1 entropy (fun _ => 0) 16 := ⟨_, rfl⟩
  have hbudget : (dev₁.absorb 1 entropy).keccakBytesLeft = 32 := rfl
  have hsize : squeezeSize (dev₁.absorb 1 entropy) 16 = 16 := by
    rw [squeezeSize, hbudget]
    rfl
  have hleft : r.dev.keccakBytesLeft = 16 := by
    rw [hr, absorbAndSqueeze_dev, squeezeLeft_dev]
    dsimp only
    rw [hbudget, hsize, subU32_of_le (by norm_num) (by norm_num)]
  have hpresent : r.dev.present = true := by
    rw [hr, absorbAndSqueeze_dev, squeezeLeft_dev]
    exact hloaded.present
  let call : ReadCall := ⟨1, fun _ => registerScript (512 * j), fun _ => 0, 16, false⟩
  let r' : ReadResult := squeezeLeft r.dev (fun _ => 0) 16
  let c : ReadRecord := ⟨dev, call, r, r.dev⟩
  let d : ReadRecord := ⟨r.dev, call, r', r'.dev⟩
  have hc : readStep dev call = some (r, r.dev) := by
    rw [readStep, hread, hr]
    rfl
  have hd : readStep r.dev call = some (r', r'.dev) := by
    rw [readStep, infnoiseReadData, hpresent, hleft]
    rfl
  have hrun : Run readStep dev [c, d] r'.dev := .cons hc (.single hd)
  have habs : c.absorbs = true := ReadRecord.absorbs_of_eq hr
  have habs' : d.absorbs = false := rfl
  have hlaw := (readData_accounting hrun (by rw [hwarming.keccakBytesLeft]; norm_num)).2 [] c [d] []
    d rfl habs (by simpa using habs') rfl
  refine ⟨dev, r'.dev, c, d, hrun, habs, habs', rfl, ?_⟩
  rw [List.map_singleton, List.sum_singleton] at hlaw
  exact hlaw

end Kernel
