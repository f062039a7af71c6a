import Infnoise.Kernel.Accounting
import Infnoise.Kernel.EntropyGate
import Infnoise.Kernel.Verdict
import Infnoise.Userspace.Pool

/-!
# Reads that yield nothing

A call of `infnoise_read_data` or `readData` that returns zero or an error has not touched the
sponge, its budget or the buffer of the caller. A block that gets as far as the sponge is on target,
so what it yields is not empty.
-/

namespace Kernel

open Core

attribute [local irreducible] infnoiseKeccakPermutation infnoiseKeccakAbsorb

/-- The call returned zero or an error. -/
def ReadRecord.YieldsNothing (c : ReadRecord) : Prop :=
  c.output.ret = .ok 0 ∨ ∃ e, c.output.ret = .error e

/-- A block on target has at least eight bits: a product that reaches the target does so before it
could wrap. -/
lemma le_of_entropyOnTarget {entropy : ℕ}
    (h : infnoiseHealthEntropyOnTarget entropy infnoiseBuflen = true) : 8 ≤ entropy := by
  by_contra hsmall
  have hlow := (entropyOnTarget_iff (show entropy ≤ 7680 by omega)).mp h
  omega

/-- A block on target has a budget, whatever the multiplier. -/
lemma budget_pos {multiplier entropy : ℕ} (hlow : 8 ≤ entropy) (hlt : entropy < 4294967296) :
    0 < u32 (outputBudget multiplier entropy) := by
  have hbudget : 0 < outputBudget multiplier entropy ∧
      outputBudget multiplier entropy < 4294967296 := by
    simp only [outputBudget]
    split_ifs <;> omega
  rw [u32_of_lt hbudget.2]
  exact hbudget.1

/-- A read of the kernel driver that yields nothing leaves the sponge, its budget, the count of the
bytes and the buffer alone. -/
lemma ReadRecord.kept_of_yieldsNothing {c : ReadRecord}
    (hstep : readStep c.before c.input = some (c.output, c.after)) (hmax : 1 ≤ c.input.maxLen)
    (hnone : c.YieldsNothing) :
    c.after.keccak = c.before.keccak ∧ c.after.keccakBytesLeft = c.before.keccakBytesLeft ∧
      c.after.bytesGenerated = c.before.bytesGenerated ∧ c.output.result = c.input.result := by
  obtain ⟨dev, ⟨multiplier, scripts, result, maxLen, raw⟩, r, dev'⟩ := c
  rw [readStep, Option.map_eq_some_iff] at hstep
  obtain ⟨r', hread, heq⟩ := hstep
  obtain ⟨rfl, rfl⟩ := Prod.mk.inj heq
  have hpos : ∀ n, 0 < n → r'.ret ≠ .ok n := by
    rintro n hn hret
    rcases hnone with hzero | ⟨e, herror⟩
    · cases hret.symm.trans hzero
      exact absurd hn (Nat.lt_irrefl 0)
    · cases hret.symm.trans herror
  dsimp only at hread hmax ⊢
  cases infnoiseReadData_step hread with
  | absent => exact ⟨rfl, rfl, rfl, rfl⟩
  | squeezed hpresent hraw hleft =>
    refine absurd (squeezeLeft_ret dev result maxLen) (hpos _ ?_)
    rw [squeezeSize]
    omega
  | failed hpresent htransfer | rejected hpresent htransfer hbad =>
    obtain ⟨hframe, _⟩ := infnoiseUsbTransfer_cases htransfer
    exact ⟨hframe.keccak_eq, hframe.keccakBytesLeft_eq, hframe.bytesGenerated_eq, rfl⟩
  | rawBlock hpresent htransfer hgood hraw =>
    refine absurd rfl (hpos (min maxLen infnoiseBytesOut) ?_)
    have hbytes : infnoiseBytesOut = 64 := rfl
    omega
  | @absorbed entropy dev₁ hpresent htransfer hgood hraw hleft =>
    obtain ⟨_, hlevel⟩ := infnoiseUsbTransfer_cases htransfer
    rw [Bool.and_eq_true] at hgood
    have hbudget : 0 < u32 (outputBudget multiplier entropy) :=
      budget_pos (le_of_entropyOnTarget hgood.2) (hlevel entropy rfl).2
    refine absurd (absorbAndSqueeze_ret dev₁ multiplier entropy result maxLen) (hpos _ ?_)
    rw [squeezeSize, Device.absorb_keccakBytesLeft]
    omega

end Kernel

namespace Userspace

open Core Reference

attribute [local irreducible] keccakPermutation keccakAbsorb keccakExtract

/-- The call returned zero or a negative code. -/
def ReadRecord.YieldsNothing (c : ReadRecord) : Prop :=
  c.output.rc = .ok 0 ∨ ∃ e, c.output.rc = .error e

/-- A read of the library that yields nothing leaves the sponge, its budget and the buffer alone. -/
lemma ReadRecord.kept_of_yieldsNothing {c : ReadRecord}
    (hstep : readStep c.before c.input = some (c.output, c.after))
    (hstarted : c.before.health.Started)
    (hargs : c.input.raw = true ∨ c.input.outputMultiplier < 16777216) (hnone : c.YieldsNothing) :
    c.after.keccakState = c.before.keccakState ∧
      c.after.keccakBytesGiven = c.before.keccakBytesGiven ∧ c.output.result = c.input.result := by
  obtain ⟨context, ⟨script, result, raw, m⟩, r, after⟩ := c
  dsimp only at hstep hstarted hargs ⊢
  obtain ⟨hread, rfl⟩ := readStep_cases hstep
  have hpos : ∀ n, 0 < n → r.rc ≠ .ok n := by
    rintro n hn hret
    rcases hnone with hzero | ⟨e, herror⟩
    · cases hret.symm.trans hzero
      exact absurd hn (Nat.lt_irrefl 0)
    · cases hret.symm.trans herror
  have haccepted := hread.count_of_accepted hstarted
  cases hread with
  | usbFailed | late => exact ⟨rfl, rfl, rfl⟩
  | unhealthy hblock =>
    obtain ⟨health, message, _, rfl⟩ := hblock.cases_of_failed
    exact ⟨rfl, rfl, rfl⟩
  | rejected hblock hbad =>
    obtain ⟨_, health, _, rfl⟩ := hblock.cases
    exact ⟨rfl, rfl, rfl⟩
  | accepted hblock hgood =>
    refine absurd (haccepted rfl) (hpos _ ?_)
    rw [bytesOfMultiplier_eq]
    split_ifs with hraw hzero
    · norm_num
    · norm_num
    · have hlt : m < 16777216 := hargs.resolve_left hraw
      dsimp only at hzero ⊢
      omega
  | chunk hgiven =>
    refine absurd rfl (hpos (squeezeChunk context result).count ?_)
    rw [squeezeChunk_count, chunkSize]
    omega

/-- A read that returns zero or an error leaves the state of the output alone, in the kernel driver
from every device state, and in the library raw or with a multiplier below `2 ^ 24`. -/
theorem idle_reads_keep :
    (∀ c : Kernel.ReadRecord, Kernel.readStep c.before c.input = some (c.output, c.after) →
      1 ≤ c.input.maxLen → c.YieldsNothing →
      c.after.keccak = c.before.keccak ∧ c.after.keccakBytesLeft = c.before.keccakBytesLeft ∧
        c.after.bytesGenerated = c.before.bytesGenerated ∧ c.output.result = c.input.result) ∧
    ∀ c : ReadRecord, readStep c.before c.input = some (c.output, c.after) →
      c.before.health.Started →
      (c.input.raw = true ∨ c.input.outputMultiplier < 16777216) → c.YieldsNothing →
      c.after.keccakState = c.before.keccakState ∧
        c.after.keccakBytesGiven = c.before.keccakBytesGiven ∧ c.output.result = c.input.result :=
  ⟨fun _ hstep hmax hnone => Kernel.ReadRecord.kept_of_yieldsNothing hstep hmax hnone,
    fun _ hstep hstarted hargs hnone =>
      ReadRecord.kept_of_yieldsNothing hstep hstarted hargs hnone⟩

/-- A transfer for which there is no memory, and samples that come too late. -/
theorem idle_reads_keep_failed : ∃ (c : Kernel.ReadRecord) (d : ReadRecord),
    Kernel.readStep c.before c.input = some (c.output, c.after) ∧
      c.output.ret = .error (.other 12) ∧ c.after.keccak = c.before.keccak ∧
      readStep d.before d.input = some (d.output, d.after) ∧ d.output.rc = .ok 0 ∧
      d.after.keccakState = d.before.keccakState := by
  obtain ⟨dev, hpresent⟩ : ∃ dev : Kernel.Device, dev.present = true := ⟨Kernel.probed.dev, rfl⟩
  obtain ⟨r, hread, hret⟩ : ∃ r, Kernel.infnoiseReadData dev 1 (fun _ => Kernel.unsentScript)
      (fun _ => 0) 64 true = some r ∧ r.ret = .error (.other 12) :=
    ⟨_, Kernel.infnoiseReadData_unsent hpresent 1 fun _ => 0, rfl⟩
  obtain ⟨q, j, context, -, -, hwarming, -, hinit⟩ := exists_initInfnoise tableLog_accurate
    blankContext rfl rfl none true false le_rfl
  have hstarted := (initInfnoise_initialised tableLog_accurate hinit).started
  obtain ⟨r', hread', hrc⟩ : ∃ r', readData context lateRound (some fun _ => 0) false 1 = some r' ∧
      r'.rc = .ok 0 :=
    ⟨_, (Context.Sampled.mk hwarming.given_eq rfl rfl).readData_late lateRound_late _ _ _, rfl⟩
  let c : Kernel.ReadRecord :=
    ⟨dev, ⟨1, fun _ => Kernel.unsentScript, fun _ => 0, 64, true⟩, r, r.dev⟩
  let d : ReadRecord := ⟨context, ⟨lateRound, some fun _ => 0, false, 1⟩, r', r'.context⟩
  have hstep : Kernel.readStep c.before c.input = some (c.output, c.after) := by
    rw [Kernel.readStep, hread]
    rfl
  have hstep' : readStep d.before d.input = some (d.output, d.after) := by
    rw [readStep, hread']
    rfl
  obtain ⟨hkeccak, -⟩ := idle_reads_keep.1 c hstep (Nat.le_of_ble_eq_true rfl) (.inr ⟨_, hret⟩)
  obtain ⟨hstate, -⟩ := idle_reads_keep.2 d hstep' hstarted
    (.inr (show 1 < 16777216 by norm_num)) (.inl hrc)
  exact ⟨c, d, hstep, hret, hkeccak, hstep', hrc, hstate⟩

end Userspace
