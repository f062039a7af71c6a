import Infnoise.Core.Sponge
import Infnoise.Kernel.Accounting
import Infnoise.Kernel.Driver

/-!
# Whitening in the kernel driver

With the multiplier held fixed, the whitened calls of `infnoise_read_data` refine a sponge that is
drained in chunks of 128 bytes.
-/

namespace Kernel

open Core

attribute [local irreducible] infnoiseKeccakPermutation infnoiseKeccakAbsorb

/-- What the log of a call tells the sponge. -/
def spongeEvent : List SpongeOp → Option (SpongeEvent (Vector Byte 64))
  | [] => none
  | .absorb block :: _ => some (.absorb block)
  | _ :: _ => some .squeeze

/-- The block that the log of a call absorbs. -/
def absorbedBlock : List SpongeOp → Option (Vector Byte 64)
  | .absorb block :: _ => some block
  | _ => none

lemma absorbedBlock_eq (ops : List SpongeOp) :
    absorbedBlock ops = (spongeEvent ops).bind SpongeEvent.block := by
  rcases ops with _ | ⟨_ | _ | _, _⟩ <;> rfl

/-- The sponge of the kernel driver. -/
def kernelSponge : Sponge KeccakState (Vector Byte 64) Byte where
  absorb keccak block :=
    infnoiseKeccakAbsorb keccak (fun i => block[i % 64]) (infnoiseBytesOut / 8)
  permute := infnoiseKeccakPermutation
  emit := leadingBytes

/-- A buffer that holds a block. -/
def blockBuffer (block : Vector Byte 64) : ℕ → Byte := fun i => block[i % 64]

namespace ReadRecord

/-- A whitened call with room for a chunk, while the multiplier is `m`. -/
structure Whitened (m : ℕ) (c : ReadRecord) : Prop where
  raw_eq : c.input.raw = false
  multiplier_eq : c.input.multiplier = m
  maxLen_ge : 128 ≤ c.input.maxLen

/-- The bytes the call returned. -/
def bytes (c : ReadRecord) : List Byte := deliveredBytes c.output.ret c.output.result

/-- The call as a step of the sponge, if it is one. -/
def onSponge (c : ReadRecord) :
    Option (Call (KeccakState × ℕ) (SpongeEvent (Vector Byte 64)) (List Byte)) :=
  (spongeEvent c.output.ops).map fun e =>
    ⟨(c.before.keccak, c.before.keccakBytesLeft), e, c.bytes,
      (c.after.keccak, c.after.keccakBytesLeft)⟩

end ReadRecord

/-! ### One call -/

lemma bufferBytes_extract (keccak : KeccakState) (buffer : ℕ → Byte) {n : ℕ} (hn : n ≤ 128) :
    bufferBytes (infnoiseKeccakExtract keccak buffer ((n + 7) / 8)) n = leadingBytes keccak n := by
  refine List.map_congr_left fun k hk => ?_
  rw [List.mem_range] at hk
  rw [infnoiseKeccakExtract, memcpy_of_lt (Nat.zero_le k) (by omega), Nat.sub_zero]

/-- Absorbing reads the bytes of its lanes. -/
lemma infnoiseKeccakAbsorb_congr (keccak : KeccakState) {data data' : ℕ → Byte} {lanes : ℕ}
    (h : ∀ i < lanes * 8, data i = data' i) :
    infnoiseKeccakAbsorb keccak data lanes = infnoiseKeccakAbsorb keccak data' lanes := by
  rw [infnoiseKeccakAbsorb, infnoiseKeccakAbsorb, xored_congr keccak h]

lemma blockOf_getElem (outBuf : ℕ → Byte) {i : ℕ} (hi : i < 64) :
    (blockOf outBuf)[i % 64] = outBuf i := by
  simp only [blockOf, Vector.getElem_ofFn, Nat.mod_eq_of_lt hi]

lemma absorb_blockOf (keccak : KeccakState) (outBuf : ℕ → Byte) :
    kernelSponge.absorb keccak (blockOf outBuf) =
      infnoiseKeccakAbsorb keccak outBuf (infnoiseBytesOut / 8) :=
  infnoiseKeccakAbsorb_congr keccak fun _ hi => blockOf_getElem outBuf hi

/-- The common part of the calls that squeeze. -/
lemma squeezeLeft_drain {dev : Device} (result : ℕ → Byte) {maxLen : ℕ} (hmax : 128 ≤ maxLen)
    (hleft : dev.keccakBytesLeft < 4294967296) :
    kernelSponge.drain 128 (dev.keccak, dev.keccakBytesLeft) =
      (bufferBytes (squeezeLeft dev result maxLen).result (squeezeSize dev maxLen),
        ((squeezeLeft dev result maxLen).dev.keccak,
          (squeezeLeft dev result maxLen).dev.keccakBytesLeft)) := by
  have hsize : squeezeSize dev maxLen = min 128 dev.keccakBytesLeft := by
    rw [squeezeSize]
    omega
  rw [squeezeLeft_result, squeezeLeft_dev, bufferBytes_extract _ _ (hsize ▸ min_le_left _ _),
    subU32_of_le (squeezeSize_le dev maxLen) hleft, hsize]
  rfl

/-- A whitened call is a step of the sponge, or leaves it alone and returns nothing. -/
lemma readStep_sponge {m : ℕ} (hm : 1 ≤ m) (hm10 : m ≤ 10) {c : ReadRecord}
    (hstep : readStep c.before c.input = some (c.output, c.after)) (hcall : c.Whitened m)
    (hleft : c.before.keccakBytesLeft < 4294967296) :
    (spongeEvent c.output.ops = none → c.bytes = [] ∧ c.after.keccak = c.before.keccak ∧
        c.after.keccakBytesLeft = c.before.keccakBytesLeft) ∧
      ∀ e, spongeEvent c.output.ops = some e →
        kernelSponge.step (32 * m) 128 (c.before.keccak, c.before.keccakBytesLeft) e =
          some (c.bytes, (c.after.keccak, c.after.keccakBytesLeft)) := by
  obtain ⟨dev, ⟨multiplier, scripts, result, maxLen, raw⟩, r, dev'⟩ := c
  obtain ⟨hraw, hmult, hmax⟩ := hcall
  rw [readStep, Option.map_eq_some_iff] at hstep
  obtain ⟨r', hread, heq⟩ := hstep
  obtain ⟨rfl, rfl⟩ := Prod.mk.inj heq
  dsimp only at hread hleft hraw hmult hmax ⊢
  subst hraw hmult
  cases infnoiseReadData_step hread with
  | absent hpresent => exact ⟨fun _ => ⟨rfl, rfl, rfl⟩, fun e he => by cases he⟩
  | squeezed hpresent hraw hpos =>
    refine ⟨(fun he => by cases he), fun e he => ?_⟩
    cases he
    rw [Sponge.step, if_pos hpos, squeezeLeft_drain result hmax hleft]
    rfl
  | failed hpresent htransfer =>
    obtain ⟨hframe, _⟩ := infnoiseUsbTransfer_cases htransfer
    exact ⟨fun _ => ⟨rfl, hframe.keccak_eq, hframe.keccakBytesLeft_eq⟩, fun e he => by cases he⟩
  | rejected hpresent htransfer hbad =>
    obtain ⟨hframe, _⟩ := infnoiseUsbTransfer_cases htransfer
    exact ⟨fun _ => ⟨rfl, hframe.keccak_eq, hframe.keccakBytesLeft_eq⟩, fun e he => by cases he⟩
  | rawBlock hpresent htransfer hgood hraw => cases hraw
  | @absorbed entropy dev₁ hpresent htransfer hgood hraw hzero =>
    obtain ⟨hframe, _⟩ := infnoiseUsbTransfer_cases htransfer
    refine ⟨(fun he => by cases he), fun e he => ?_⟩
    cases he
    have hbudget : u32 (outputBudget multiplier entropy) = 32 * multiplier := by
      rw [outputBudget_eq, if_neg (by omega), min_eq_left hm10]
      exact u32_of_lt (by omega)
    have hleft₁ : (dev₁.absorb multiplier entropy).keccakBytesLeft < 4294967296 :=
      u32_lt (outputBudget multiplier entropy)
    have hdrain := squeezeLeft_drain result hmax hleft₁
    rw [Device.absorb_keccakBytesLeft, hbudget] at hdrain
    rw [Sponge.step, if_pos hzero, absorb_blockOf, ← hframe.keccak_eq]
    exact congrArg some hdrain

/-! ### Runs -/

/-- The whitened calls refine the sponge, with the blocks they absorb and the bytes they return. -/
theorem whitened_refines {m : ℕ} (hm : 1 ≤ m) (hm10 : m ≤ 10) {dev dev' : Device}
    {cs : List ReadRecord} (h : Run readStep dev cs dev')
    (hcalls : ∀ c ∈ cs, c.Whitened m) (hleft : dev.keccakBytesLeft < 4294967296) :
    Run (kernelSponge.step (32 * m) 128) (dev.keccak, dev.keccakBytesLeft)
        (cs.filterMap ReadRecord.onSponge) (dev'.keccak, dev'.keccakBytesLeft) ∧
      Sponge.blocks (cs.filterMap ReadRecord.onSponge) =
        cs.filterMap (fun c => absorbedBlock c.output.ops) ∧
      Sponge.stream (cs.filterMap ReadRecord.onSponge) = cs.flatMap ReadRecord.bytes := by
  simp only [absorbedBlock_eq]
  refine Sponge.refines_of_step (I := fun dev => dev.keccakBytesLeft < 4294967296)
    (P := ReadRecord.Whitened m) (fun dev => (dev.keccak, dev.keccakBytesLeft))
    (fun c => spongeEvent c.output.ops) ReadRecord.bytes ?_ h hcalls hleft
  intro c hstep hcall hlt
  obtain ⟨hnone, hsome⟩ := readStep_sponge hm hm10 hstep hcall hlt
  refine ⟨(readStep_lawful hstep hlt).after_lt, fun he => ?_, hsome⟩
  obtain ⟨hbytes, hkeccak, hleft⟩ := hnone he
  exact ⟨hbytes, by rw [hkeccak, hleft]⟩

end Kernel
