import Infnoise.Core.Capacity
import Infnoise.Kernel.Whitening

/-!
# The capacity of the sponge

The log of a call of `infnoise_read_data` says what happened to the sponge. Every state is read once
at most, and never beyond its first 128 bytes.
-/

namespace Kernel

open Core

attribute [local irreducible] infnoiseKeccakPermutation infnoiseKeccakAbsorb

/-! ### Logs -/

/-- The state an operation leaves. -/
def SpongeOp.apply (keccak : KeccakState) : SpongeOp → KeccakState
  | .absorb block => kernelSponge.absorb keccak block
  | .extract _ => keccak
  | .permute => infnoiseKeccakPermutation keccak

/-- Absorbing ends with a permutation, and a lane has 8 bytes. -/
def SpongeOp.tap : SpongeOp → Tap
  | .absorb _ | .permute => .permute
  | .extract lanes => .read (8 * lanes)

/-- The bytes that a log takes out of the state, in order. -/
def takenBytes : KeccakState → List SpongeOp → List Byte
  | _, [] => []
  | keccak, .absorb block :: ops => takenBytes (kernelSponge.absorb keccak block) ops
  | keccak, .extract lanes :: ops => leadingBytes keccak (8 * lanes) ++ takenBytes keccak ops
  | keccak, .permute :: ops => takenBytes (infnoiseKeccakPermutation keccak) ops

/-- A log that tells what a call did: it leads from one state to the other, and the whitened bytes
that were returned are among the bytes it took out, from the first one on. -/
structure LogSound (before after : KeccakState) (ops : List SpongeOp) (bytes : List Byte) : Prop where
  state_eq : after = ops.foldl SpongeOp.apply before
  bytes_prefix : bytes <+: takenBytes before ops

/-- What a log should keep to: between two permutations the state is read once at most, and not
beyond its first 128 bytes, so that no place is read twice and the last 72 bytes never are. -/
structure CapacityKept (ops : List SpongeOp) : Prop where
  once : ∀ pre seg post, ops = pre ++ seg ++ post → .permute ∉ seg.map SpongeOp.tap →
    seg = [] ∨ ∃ lanes ≤ 16, seg = [.extract lanes]
  rate : ∀ p ∈ Tap.places 0 (ops.map SpongeOp.tap), p.2 < 128
  unique : (Tap.places 0 (ops.map SpongeOp.tap)).Nodup

lemma capacityKept_of_kept {fresh : Bool} {ops : List SpongeOp}
    (h : Tap.Kept 128 fresh (ops.map SpongeOp.tap)) : CapacityKept ops where
  once := by
    rintro pre seg post rfl hseg
    rw [List.map_append, List.map_append, Tap.kept_append, Tap.kept_append] at h
    rcases h.1.2.segment hseg with hnil | ⟨_, n, hn, hread⟩
    · exact .inl (List.map_eq_nil_iff.mp hnil)
    · obtain ⟨op, rfl, hop⟩ := List.map_eq_singleton_iff.mp hread
      cases op with
      | absorb block | permute => cases hop
      | extract lanes =>
        obtain rfl : 8 * lanes = n := Tap.read.inj hop
        exact .inr ⟨lanes, by omega, rfl⟩
  rate p hp := (h.of_mem_places hp).1
  unique := h.nodup_places 0

lemma bufferBytes_mono (buffer : ℕ → Byte) {m n : ℕ} (h : m ≤ n) :
    bufferBytes buffer m <+: bufferBytes buffer n := by
  refine ⟨(List.range (n - m)).map fun k => buffer (m + k), ?_⟩
  rw [bufferBytes, bufferBytes, ← Nat.add_sub_cancel' h, List.range_add, List.map_append,
    List.map_map, Nat.add_sub_cancel_left]
  rfl

/-- Chunks begin at the start of the state. -/
lemma leadingBytes_mono (keccak : KeccakState) {m n : ℕ} (h : m ≤ n) :
    leadingBytes keccak m <+: leadingBytes keccak n :=
  bufferBytes_mono (fun k => keccak[k % 200]) h

/-! ### Calls of the kernel driver -/

/-- The whitened bytes the call returned. -/
def ReadRecord.whitened (c : ReadRecord) : List Byte := if c.input.raw then [] else c.bytes

/-- The lines that squeeze read the state once, and permute it. -/
lemma squeezeLeft_sound (dev : Device) (result : ℕ → Byte) (maxLen : ℕ) :
    LogSound dev.keccak (squeezeLeft dev result maxLen).dev.keccak
        (squeezeLeft dev result maxLen).ops
        (bufferBytes (squeezeLeft dev result maxLen).result (squeezeSize dev maxLen)) ∧
      Tap.Kept 128 true ((squeezeLeft dev result maxLen).ops.map SpongeOp.tap) := by
  have hsize : squeezeSize dev maxLen ≤ 128 := min_le_right _ _
  rw [squeezeLeft_ops, squeezeLeft_dev, squeezeLeft_result, bufferBytes_extract _ _ hsize]
  refine ⟨⟨rfl, ?_⟩, rfl, ?_, trivial⟩
  · rw [takenBytes, takenBytes, takenBytes, List.append_nil]
    exact leadingBytes_mono _ (by omega)
  · omega

/-- A call of `infnoise_read_data` leaves a fresh state behind. -/
lemma readStep_log {c : ReadRecord}
    (hstep : readStep c.before c.input = some (c.output, c.after)) :
    LogSound c.before.keccak c.after.keccak c.output.ops c.whitened ∧
      Tap.Kept 128 true (c.output.ops.map SpongeOp.tap) ∧
      Tap.freshAfter true (c.output.ops.map SpongeOp.tap) = true := by
  obtain ⟨dev, ⟨multiplier, scripts, result, maxLen, raw⟩, r, dev'⟩ := c
  rw [readStep, Option.map_eq_some_iff] at hstep
  obtain ⟨r', hread, heq⟩ := hstep
  obtain ⟨rfl, rfl⟩ := Prod.mk.inj heq
  dsimp only at hread ⊢
  have hidle : ∀ {dev' : Device} {bytes : List Byte}, dev'.keccak = dev.keccak → bytes = [] →
      LogSound dev.keccak dev'.keccak [] bytes := fun hkeccak hbytes =>
    ⟨hkeccak, hbytes ▸ List.nil_prefix⟩
  cases infnoiseReadData_step hread with
  | absent hpresent => exact ⟨hidle rfl (by cases raw <;> rfl), trivial, rfl⟩
  | squeezed hpresent hraw hpos =>
    subst hraw
    obtain ⟨hsound, hkept⟩ := squeezeLeft_sound dev result maxLen
    exact ⟨hsound, hkept, rfl⟩
  | failed hpresent htransfer =>
    obtain ⟨hframe, _⟩ := infnoiseUsbTransfer_cases htransfer
    exact ⟨hidle hframe.keccak_eq (by cases raw <;> rfl), trivial, rfl⟩
  | rejected hpresent htransfer hbad =>
    obtain ⟨hframe, _⟩ := infnoiseUsbTransfer_cases htransfer
    exact ⟨hidle hframe.keccak_eq (by cases raw <;> rfl), trivial, rfl⟩
  | rawBlock hpresent htransfer hgood hraw =>
    obtain ⟨hframe, _⟩ := infnoiseUsbTransfer_cases htransfer
    subst hraw
    exact ⟨hidle hframe.keccak_eq rfl, trivial, rfl⟩
  | @absorbed entropy dev₁ hpresent htransfer hgood hraw hzero =>
    subst hraw
    obtain ⟨hframe, _⟩ := infnoiseUsbTransfer_cases htransfer
    obtain ⟨⟨hstate, hbytes⟩, hkept⟩ :=
      squeezeLeft_sound (dev₁.absorb multiplier entropy) result maxLen
    have habsorb : kernelSponge.absorb dev.keccak (blockOf dev₁.outBuf) =
        (dev₁.absorb multiplier entropy).keccak := by
      rw [absorb_blockOf, ← hframe.keccak_eq]
      rfl
    refine ⟨⟨?_, ?_⟩, hkept, rfl⟩
    · rw [absorbAndSqueeze_ops, List.foldl_cons, SpongeOp.apply, habsorb]
      exact hstate
    · rw [absorbAndSqueeze_ops, takenBytes, habsorb]
      exact hbytes

/-- The log of a run. -/
def spongeLog (cs : List ReadRecord) : List SpongeOp := cs.flatMap fun c => c.output.ops

/-- In every run of calls of `infnoise_read_data` the logs are sound, and the capacity is kept. -/
theorem readData_capacity {dev dev' : Device} {cs : List ReadRecord}
    (h : Run readStep dev cs dev') :
    (∀ c ∈ cs, LogSound c.before.keccak c.after.keccak c.output.ops c.whitened) ∧
      CapacityKept (spongeLog cs) := by
  refine ⟨fun c hc => (readStep_log (h.step_of_mem hc)).1, ?_⟩
  refine capacityKept_of_kept (?_ : Tap.Kept 128 true _)
  rw [spongeLog, List.map_flatMap]
  exact Tap.Kept.run (I := fun fresh _ => fresh = true) (P := fun _ => True)
    (fun c b hstep _ hb => by
      obtain ⟨_, hkept, hfresh⟩ := readStep_log hstep
      subst hb
      exact ⟨hkept, hfresh⟩) h (fun _ _ => trivial) rfl

end Kernel
