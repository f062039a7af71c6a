import Infnoise.Core.Packing
import Infnoise.Kernel.Calls
import Infnoise.Kernel.ReadData

/-!
# What a successful extraction has done

`infnoise_extract_bytes` gives the samples of a buffer to the health checker one after the other.
When none fails, the bytes hold the bits that were checked, and the entropy level has gone up by
the bits of entropy that the calls counted.
-/

namespace Kernel

open Core

/-! ### The samples -/

/-- Sample `k` of a buffer, as it is given to the health checker. -/
def sampleAt (inBuf : ℕ → Byte) (k : ℕ) : Sample :=
  ⟨evenBitOf (inBuf k), oddBitOf (inBuf k), k % 2 == 1⟩

/-- The samples of the first bytes. -/
def samplesOf (inBuf : ℕ → Byte) (length : ℕ) : List Sample :=
  (List.range (8 * length)).map (sampleAt inBuf)

lemma extractBit_eq (inBuf : ℕ → Byte) :
    extractBit inBuf = packBit Health.addBit (sampleAt inBuf) fun k => (sampleAt inBuf k).bit := by
  funext i j s
  have hparity : (i * 8 + j) % 2 = j % 2 := by omega
  simp only [extractBit, packBit, Health.addBit, sampleAt, Sample.bit, hparity]

lemma extractByte_eq (inBuf : ℕ → Byte) :
    extractByte inBuf =
      packByte Health.addBit (sampleAt inBuf) fun k => (sampleAt inBuf k).bit := by
  funext i s
  rw [extractByte, extractBit_eq, packByte]

lemma Health.finishBit_prevBit (h : Health) (bit even : Bool) :
    (h.finishBit bit even).prevBit = h.prevBit := by
  obtain ⟨_, _, _, _, htables⟩ := h.countSample.updateTables_frame bit even
  obtain ⟨_, _, _, _, hentropy⟩ := scaleEntropy_frame (h.countSample.updateTables bit even)
  obtain ⟨_, _, hcounts⟩ := scaleZeroOneCounts_frame
    (scaleEntropy (h.countSample.updateTables bit even))
  rw [finishBit, hcounts, hentropy, htables]
  rfl

/-- The bit that a call selects is the one it remembers. -/
lemma Health.addBit_prevBit {h h' : Health} {x : Sample} {ok : Bool}
    (hadd : h.addBit x = some (ok, h')) : h'.prevBit = x.bit := by
  have hcheck : (h.check x).2.prevBit = x.bit := by
    obtain ⟨_, _, _, _, heq⟩ := h.check_eq x
    rw [heq]
    rfl
  rcases infnoiseHealthAddBit_returned hadd with ⟨-, -, rfl⟩ | ⟨-, -, h₁, hloop, rfl⟩
  · exact hcheck
  · rw [finishBit_prevBit, doublingLoop_doublings hloop, countBit_iterate, enterLoop,
      updateProb_eq]
    exact hcheck

/-- An extraction that succeeds has checked every sample, packed the bits and returned the entropy
level. -/
lemma infnoiseExtractBytes_checked {dev dev' : Device} {length entropy : ℕ} {inBuf : ℕ → Byte}
    (h : infnoiseExtractBytes dev length inBuf = some (.ok entropy, dev')) :
    Checked Health.addBit (samplesOf inBuf length) (infnoiseHealthClearEntropy dev.health)
        dev'.health ∧
      Packed (fun k => (sampleAt inBuf k).bit) dev'.outBuf length ∧
      entropy = dev'.health.entropyLevel := by
  rw [infnoiseExtractBytes, Option.map_eq_some_iff] at h
  obtain ⟨⟨ok, outBuf, health⟩, hloop, heq⟩ := h
  cases ok
  · cases heq
  · cases heq
    rw [extractByte_eq] at hloop
    obtain ⟨hchecked, hpacked⟩ := checked_pack hloop
    exact ⟨hchecked, hpacked, rfl⟩

/-- Samples that all pass let the extraction succeed. -/
lemma infnoiseExtractBytes_of_checked {dev : Device} {length : ℕ} {inBuf : ℕ → Byte} {h : Health}
    (hchecked : Checked Health.addBit (samplesOf inBuf length)
      (infnoiseHealthClearEntropy dev.health) h) :
    ∃ outBuf, infnoiseExtractBytes dev length inBuf =
      some (.ok h.entropyLevel, { dev with outBuf, health := h }) := by
  obtain ⟨outBuf, hloop⟩ := pack_of_checked dev.outBuf hchecked
  refine ⟨outBuf, ?_⟩
  rw [infnoiseExtractBytes, extractByte_eq, hloop]
  rfl

/-! ### The entropy level -/

/-- A call that passes adds the bits of entropy it counts to the level, once the data may be
used. -/
lemma Health.Passed.level {h h' : Health} {x : Sample} (hp : h.Passed x h')
    (hlt : h.entropyLevel + h.bitsCounted x < 4294967296) :
    h'.entropyLevel = h.entropyLevel + if h.okToUse then h.bitsCounted x else 0 := by
  obtain ⟨_, _, _, _, hcheck⟩ := h.check_eq x
  have hlevel : ((h.check x).2.updateProb x.bit x.even).entropyLevel = h.entropyLevel := by
    rw [updateProb_eq, hcheck]
    rfl
  have hok : ((h.check x).2.updateProb x.bit x.even).okToUse = h.okToUse := by
    rw [updateProb_eq, hcheck]
    rfl
  rw [hp.eq_finishBit, finishBit_level, countBit_iterate_level _ _ (by rwa [hlevel]), hlevel, hok]

/-- No sample is worth more than 15 bits. -/
lemma level_of_checked {h h' : Health} {xs : List Sample} (hinv : h.Inv)
    (hchecked : Checked Health.addBit xs h h')
    (hlt : h.entropyLevel + 15 * xs.length < 4294967296) :
    h'.Inv ∧ h'.entropyLevel ≤ h.entropyLevel + 15 * xs.length := by
  induction xs generalizing h with
  | nil =>
    obtain rfl := Checked.nil_iff.mp hchecked
    exact ⟨hinv, Nat.le_add_right _ _⟩
  | cons x xs ih =>
    obtain ⟨h₁, hadd, hrest⟩ := Checked.cons_iff.mp hchecked
    rw [List.length_cons] at hlt ⊢
    rcases Health.addBit_outcome hinv hadd with ⟨hf, _⟩ | ⟨_, hp⟩
    · cases hf
    · have hcount := hp.bitsCounted_le
      have hlevel := hp.level (by omega)
      have hle : h₁.entropyLevel ≤ h.entropyLevel + 15 := by
        rw [hlevel]
        split <;> omega
      obtain ⟨hinv', hle'⟩ := ih hp.inv hrest (by omega)
      exact ⟨hinv', by omega⟩

end Kernel
