import Infnoise.Kernel.Extraction
import Infnoise.Userspace.HealthAgreement
import Infnoise.Userspace.Library

/-!
# What a successful extraction of the library has done

`extractBytes` gives the samples of a buffer to the health checker one after the other, as
`infnoise_extract_bytes` does. When none fails, the bytes hold the bits that were checked.
-/

namespace Userspace

open Core
open Kernel (sampleAt samplesOf)

/-! ### The health checker -/

lemma HealthState.finishBit_observed (hc : HealthState) (bit even : Bool) :
    (hc.finishBit bit even).prevBit = hc.prevBit ∧
      (hc.finishBit bit even).totalBits = hc.totalBits := by
  obtain ⟨_, _, _, _, _, _, _, _, _, _, hframe⟩ := hc.finishBit_frame bit even
  rw [hframe]
  exact ⟨rfl, rfl⟩

/-- A call remembers the bit that it selects, and counts it. -/
lemma HealthState.addBit_observed {hc hc' : HealthState} {x : Kernel.Sample} {ok : Bool}
    (hadd : hc.addBit x = some (ok, hc')) :
    hc'.prevBit = x.bit ∧ hc'.totalBits = u64 (hc.totalBits + 1) := by
  have hcheck : ((hc.observe x.evenBit x.oddBit x.even).checkStuck x.bit).2.prevBit = x.bit ∧
      ((hc.observe x.evenBit x.oddBit x.even).checkStuck x.bit).2.totalBits =
        u64 (hc.totalBits + 1) := by
    obtain ⟨_, _, _, _, heq⟩ := (hc.observe x.evenBit x.oddBit x.even).checkStuck_eq x.bit
    rw [heq]
    exact ⟨rfl, rfl⟩
  rcases inmHealthCheckAddBit_returned hadd with ⟨-, -, rfl⟩ | ⟨-, -, hc₁, hloop, rfl⟩
  · exact hcheck
  · obtain ⟨k, rfl⟩ := doublingLoop_iterate hloop
    rw [(finishBit_observed _ _ _).1, (finishBit_observed _ _ _).2, countBit_iterate, enterLoop,
      updateProbability_eq]
    exact hcheck

lemma HealthState.addBit_prevBit {hc hc' : HealthState} {x : Kernel.Sample} {ok : Bool}
    (hadd : hc.addBit x = some (ok, hc')) : hc'.prevBit = x.bit :=
  (addBit_observed hadd).1

/-! ### The samples -/

lemma extractBit_eq (inBuf : ℕ → Byte) :
    extractBit inBuf =
      packBit HealthState.addBit (sampleAt inBuf) fun k => (sampleAt inBuf k).bit := by
  funext i j s
  have hparity : (i * 8 + j) % 2 = j % 2 := by omega
  simp only [packBit, HealthState.addBit, sampleAt, Kernel.Sample.bit, hparity]
  rfl

lemma extractByte_eq (inBuf : ℕ → Byte) :
    extractByte inBuf =
      packByte HealthState.addBit (sampleAt inBuf) fun k => (sampleAt inBuf k).bit := by
  funext i s
  rw [extractByte, extractBit_eq, packByte]

/-- An extraction that succeeds has checked every sample, packed the bits and recorded the entropy
level. -/
lemma extractBytes_checked {context context' : Context} {bytes bytes' inBuf : ℕ → Byte}
    {length : ℕ} (h : extractBytes context bytes length inBuf = some (true, bytes', context')) :
    Checked HealthState.addBit (samplesOf inBuf length) (inmClearEntropyLevel context.health)
        context'.health ∧
      Packed (fun k => (sampleAt inBuf k).bit) bytes' length := by
  rw [extractBytes, Option.map_eq_some_iff] at h
  obtain ⟨⟨ok, bytes₁, health⟩, hloop, heq⟩ := h
  cases ok
  · cases heq
  · cases heq
    rw [extractByte_eq] at hloop
    exact checked_pack hloop

/-- Samples that all pass let the extraction succeed. -/
lemma extractBytes_of_checked {context : Context} {length : ℕ} {inBuf : ℕ → Byte}
    {hc : HealthState} (bytes : ℕ → Byte) (hchecked : Checked HealthState.addBit
      (samplesOf inBuf length) (inmClearEntropyLevel context.health) hc) :
    ∃ bytes', extractBytes context bytes length inBuf = some (true, bytes',
      { context with health := hc, entropyThisTime := inmGetEntropyLevel hc }) := by
  obtain ⟨bytes', hloop⟩ := pack_of_checked bytes hchecked
  refine ⟨bytes', ?_⟩
  rw [extractBytes, extractByte_eq, hloop]
  rfl

/-- Bytes that hold the bits of the samples hold the bits that the calls of a checker observed. -/
lemma bitsOfBytes_observed {σ : Type*} {add : σ → Kernel.Sample → Option (Bool × σ)}
    {prevBit : σ → Bool} (hadd : ∀ s x ok t, add s x = some (ok, t) → prevBit t = x.bit)
    {s t : σ} {cs : List (Call σ Kernel.Sample Bool)} {bytes inBuf : ℕ → Byte} {length : ℕ}
    (hrun : Run add s cs t) (hin : cs.map Call.input = samplesOf inBuf length)
    (hpacked : Packed (fun k => (sampleAt inBuf k).bit) bytes length) :
    bitsOfBytes bytes length = cs.map fun c => prevBit c.after := by
  rw [hrun.map_after hadd, hin, hpacked.bitsOfBytes_eq, samplesOf, List.map_map]
  rfl

end Userspace
