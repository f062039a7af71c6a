import Infnoise.Kernel.Whitening

/-!
# The size of the caller's buffer

`infnoise_read_data` clips the number of bytes it returns to `max_len`, but the sponge is squeezed
in lanes of eight bytes, so a size that is not a multiple of eight can be overrun.
-/

namespace Kernel

open Core

attribute [local irreducible] infnoiseKeccakPermutation infnoiseKeccakAbsorb

/-- The device whose sponge a whitened call squeezes, if it comes to that: bytes are left, or the
transfer brings a block that passes both tests and is absorbed. -/
def squeezeSource (dev : Device) (multiplier : ℕ) (scripts : ℕ → AttemptScript) : Option Device :=
  if !dev.present then none
  else if dev.keccakBytesLeft > 0 then some dev
  else
    match infnoiseUsbTransfer dev scripts with
    | some (.ok entropy, dev') =>
      if infnoiseHealthOk dev'.health && infnoiseHealthEntropyOnTarget entropy infnoiseBuflen then
        some (dev'.absorb multiplier entropy)
      else none
    | _ => none

/-- What a caller with room for `maxLen` bytes is owed. -/
structure RespectsSize (dev : Device) (multiplier : ℕ) (scripts : ℕ → AttemptScript)
    (result : ℕ → Byte) (maxLen : ℕ) (raw : Bool) (r : ReadResult) : Prop where
  frame : ∀ i, maxLen ≤ i → r.result i = result i
  ret_le : ∀ n, r.ret = .ok n → n ≤ maxLen
  raw_data : raw = true → ∀ n, r.ret = .ok n → bufferBytes r.result n = bufferBytes r.dev.outBuf n
  whitened_data : raw = false → ∀ n, r.ret = .ok n → 0 < n →
    ∃ source ∈ squeezeSource dev multiplier scripts,
      bufferBytes r.result n = leadingBytes source.keccak n

/-- The whole lanes that hold the bytes squeezed are within the size. -/
def LanesFit (maxLen left : ℕ) : Prop := 8 ∣ maxLen ∨ 128 ≤ maxLen ∨ 8 * ((left + 7) / 8) ≤ maxLen

variable {dev source : Device} {multiplier : ℕ} {scripts : ℕ → AttemptScript} {result : ℕ → Byte}
  {maxLen : ℕ} {raw : Bool} {r : ReadResult}

lemma lanesFit_iff (maxLen left : ℕ) :
    LanesFit maxLen left ↔ 8 * ((min (min maxLen left) 128 + 7) / 8) ≤ maxLen := by
  rw [LanesFit]
  omega

/-! ### The squeeze -/

lemma squeezeLanes_le (dev : Device) (maxLen : ℕ) : (squeezeSize dev maxLen + 7) / 8 ≤ 25 := by
  have hsize : squeezeSize dev maxLen ≤ 128 := min_le_right _ _
  omega

lemma squeezeLeft_bytes (dev : Device) (result : ℕ → Byte) (maxLen : ℕ) :
    bufferBytes (squeezeLeft dev result maxLen).result (squeezeSize dev maxLen) =
      leadingBytes dev.keccak (squeezeSize dev maxLen) := by
  rw [squeezeLeft_result]
  exact bufferBytes_extract _ _ (min_le_right _ _)

/-- Whatever is in the buffer, a squeeze stays within the size just if its lanes fit. -/
lemma squeezeLeft_frame_iff (dev : Device) (maxLen : ℕ) :
    (∀ result i, maxLen ≤ i → (squeezeLeft dev result maxLen).result i = result i) ↔
      LanesFit maxLen dev.keccakBytesLeft := by
  rw [lanesFit_iff, ← squeezeSize]
  simp only [squeezeLeft_result, infnoiseKeccakExtract_apply _ _ (squeezeLanes_le dev maxLen)]
  constructor
  · intro h
    by_contra hlt
    have hchanged := h (fun _ => dev.keccak[maxLen % 200] + 1) maxLen le_rfl
    rw [if_pos (by omega)] at hchanged
    simp at hchanged
  · intro h result i hi
    rw [if_neg (by omega)]

/-! ### The call -/

lemma squeezeSource_left (hpresent : dev.present = true) (hleft : 0 < dev.keccakBytesLeft) :
    squeezeSource dev multiplier scripts = some dev := by
  simp [squeezeSource, hpresent, hleft]

lemma squeezeSource_absorb {dev' : Device} {entropy : ℕ} (hpresent : dev.present = true)
    (hleft : dev.keccakBytesLeft = 0)
    (htransfer : infnoiseUsbTransfer dev scripts = some (.ok entropy, dev'))
    (hgood : (infnoiseHealthOk dev'.health &&
      infnoiseHealthEntropyOnTarget entropy infnoiseBuflen) = true) :
    squeezeSource dev multiplier scripts = some (dev'.absorb multiplier entropy) := by
  simp only [squeezeSource, hpresent, hleft, htransfer, hgood]
  rfl

/-- A whitened call with something to squeeze squeezes it. -/
lemma infnoiseReadData_of_source (hsource : source ∈ squeezeSource dev multiplier scripts)
    (result : ℕ → Byte) (maxLen : ℕ) :
    ∃ r, infnoiseReadData dev multiplier scripts result maxLen false = some r ∧
      r.result = (squeezeLeft source result maxLen).result := by
  rw [squeezeSource] at hsource
  split at hsource
  · cases hsource
  · rename_i hpresent
    split at hsource
    · rename_i hleft
      cases hsource
      refine ⟨_, ?_, rfl⟩
      rw [infnoiseReadData, if_neg hpresent, if_pos ⟨hleft, rfl⟩]
    · rename_i hleft
      split at hsource
      · rename_i entropy dev' htransfer
        split at hsource
        · rename_i hgood
          rw [Bool.and_eq_true] at hgood
          cases hsource
          exact ⟨_, infnoiseReadData_absorb (by simpa using hpresent) (by omega) htransfer hgood.1
            hgood.2 multiplier result maxLen, rfl⟩
        · cases hsource
      · cases hsource

/-- What a squeeze from `source` owes its caller. -/
lemma RespectsSize.of_source (hsource : source ∈ squeezeSource dev multiplier scripts)
    (hraw : raw = false) (hfit : LanesFit maxLen source.keccakBytesLeft)
    (hret : r.ret = .ok (squeezeSize source maxLen))
    (hresult : r.result = (squeezeLeft source result maxLen).result) :
    RespectsSize dev multiplier scripts result maxLen raw r where
  frame i hi := by
    rw [hresult]
    exact (squeezeLeft_frame_iff source maxLen).mpr hfit result i hi
  ret_le n hn := by
    rw [hret] at hn
    cases hn
    rw [squeezeSize]
    omega
  raw_data h := by
    rw [hraw] at h
    cases h
  whitened_data _ n hn _ := by
    rw [hret] at hn
    cases hn
    exact ⟨source, hsource, hresult ▸ squeezeLeft_bytes source result maxLen⟩

/-- A call that returns no data leaves the buffer alone. -/
lemma RespectsSize.of_unchanged (hresult : r.result = result) (hret : ∀ n, r.ret = .ok n → n = 0) :
    RespectsSize dev multiplier scripts result maxLen raw r where
  frame i _ := by rw [hresult]
  ret_le n hn := by
    rw [hret n hn]
    exact Nat.zero_le maxLen
  raw_data _ n hn := by
    rw [hret n hn]
    rfl
  whitened_data _ n hn hpos := by
    rw [hret n hn] at hpos
    cases hpos

/-- What a raw call owes its caller. -/
lemma RespectsSize.of_raw {n : ℕ} (hraw : raw = true) (hle : n ≤ maxLen) (hret : r.ret = .ok n)
    (hresult : r.result = memcpy result 0 r.dev.outBuf n) :
    RespectsSize dev multiplier scripts result maxLen raw r where
  frame i hi := by
    rw [hresult, memcpy, if_neg (by omega)]
  ret_le m hm := by
    rw [hret] at hm
    cases hm
    exact hle
  raw_data _ m hm := by
    rw [hret] at hm
    cases hm
    rw [hresult]
    refine List.map_congr_left fun k hk => ?_
    rw [List.mem_range] at hk
    exact memcpy_of_lt (Nat.zero_le k) (by omega)
  whitened_data h := by
    rw [hraw] at h
    cases h

/-- Whatever the buffer holds, a call respects its size, just if it is raw, has nothing to squeeze,
or squeezes lanes that fit. -/
theorem infnoiseReadData_respectsSize_iff (dev : Device) (multiplier : ℕ)
    (scripts : ℕ → AttemptScript) (maxLen : ℕ) (raw : Bool) :
    (∀ result r, infnoiseReadData dev multiplier scripts result maxLen raw = some r →
        RespectsSize dev multiplier scripts result maxLen raw r) ↔
      raw = true ∨
        ∀ source ∈ squeezeSource dev multiplier scripts, LanesFit maxLen source.keccakBytesLeft := by
  constructor
  · intro h
    rcases Bool.eq_false_or_eq_true raw with hraw | rfl
    · exact .inl hraw
    · right
      intro source hsource
      rw [← squeezeLeft_frame_iff]
      intro result i hi
      obtain ⟨r, hread, hresult⟩ := infnoiseReadData_of_source hsource result maxLen
      rw [← hresult]
      exact (h result r hread).frame i hi
  · intro h result r hread
    cases infnoiseReadData_step hread with
    | absent hpresent => exact .of_unchanged rfl fun n hn => by cases hn
    | squeezed hpresent hraw hleft =>
      have hsource : dev ∈ squeezeSource dev multiplier scripts :=
        squeezeSource_left hpresent hleft
      have hfit := h.resolve_left (by simp [hraw]) dev hsource
      exact .of_source hsource hraw hfit rfl rfl
    | failed hpresent htransfer => exact .of_unchanged rfl fun n hn => by cases hn
    | rejected hpresent htransfer hbad =>
      refine .of_unchanged rfl fun n hn => ?_
      cases hn
      rfl
    | @rawBlock entropy dev' hpresent htransfer hgood hraw =>
      exact .of_raw hraw (min_le_left _ _) rfl rfl
    | @absorbed entropy dev' hpresent htransfer hgood hraw hleft =>
      have hsource : dev'.absorb multiplier entropy ∈ squeezeSource dev multiplier scripts :=
        squeezeSource_absorb hpresent hleft htransfer hgood
      have hfit := h.resolve_left (by simp [hraw]) _ hsource
      exact .of_source hsource hraw hfit rfl rfl

/-- A device with 192 bytes left of a block, asked for 13 of them, writes 16. -/
theorem infnoiseReadData_overruns :
    ∃ r, infnoiseReadData
        { (infnoiseProbe (fun _ => 0) (fun _ => 0) (fun _ => 0) (fun _ => 0) 10 false).dev with
          keccakBytesLeft := 192 }
        10 (fun _ => ⟨.error .enodev, [], ⟨fun _ => none, none, fun _ => none⟩⟩) (fun _ => 1) 13
        false = some r ∧
      r.ret = .ok 13 ∧ r.result 13 ≠ 1 := by
  refine ⟨_, rfl, rfl, ?_⟩
  rw [squeezeLeft_result, infnoiseKeccakExtract_apply _ _ (squeezeLanes_le _ _)]
  decide

end Kernel
