import Infnoise.Tools.FileBits
import Infnoise.Tools.Substrings

/-!
# The bitmap of the search

`main` allocates a bitmap for substrings of 33 bits, and goes on to 34. The length 34 is reached
just if a substring of 33 bits is found twice.
-/

namespace Tools

open Core

/-- The test finds a repeated substring of `n` bits. -/
def Found (bit : ℕ → Bool) (dataLen n : ℕ) : Prop :=
  ∃ i j, i < j ∧ j + n < dataLen ∧ windowAt bit i n = windowAt bit j n

lemma Found.of_le {bit : ℕ → Bool} {dataLen m n : ℕ} (hmn : m ≤ n) (h : Found bit dataLen n) :
    Found bit dataLen m := by
  obtain ⟨i, j, hij, hj, heq⟩ := h
  exact ⟨i, j, hij, by omega, windowAt_eq_of_le hmn heq⟩

lemma Found.lt {bit : ℕ → Bool} {dataLen n : ℕ} (h : Found bit dataLen n) : n + 1 < dataLen := by
  obtain ⟨i, j, hij, hj, -⟩ := h
  omega

/-- The length 34 needs a bitmap of twice the size. -/
lemma hasSubstringOfLength_34 {data stringsSeen : Buffer} {length dataLen : ℕ}
    (hsize : stringsSeen.size = 1073741824) :
    hasSubstringOfLength 34 data length dataLen stringsSeen = none := by
  have hclear : stringsSeen.memset 0 (u32 (1 <<< (34 - 3))) = none := by
    apply Buffer.memset_of_lt
    rw [hsize]
    decide
  rw [hasSubstringOfLength, hclear]
  rfl

/-- A search that has found all lengths below `len` goes on to the length 34 just if substrings of
33 bits are found. -/
lemma searchLengths_eq_none_iff {data stringsSeen : Buffer} {length : ℕ}
    (hdata : length ≤ data.size) {n len : ℕ} (h4 : 4 ≤ len) (hn : len + n = 34)
    (hlen : len ≤ length) (hsize : stringsSeen.size = 1073741824)
    (hfound : 4 < len → Found (entry data) (u32 length) (len - 1)) :
    searchLengths data length (n + 1) len stringsSeen = none ↔
      Found (entry data) (u32 length) 33 := by
  induction n generalizing len stringsSeen with
  | zero =>
    obtain rfl : len = 34 := hn
    rw [searchLengths, hasSubstringOfLength_34 hsize]
    simp only [true_iff]
    exact hfound (by decide)
  | succ n ih =>
    have hroom : 2 ^ (len - 3) ≤ stringsSeen.size := by
      have hle : 2 ^ (len - 3) ≤ 2 ^ 30 := Nat.pow_le_pow_right (by decide) (by omega)
      rw [hsize]
      exact hle
    obtain ⟨r, seen', htest, hsize', hr⟩ := hasSubstringOfLength_spec hdata
      (show 3 ≤ len by omega) (show len ≤ 33 by omega) hlen (u32_le length) hroom
    rw [searchLengths, htest]
    cases r
    · simp only [reduceCtorEq, false_iff]
      intro h33
      cases hr.mpr (h33.of_le (by omega))
    · have hlong := Found.lt (hr.mp rfl)
      have hle := u32_le length
      exact ih (by omega) (by omega) (by omega) (hsize'.trans hsize) fun _ => hr.mp rfl

/-- Nothing can be read from an empty array. -/
lemma searchLengths_empty {data stringsSeen : Buffer} {length : ℕ} (n : ℕ)
    (hsize : stringsSeen.size = 1073741824) (hempty : length = 0 ∨ data.size = 0) :
    searchLengths data length (n + 1) 4 stringsSeen = none := by
  have hread : readEntry data length 0 = none := by
    rcases hempty with h | h
    · rw [readEntry, h, if_neg (Nat.lt_irrefl 0)]
    · rw [readEntry, Buffer.read_of_le h.le]
      split_ifs <;> rfl
  have hclear : ∃ cleared, stringsSeen.memset 0 (u32 (1 <<< (4 - 3))) = some cleared := by
    refine ⟨_, Buffer.memset_of_le ?_ 0⟩
    rw [hsize]
    decide
  obtain ⟨cleared, hclear⟩ := hclear
  have htest : hasSubstringOfLength 4 data length (u32 length) stringsSeen = none := by
    rw [hasSubstringOfLength, hclear, Option.bind_eq_bind, Option.bind_some, firstWindow,
      shiftEntry, hread]
    rfl
  rw [searchLengths, htest]

/-- What the search reads at place `i`: the bit of the file, or what `realloc` has left. -/
def storedBit (garbage : ℕ → Byte) (file : List Byte) (i : ℕ) : Bool :=
  stored garbage file i != 0

lemma Loaded.windowAt_eq {garbage : ℕ → Byte} {file : List Byte} {data : Buffer}
    (h : Loaded garbage file data) {i n : ℕ} (hi : i + n ≤ data.size) :
    windowAt (entry data) i n = windowAt (storedBit garbage file) i n := by
  apply List.map_congr_left
  intro k hk
  rw [List.mem_range'_1] at hk
  rw [entry, storedBit, h.byte_eq k (by omega)]

lemma Loaded.found_iff {garbage : ℕ → Byte} {file : List Byte} {data : Buffer}
    (h : Loaded garbage file data) {dataLen n : ℕ} (hdata : dataLen ≤ data.size) :
    Found (entry data) dataLen n ↔ Found (storedBit garbage file) dataLen n := by
  constructor
  · rintro ⟨i, j, hij, hj, heq⟩
    rw [h.windowAt_eq (by omega), h.windowAt_eq (by omega)] at heq
    exact ⟨i, j, hij, hj, heq⟩
  · rintro ⟨i, j, hij, hj, heq⟩
    rw [← h.windowAt_eq (by omega), ← h.windowAt_eq (by omega)] at heq
    exact ⟨i, j, hij, hj, heq⟩

/-- The program accesses no memory outside of its arrays just if the file is neither empty nor too
long to be read, and no two substrings of 33 bits, both before the last bit, are equal. -/
theorem findlongest_inside_iff (garbage : ℕ → Byte) (file : List Byte) :
    findlongest garbage file ≠ none ↔
      file ≠ [] ∧ file.length < 1152921504606846976 ∧
        ¬ Found (storedBit garbage file) (u32 (8 * file.length)) 33 := by
  have hcalloc : (Buffer.calloc (u64 (1 <<< (maxStringSize - 4)))).size = 1073741824 := by decide
  rcases hread : readDataFromFile garbage file with _ | ⟨data, length⟩
  · have hlen : ¬ file.length < 1152921504606846976 := by
      intro hlen
      obtain ⟨data, hread', -⟩ := readDataFromFile_loaded garbage hlen
      rw [hread] at hread'
      cases hread'
    simp [findlongest, hread, hlen]
  · have hmain : findlongest garbage file =
        searchLengths data length 31 4 (.calloc (u64 (1 <<< (maxStringSize - 4)))) := by
      rw [findlongest, hread]
      rfl
    rw [hmain]
    by_cases hlen : file.length < 1152921504606846976
    · obtain ⟨data', hread', hloaded⟩ := readDataFromFile_loaded garbage hlen
      rw [hread] at hread'
      cases hread'
      have hsize := hloaded.length_lt
      by_cases hempty : file = []
      · have hzero : 8 * file.length = 0 ∨ data.size = 0 := by simp [hempty]
        have hnone := searchLengths_empty 30 hcalloc hzero
        rw [hnone]
        simp [hempty]
      · have hpos := List.length_pos_iff.mpr hempty
        have hdataLen : u32 (8 * file.length) ≤ data.size := (u32_le _).trans hsize.le
        have hsearch := searchLengths_eq_none_iff (n := 30) hsize.le le_rfl rfl (by omega) hcalloc
          (fun hf => absurd hf (Nat.lt_irrefl 4))
        rw [Ne, hsearch, hloaded.found_iff hdataLen]
        simp [hempty, hlen]
    · have hwraps := readBytes_wraps (Loaded.nil garbage) (by simp) (by simpa using hlen) hread
      have hempty : length = 0 ∨ data.size = 0 := .inr hwraps
      have hnone := searchLengths_empty 30 hcalloc hempty
      rw [hnone]
      simp [hlen]

/-- On five zero bytes the bitmap is cleared beyond its end. -/
theorem findlongest_overruns : findlongest (fun _ => 0) (List.replicate 5 0) = none := by
  decide

end Tools
