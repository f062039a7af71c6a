import Infnoise.Tools.BitmapBounds

/-!
# What the search prints

A repeated substring contains shorter ones, so the first length that is not found ends the search.
What is printed is the length of the longest repeated substring, or one less when each of its
repetitions ends with the last bit.
-/

namespace Tools

open Core

/-- A repeated substring is found, at least when its last bit is dropped. -/
lemma Repeats.found {bit : ℕ → Bool} {dataLen n : ℕ} (h : Repeats bit (n + 1) dataLen) :
    Found bit dataLen n := by
  obtain ⟨i, j, hij, hj, heq⟩ := h
  exact ⟨i, j, hij, by omega, windowAt_eq_of_le (Nat.le_succ n) heq⟩

lemma Found.repeats {bit : ℕ → Bool} {dataLen n : ℕ} (h : Found bit dataLen n) :
    Repeats bit n dataLen := by
  obtain ⟨i, j, hij, hj, heq⟩ := h
  exact ⟨i, j, hij, hj.le, heq⟩

/-- A search that has found all lengths below `len`, and stays inside its arrays, ends at the first
length that it does not find. -/
lemma searchLengths_eq_some {data stringsSeen : Buffer} {length : ℕ} (hdata : length ≤ data.size)
    {n len : ℕ} {r : Longest} (h4 : 4 ≤ len) (hn : len + n = 34) (hlen : len ≤ length)
    (hsize : stringsSeen.size = 1073741824)
    (hfound : 4 < len → Found (entry data) (u32 length) (len - 1))
    (h : searchLengths data length (n + 1) len stringsSeen = some r) :
    ∃ longest, r = .maximum longest ∧ 3 ≤ longest ∧ longest ≤ 32 ∧
      ∀ n, 4 ≤ n → (Found (entry data) (u32 length) n ↔ n ≤ longest) := by
  induction n generalizing len stringsSeen with
  | zero =>
    obtain rfl : len = 34 := hn
    rw [searchLengths, hasSubstringOfLength_34 hsize] at h
    cases h
  | succ n ih =>
    have hroom : 2 ^ (len - 3) ≤ stringsSeen.size := by
      have hle : 2 ^ (len - 3) ≤ 2 ^ 30 := Nat.pow_le_pow_right (by decide) (by omega)
      rw [hsize]
      exact hle
    obtain ⟨found, seen', htest, hsize', hr⟩ := hasSubstringOfLength_spec hdata
      (show 3 ≤ len by omega) (show len ≤ 33 by omega) hlen (u32_le length) hroom
    rw [searchLengths, htest] at h
    cases found with
    | false =>
      obtain rfl := Option.some.inj h
      refine ⟨len - 1, rfl, by omega, by omega, fun k hk => ⟨fun hrepeated => ?_, fun hle => ?_⟩⟩
      · by_contra hgt
        cases hr.mpr (hrepeated.of_le (by omega))
      · exact (hfound (by omega)).of_le hle
    | true =>
      have hlong := Found.lt (hr.mp rfl)
      have hle := u32_le length
      have hnext : Found (entry data) (u32 length) (len + 1 - 1) := hr.mp rfl
      exact ih (by omega) (by omega) (by omega) (hsize'.trans hsize) (fun _ => hnext) h

/-- A program that stays inside its arrays has read its file, and searches the array. -/
lemma findlongest_eq_some {garbage : ℕ → Byte} {file : List Byte} {r : Longest}
    (h : findlongest garbage file = some r) :
    file ≠ [] ∧ ∃ data stringsSeen, Loaded garbage file data ∧ stringsSeen.size = 1073741824 ∧
      searchLengths data (8 * file.length) 31 4 stringsSeen = some r := by
  have hcalloc : (Buffer.calloc (u64 (1 <<< (maxStringSize - 4)))).size = 1073741824 := by decide
  obtain ⟨⟨data, length⟩, hread, hsearch⟩ := Option.bind_eq_some_iff.mp h
  change searchLengths data length 31 4 _ = some r at hsearch
  by_cases hlen : file.length < 1152921504606846976
  · obtain ⟨data', hread', hloaded⟩ := readDataFromFile_loaded garbage hlen
    obtain ⟨rfl, rfl⟩ := Prod.mk.inj (Option.some.inj (hread'.symm.trans hread))
    refine ⟨?_, _, _, hloaded, hcalloc, hsearch⟩
    intro hnil
    have hzero : 8 * file.length = 0 := by simp [hnil]
    rw [searchLengths_empty 30 hcalloc (.inl hzero)] at hsearch
    cases hsearch
  · have hwraps := readBytes_wraps (Loaded.nil garbage) (by simp) (by simpa using hlen) hread
    rw [searchLengths_empty 30 hcalloc (.inr hwraps)] at hsearch
    cases hsearch

/-- When the program stays inside its arrays it never prints "at least". The length that it prints,
if it is more than 3, is the length of a repeated substring, and no repeated substring is longer by
more than one bit. The lengths up to it are those of substrings whose repetition ends before the
last bit. -/
theorem findlongest_prints {garbage : ℕ → Byte} {file : List Byte} {r : Longest}
    (h : findlongest garbage file = some r) :
    ∃ longest, r = .maximum longest ∧ 3 ≤ longest ∧ longest ≤ 32 ∧
      (3 < longest → Repeats (storedBit garbage file) longest (u32 (8 * file.length))) ∧
      (∀ n, Repeats (storedBit garbage file) n (u32 (8 * file.length)) → n ≤ longest + 1) ∧
      ∀ n, 4 ≤ n →
        (Found (storedBit garbage file) (u32 (8 * file.length)) n ↔ n ≤ longest) := by
  obtain ⟨hempty, data, stringsSeen, hloaded, hsize, hsearch⟩ := findlongest_eq_some h
  have hpos := List.length_pos_iff.mpr hempty
  have hlength := hloaded.length_lt
  have hdata : u32 (8 * file.length) ≤ data.size := (u32_le _).trans hlength.le
  obtain ⟨longest, rfl, h3, h32, hfound⟩ := searchLengths_eq_some hlength.le le_rfl rfl (by omega)
    hsize (fun hlt => absurd hlt (Nat.lt_irrefl 4)) hsearch
  simp only [hloaded.found_iff hdata] at hfound
  refine ⟨longest, rfl, h3, h32, fun hlt => ?_, fun n hrepeats => ?_, hfound⟩
  · exact ((hfound longest hlt).mpr le_rfl).repeats
  · by_contra hgt
    obtain ⟨n, rfl⟩ : ∃ m, n = m + 1 := ⟨n - 1, by omega⟩
    have hle := (hfound n (by omega)).mp hrepeats.found
    omega

/-- In the eight bits of a zero byte, the seven that repeat end with the last bit. -/
theorem findlongest_prints_zeros :
    findlongest (fun _ => 0) [0] = some (.maximum 6) ∧
      ∃ longest, Longest.maximum 6 = .maximum longest ∧ 3 ≤ longest ∧ longest ≤ 32 ∧
        (3 < longest → Repeats (storedBit (fun _ => 0) [0]) longest (u32 (8 * 1))) ∧
        (∀ n, Repeats (storedBit (fun _ => 0) [0]) n (u32 (8 * 1)) → n ≤ longest + 1) ∧
        ∀ n, 4 ≤ n → (Found (storedBit (fun _ => 0) [0]) (u32 (8 * 1)) n ↔ n ≤ longest) :=
  have h : findlongest (fun _ => 0) [0] = some (.maximum 6) := by decide
  ⟨h, findlongest_prints h⟩

end Tools
