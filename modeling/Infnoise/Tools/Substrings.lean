import Infnoise.Tools.FindLongest

/-!
# Repeated substrings

`hasSubstringOfLength` tests a window and marks it before it shifts in the next bit. The window that
ends with the last bit is never tested.
-/

namespace Tools

open Core

/-- Two substrings of length `n`, at different places among the first `d` bits, are equal. -/
def Repeats (bit : ℕ → Bool) (n d : ℕ) : Prop :=
  ∃ i j, i < j ∧ j + n ≤ d ∧ windowAt bit i n = windowAt bit j n

/-- Entry `i` of an array. -/
def entry (data : Buffer) (i : ℕ) : Bool := data.byte i != 0

/-! ### The loops -/

section

variable {data stringsSeen : Buffer} {length : ℕ} (hdata : length ≤ data.size)

include hdata

lemma shiftEntry_eq {i value : ℕ} (hi : i < length) (hvalue : value < 9223372036854775808) :
    shiftEntry data length i value = some (value * 2 + (entry data i).toNat) := by
  rw [shiftEntry, readEntry, if_pos hi, Buffer.read_of_lt (by omega)]
  exact congrArg some (u64_shiftLeft_or hvalue (entry data i))

/-- The first loop computes the first window. -/
lemma firstWindow_eq {n i : ℕ} (hn : i + n ≤ length) (h63 : i + n ≤ 63) :
    firstWindow data length n i (bitsValue (windowAt (entry data) 0 i)) =
      some (bitsValue (windowAt (entry data) 0 (i + n))) := by
  induction n generalizing i with
  | zero => rfl
  | succ n ih =>
    have hlt := bitsValue_windowAt_lt (entry data) 0 i
    have hpow : 2 ^ i ≤ 2 ^ 63 := Nat.pow_le_pow_right (by decide) (by omega)
    rw [firstWindow, shiftEntry_eq hdata (by omega) (by omega), Option.bind_some]
    have hnext : bitsValue (windowAt (entry data) 0 i) * 2 + (entry data i).toNat =
        bitsValue (windowAt (entry data) 0 (i + 1)) := by
      rw [windowAt_concat, bitsValue_concat, Nat.zero_add]
    rw [hnext, ih (by omega) (by omega)]
    congr 3
    omega

end

lemma index_lt {n v : ℕ} (hn : 3 ≤ n) (hv : v < 2 ^ n) : v >>> 3 < 2 ^ (n - 3) := by
  rw [Nat.shiftRight_eq_div_pow, Nat.div_lt_iff_lt_mul (by decide), ← pow_add,
    Nat.sub_add_cancel hn]
  exact hv

/-- The bitmap holds the first `m` windows. -/
structure Seen (data : Buffer) (n m : ℕ) (stringsSeen : Buffer) : Prop where
  size_le : 2 ^ (n - 3) ≤ stringsSeen.size
  marked_iff : ∀ v < 2 ^ n, stringsSeen.marked v = true ↔
    ∃ k < m, bitsValue (windowAt (entry data) k n) = v

section

variable {data stringsSeen : Buffer} {length n : ℕ} (hdata : length ≤ data.size)

/-- A bitmap that has been cleared. -/
lemma Seen.memset (data : Buffer) (hn : 3 ≤ n) (h33 : n ≤ 33)
    (hsize : 2 ^ (n - 3) ≤ stringsSeen.size) :
    ∃ cleared, stringsSeen.memset 0 (u32 (1 <<< (n - 3))) = some cleared ∧
      cleared.size = stringsSeen.size ∧ Seen data n 0 cleared := by
  have hlength : u32 (1 <<< (n - 3)) = 2 ^ (n - 3) := by
    have hlt : 2 ^ (n - 3) < 2 ^ 32 := Nat.pow_lt_pow_right Nat.one_lt_two (by omega)
    rw [Nat.shiftLeft_eq, Nat.one_mul, u32_of_lt hlt]
  rw [hlength, Buffer.memset_of_le hsize]
  refine ⟨_, rfl, rfl, hsize, fun v hv => ?_⟩
  simp [Buffer.marked, index_lt hn hv]

/-- A window that is new is marked. -/
lemma Seen.mark {m : ℕ} (hn : 3 ≤ n) (h : Seen data n m stringsSeen) :
    ∃ marked, stringsSeen.mark (bitsValue (windowAt (entry data) m n)) = some marked ∧
      marked.size = stringsSeen.size ∧ Seen data n (m + 1) marked := by
  have hsize := h.size_le
  have hindex := index_lt hn (bitsValue_windowAt_lt (entry data) m n)
  obtain ⟨marked, hmark, hsize', hmarked⟩ := Buffer.mark_spec (lt_of_lt_of_le hindex hsize)
  refine ⟨marked, hmark, hsize', by omega, fun v hv => ?_⟩
  rw [hmarked, Bool.or_eq_true, decide_eq_true_eq, h.marked_iff v hv]
  constructor
  · rintro (rfl | ⟨k, hk, hv⟩)
    · exact ⟨m, Nat.lt_succ_self m, rfl⟩
    · exact ⟨k, Nat.lt_succ_of_lt hk, hv⟩
  · rintro ⟨k, hk, hv⟩
    rcases Nat.lt_succ_iff_lt_or_eq.mp hk with hlt | rfl
    · exact .inr ⟨k, hlt, hv⟩
    · exact .inl hv.symm

include hdata

/-- The next value is that of the next window. -/
lemma shiftEntry_window {m : ℕ} (hn : 0 < n) (h33 : n ≤ 33) (hlen : n + m < length) :
    ∃ value, shiftEntry data length (n + m) (bitsValue (windowAt (entry data) m n)) = some value ∧
      value &&& (u64 (1 <<< n) - 1) = bitsValue (windowAt (entry data) (m + 1) n) := by
  have hlt := bitsValue_windowAt_lt (entry data) m n
  have hpow : 2 ^ n ≤ 2 ^ 33 := Nat.pow_le_pow_right (by decide) h33
  have hmask : u64 (1 <<< n) = 2 ^ n := by
    rw [Nat.shiftLeft_eq, Nat.one_mul, u64_of_lt (by omega)]
  refine ⟨_, shiftEntry_eq hdata hlen (by omega), ?_⟩
  rw [hmask, Nat.and_two_pow_sub_one_eq_mod, Nat.add_comm n m, windowAt_slide _ _ hn]

/-- The second loop finds a window that is equal to an earlier one. -/
lemma scanWindows_spec {m : ℕ} (rounds : ℕ) (hn : 3 ≤ n) (h33 : n ≤ 33)
    (hlen : n + m + rounds ≤ length) (h : Seen data n m stringsSeen) :
    ∃ r seen', scanWindows n data length rounds (n + m)
        (bitsValue (windowAt (entry data) m n)) stringsSeen = some (r, seen') ∧
      seen'.size = stringsSeen.size ∧
      (r = true ↔ ∃ i j, i < j ∧ m ≤ j ∧ j < m + rounds ∧
        windowAt (entry data) i n = windowAt (entry data) j n) := by
  induction rounds generalizing m stringsSeen with
  | zero =>
    refine ⟨false, stringsSeen, rfl, rfl, ?_⟩
    constructor
    · intro hf
      cases hf
    · rintro ⟨i, j, -, hj, hj', -⟩
      omega
  | succ rounds ih =>
    have hv := bitsValue_windowAt_lt (entry data) m n
    have hindex := index_lt hn hv
    have hsize := h.size_le
    have hmarked := h.marked_iff _ hv
    have htest := Buffer.and_mask_ne_zero
      (stringsSeen.byte (bitsValue (windowAt (entry data) m n) >>> 3))
      (Buffer.low_lt_eight (bitsValue (windowAt (entry data) m n)))
    rw [scanWindows, Buffer.read_of_lt (lt_of_lt_of_le hindex hsize), Option.bind_eq_bind,
      Option.bind_some]
    by_cases hseen : stringsSeen.marked (bitsValue (windowAt (entry data) m n)) = true
    · rw [if_pos (htest.mpr hseen)]
      refine ⟨true, stringsSeen, rfl, rfl, ?_⟩
      obtain ⟨k, hk, heq⟩ := hmarked.mp hseen
      simp only [true_iff]
      exact ⟨k, m, hk, le_rfl, by omega, (bitsValue_windowAt_inj _ _ _ _).mp heq⟩
    · rw [if_neg (fun hf => hseen (htest.mp hf))]
      obtain ⟨marked, hmark, hsize', h'⟩ := h.mark hn
      obtain ⟨value, hvalue, hnext⟩ := shiftEntry_window hdata (m := m) (n := n) (by omega) h33
        (by omega)
      obtain ⟨r, seen', hscan, hsize'', hr⟩ := ih (m := m + 1) (by omega) h'
      refine ⟨r, seen', ?_, hsize''.trans hsize', ?_⟩
      · rw [hmark, Option.bind_eq_bind, Option.bind_some, hvalue, Option.bind_eq_bind,
          Option.bind_some, hnext]
        exact hscan
      · rw [hr]
        constructor
        · rintro ⟨i, j, hij, hj, hj', heq⟩
          exact ⟨i, j, hij, by omega, by omega, heq⟩
        · rintro ⟨i, j, hij, hj, hj', heq⟩
          rcases Nat.lt_or_eq_of_le hj with hlt | rfl
          · exact ⟨i, j, hij, hlt, by omega, heq⟩
          · exact absurd (hmarked.mpr ⟨i, hij, (bitsValue_windowAt_inj _ _ _ _).mpr heq⟩) hseen

/-- It is tested whether a window is equal to an earlier one, for all windows but the last. -/
lemma hasSubstringOfLength_spec {dataLen : ℕ} (hn : 3 ≤ n) (h33 : n ≤ 33) (hlen : n ≤ length)
    (hdataLen : dataLen ≤ length) (hsize : 2 ^ (n - 3) ≤ stringsSeen.size) :
    ∃ r seen', hasSubstringOfLength n data length dataLen stringsSeen = some (r, seen') ∧
      seen'.size = stringsSeen.size ∧ (r = true ↔ ∃ i j, i < j ∧ j + n < dataLen ∧
        windowAt (entry data) i n = windowAt (entry data) j n) := by
  obtain ⟨cleared, hclear, hsize', h⟩ := Seen.memset data hn h33 hsize
  have hfirst := firstWindow_eq hdata (n := n) (i := 0) (by omega) (by omega)
  rw [Nat.zero_add] at hfirst
  obtain ⟨r, seen', hscan, hsize'', hr⟩ := scanWindows_spec hdata (dataLen - n) hn h33 (by omega) h
  refine ⟨r, seen', ?_, hsize''.trans hsize', ?_⟩
  · rw [hasSubstringOfLength, hclear, Option.bind_eq_bind, Option.bind_some]
    have hfirst' : firstWindow data length n 0 0 =
        some (bitsValue (windowAt (entry data) 0 n)) := hfirst
    rw [hfirst', Option.bind_eq_bind, Option.bind_some]
    exact hscan
  · rw [hr]
    constructor
    · rintro ⟨i, j, hij, -, hj, heq⟩
      exact ⟨i, j, hij, by omega, heq⟩
    · rintro ⟨i, j, hij, hj, heq⟩
      exact ⟨i, j, hij, Nat.zero_le j, by omega, heq⟩

end

/-! ### The test -/

/-- The test returns, and its result is whether a substring is repeated. -/
def TestExact (substringLen : ℕ) (data : Buffer) (dataLen : ℕ) (stringsSeen : Buffer) : Prop :=
  ∃ r seen', hasSubstringOfLength substringLen data dataLen dataLen stringsSeen = some (r, seen') ∧
    (r = true ↔ Repeats (entry data) substringLen dataLen)

/-- The test is exact just if the last window is new, or two windows before it are equal. -/
theorem hasSubstringOfLength_exact_iff {substringLen dataLen : ℕ} {data stringsSeen : Buffer}
    (h4 : 4 ≤ substringLen) (h33 : substringLen ≤ 33) (hlen : substringLen ≤ dataLen)
    (hdata : dataLen ≤ data.size) (hseen : 2 ^ (substringLen - 3) ≤ stringsSeen.size) :
    TestExact substringLen data dataLen stringsSeen ↔
      (∀ i < dataLen - substringLen, windowAt (entry data) i substringLen ≠
        windowAt (entry data) (dataLen - substringLen) substringLen) ∨
      ∃ i j, i < j ∧ j < dataLen - substringLen ∧
        windowAt (entry data) i substringLen = windowAt (entry data) j substringLen := by
  obtain ⟨r, seen', htest, -, hr⟩ :=
    hasSubstringOfLength_spec hdata (show 3 ≤ substringLen by omega)
    h33 hlen le_rfl hseen
  constructor
  · rintro ⟨r', seen'', htest', hr'⟩
    rw [htest] at htest'
    cases htest'
    by_cases hlast : ∀ i < dataLen - substringLen, windowAt (entry data) i substringLen ≠
        windowAt (entry data) (dataLen - substringLen) substringLen
    · exact .inl hlast
    · push Not at hlast
      obtain ⟨i, hi, heq⟩ := hlast
      obtain ⟨i', j', hij, hj, heq'⟩ := hr.mp (hr'.mpr ⟨i, _, hi, by omega, heq⟩)
      exact .inr ⟨i', j', hij, by omega, heq'⟩
  · intro hcond
    refine ⟨r, seen', htest, hr.trans ?_⟩
    constructor
    · rintro ⟨i, j, hij, hj, heq⟩
      exact ⟨i, j, hij, by omega, heq⟩
    · rintro ⟨i, j, hij, hj, heq⟩
      rcases hcond with hlast | ⟨i', j', hij', hj', heq'⟩
      · have hne : j ≠ dataLen - substringLen := by
          rintro rfl
          exact hlast i hij heq
        exact ⟨i, j, hij, by omega, heq⟩
      · exact ⟨i', j', hij', by omega, heq'⟩

/-- In 011001101 the window 0110 comes twice, the second time before the last window. In 011001011
all six windows are different. -/
theorem hasSubstringOfLength_exact_nine :
    (TestExact 4 ⟨9, fun i => if i ∈ [1, 2, 5, 6, 8] then 1 else 0⟩ 9 (.calloc 2) ∧
      (hasSubstringOfLength 4 ⟨9, fun i => if i ∈ [1, 2, 5, 6, 8] then 1 else 0⟩ 9 9
        (.calloc 2)).map Prod.fst = some true) ∧
    TestExact 4 ⟨9, fun i => if i ∈ [1, 2, 5, 7, 8] then 1 else 0⟩ 9 (.calloc 2) ∧
      (hasSubstringOfLength 4 ⟨9, fun i => if i ∈ [1, 2, 5, 7, 8] then 1 else 0⟩ 9 9
        (.calloc 2)).map Prod.fst = some false := by
  have htwice : TestExact 4 ⟨9, fun i => if i ∈ [1, 2, 5, 6, 8] then 1 else 0⟩ 9 (.calloc 2) ↔ _ :=
    hasSubstringOfLength_exact_iff (by decide) (by decide) (by decide) (by decide) (by decide)
  have honce : TestExact 4 ⟨9, fun i => if i ∈ [1, 2, 5, 7, 8] then 1 else 0⟩ 9 (.calloc 2) ↔ _ :=
    hasSubstringOfLength_exact_iff (by decide) (by decide) (by decide) (by decide) (by decide)
  refine ⟨⟨htwice.mpr (.inr ⟨0, 4, by decide, by decide, by decide⟩), by decide⟩,
    honce.mpr (.inl (by decide)), by decide⟩

/-- Five equal bits have two equal substrings of four, and the second one is the last. -/
theorem hasSubstringOfLength_misses_last :
    ¬ TestExact 4 (.calloc 5) 5 (.calloc 1073741824) := by
  rintro ⟨r, seen', htest, hr⟩
  have hfalse : (hasSubstringOfLength 4 (.calloc 5) 5 5 (.calloc 1073741824)).map Prod.fst =
      some false := by rfl
  rw [htest] at hfalse
  cases hfalse
  cases hr.mpr ⟨0, 1, by decide, by decide, rfl⟩

end Tools
