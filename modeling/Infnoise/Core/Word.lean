import Mathlib.Data.Nat.Bits
import Mathlib.Data.Nat.Bitwise

/-!
# Machine words

A counter of type `uint32_t` or `uint64_t` is a natural number; `u32` and `u64` reduce a result
modulo the width of the word it is stored in. Bytes and lanes, whose bits matter, are bit
vectors.
-/

namespace Core

abbrev Byte := BitVec 8

abbrev Lane := BitVec 64

/-- Narrowing to 32 bits. -/
def u32 (n : ℕ) : ℕ := n % 4294967296

/-- Narrowing to 64 bits. -/
def u64 (n : ℕ) : ℕ := n % 18446744073709551616

lemma u32_of_lt {n : ℕ} (h : n < 4294967296) : u32 n = n := Nat.mod_eq_of_lt h

lemma u64_of_lt {n : ℕ} (h : n < 18446744073709551616) : u64 n = n := Nat.mod_eq_of_lt h

lemma u32_lt (n : ℕ) : u32 n < 4294967296 := Nat.mod_lt _ (by decide)

lemma u32_le (n : ℕ) : u32 n ≤ n := Nat.mod_le _ _

lemma u64_le (n : ℕ) : u64 n ≤ n := Nat.mod_le _ _

/-- Subtraction of unsigned 32-bit words, which wraps when the result is negative. -/
def subU32 (a b : ℕ) : ℕ := u32 (a + (4294967296 - u32 b))

lemma subU32_of_le {a b : ℕ} (hba : b ≤ a) (ha : a < 4294967296) : subU32 a b = a - b := by
  simp only [subU32, u32]
  omega

/-- The first `n` bits of `b`, shifted in one after the other. -/
def packBits (b : ℕ → Bool) : ℕ → Byte
  | 0 => 0
  | n + 1 => (packBits b n <<< 1) ||| (if b n then 1 else 0)

end Core
