import Infnoise.Core.Word
import Mathlib.Logic.Function.Basic

/-!
# Buffers

An allocated block of memory: its size in bytes, and a byte for each index. Reading or writing
outside of it has no result. A bitmap is a buffer with a bit for each number below eight times its
size.
-/

namespace Core

structure Buffer where
  size : ℕ
  byte : ℕ → Byte

namespace Buffer

def calloc (size : ℕ) : Buffer := ⟨size, fun _ => 0⟩

/-- `realloc`, which leaves anything in the part that is new. -/
def realloc (garbage : ℕ → Byte) (b : Buffer) (size : ℕ) : Buffer :=
  ⟨size, fun i => if i < b.size then b.byte i else garbage i⟩

def read (b : Buffer) (i : ℕ) : Option Byte := if i < b.size then some (b.byte i) else none

def write (b : Buffer) (i : ℕ) (v : Byte) : Option Buffer :=
  if i < b.size then some { b with byte := Function.update b.byte i v } else none

def memset (b : Buffer) (v : Byte) (length : ℕ) : Option Buffer :=
  if length ≤ b.size then some { b with byte := fun i => if i < length then v else b.byte i }
  else none

variable {b : Buffer} {i : ℕ}

@[simp] lemma read_of_lt (h : i < b.size) : b.read i = some (b.byte i) := if_pos h

@[simp] lemma read_of_le (h : b.size ≤ i) : b.read i = none := if_neg (Nat.not_lt.mpr h)

@[simp] lemma write_of_lt (h : i < b.size) (v : Byte) :
    b.write i v = some { b with byte := Function.update b.byte i v } := if_pos h

@[simp] lemma memset_of_le {length : ℕ} (h : length ≤ b.size) (v : Byte) :
    b.memset v length = some { b with byte := fun i => if i < length then v else b.byte i } :=
  if_pos h

@[simp] lemma memset_of_lt {length : ℕ} (h : b.size < length) (v : Byte) :
    b.memset v length = none := if_neg (Nat.not_le.mpr h)

end Buffer

/-! ### Bitmaps -/

/-- The bit of `n` in a bitmap. -/
def Buffer.marked (b : Buffer) (n : ℕ) : Bool := (b.byte (n >>> 3)).getLsbD (n &&& 7)

/-- Mark `n`. -/
def Buffer.mark (b : Buffer) (n : ℕ) : Option Buffer := do
  let byte ← b.read (n >>> 3)
  b.write (n >>> 3) (byte ||| ((1 : Byte) <<< (n &&& 7)))

namespace Buffer

lemma low_lt_eight (n : ℕ) : n &&& 7 < 8 := Nat.and_lt_two_pow n (n := 3) (by decide)

/-- The index of a number and the place of its bit there. -/
lemma eq_of_place_eq {m n : ℕ} (hindex : m >>> 3 = n >>> 3) (hlow : m &&& 7 = n &&& 7) : m = n := by
  rw [Nat.shiftRight_eq_div_pow, Nat.shiftRight_eq_div_pow] at hindex
  rw [show 7 = 2 ^ 3 - 1 from rfl, Nat.and_two_pow_sub_one_eq_mod,
    Nat.and_two_pow_sub_one_eq_mod] at hlow
  rw [← Nat.div_add_mod m (2 ^ 3), hindex, hlow, Nat.div_add_mod]

lemma getLsbD_one_shiftLeft {j k : ℕ} (hj : j < 8) (hk : k < 8) :
    ((1 : Byte) <<< j).getLsbD k = decide (k = j) := by
  have hall : ∀ j < 8, ∀ k < 8, ((1 : Byte) <<< j).getLsbD k = decide (k = j) := by decide
  exact hall j hj k hk

/-- A byte and a mask of one bit. -/
lemma and_mask_ne_zero (byte : Byte) {j : ℕ} (hj : j < 8) :
    byte &&& ((1 : Byte) <<< j) ≠ 0 ↔ byte.getLsbD j = true := by
  constructor
  · intro h
    by_contra hbit
    apply h
    apply BitVec.eq_of_getLsbD_eq
    intro k hk
    rw [BitVec.getLsbD_and, getLsbD_one_shiftLeft hj hk]
    by_cases hkj : k = j
    · rw [hkj, Bool.eq_false_iff.mpr hbit]
      simp
    · simp [hkj]
  · intro hbit h
    have hj' := congrArg (fun v : Byte => v.getLsbD j) h
    simp only [BitVec.getLsbD_and, getLsbD_one_shiftLeft hj hj, hbit] at hj'
    simp at hj'

lemma mark_spec {b : Buffer} {n : ℕ} (h : n >>> 3 < b.size) :
    ∃ b', b.mark n = some b' ∧ b'.size = b.size ∧
      ∀ m, b'.marked m = (decide (m = n) || b.marked m) := by
  refine ⟨{ b with byte := Function.update b.byte (n >>> 3) (b.byte (n >>> 3) |||
    ((1 : Byte) <<< (n &&& 7))) }, by simp [mark, h], rfl, ?_⟩
  intro m
  simp only [marked]
  by_cases hindex : m >>> 3 = n >>> 3
  · rw [hindex, Function.update_self, BitVec.getLsbD_or,
      getLsbD_one_shiftLeft (low_lt_eight n) (low_lt_eight m), Bool.or_comm]
    congr 1
    apply decide_eq_decide.mpr
    constructor
    · intro hlow
      exact eq_of_place_eq hindex hlow
    · intro heq
      rw [heq]
  · rw [Function.update_of_ne hindex]
    have hne : m ≠ n := by
      rintro rfl
      exact hindex rfl
    rw [decide_eq_false hne, Bool.false_or]

end Buffer

end Core
