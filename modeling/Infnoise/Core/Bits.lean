import Infnoise.Core.BigEndian
import Infnoise.Core.Buffer
import Infnoise.Core.Chunks
import Infnoise.Core.Packing

/-!
# Bytes as bits

The bits of a byte are listed with the highest first. Bits are put together to bytes, eight at a
time; what is left at the end, fewer than eight bits, makes no byte.
-/

namespace Core

/-- The `k` lowest bits of a byte, the highest of them first. -/
def lowBits (c : Byte) : ℕ → List Bool
  | 0 => []
  | k + 1 => c.getLsbD k :: lowBits c k

@[simp] lemma lowBits_zero (c : Byte) : lowBits c 0 = [] := rfl

@[simp] lemma lowBits_succ (c : Byte) (k : ℕ) : lowBits c (k + 1) = c.getLsbD k :: lowBits c k :=
  rfl

@[simp] lemma length_lowBits (c : Byte) (k : ℕ) : (lowBits c k).length = k := by
  induction k with
  | zero => rfl
  | succ k ih => simp [ih]

/-- A bit is shifted in. -/
lemma lowBits_shiftIn (c : Byte) (bit : Bool) {k : ℕ} (hk : k < 8) :
    lowBits ((c <<< 1) ||| (if bit then 1 else 0)) (k + 1) = lowBits c k ++ [bit] := by
  induction k with
  | zero => rw [lowBits_succ, getLsbD_shiftIn c bit hk, if_pos rfl]; rfl
  | succ k ih =>
    rw [lowBits_succ, getLsbD_shiftIn c bit hk, if_neg (Nat.succ_ne_zero k), ih (by omega)]
    rfl

def byteBits (c : Byte) : List Bool := lowBits c 8

@[simp] lemma length_byteBits (c : Byte) : (byteBits c).length = 8 := length_lowBits c 8

/-- The bits of a list of bytes. -/
def bitsOf (l : List Byte) : List Bool := l.flatMap byteBits

@[simp] lemma bitsOf_nil : bitsOf [] = [] := rfl

@[simp] lemma bitsOf_cons (c : Byte) (l : List Byte) : bitsOf (c :: l) = byteBits c ++ bitsOf l :=
  rfl

@[simp] lemma bitsOf_append (l l' : List Byte) : bitsOf (l ++ l') = bitsOf l ++ bitsOf l' :=
  List.flatMap_append

@[simp] lemma length_bitsOf (l : List Byte) : (bitsOf l).length = 8 * l.length := by
  induction l with
  | nil => rfl
  | cons c l ih =>
    simp [ih]
    omega

/-! ### Bytes from bits -/

def byteOfBits (l : List Bool) : Byte := BitVec.ofNat 8 (bitsValue l)

def bytesOfBits (l : List Bool) : List Byte := (chunks 8 l).map byteOfBits

lemma lowBits_eq_iff (c c' : Byte) (k : ℕ) :
    lowBits c k = lowBits c' k ↔ ∀ j < k, c.getLsbD j = c'.getLsbD j := by
  induction k with
  | zero => simp
  | succ k ih =>
    rw [lowBits_succ, lowBits_succ, List.cons.injEq, ih]
    constructor
    · rintro ⟨hk, hlow⟩ j hj
      rcases Nat.lt_succ_iff_lt_or_eq.mp hj with hlt | rfl
      · exact hlow j hlt
      · exact hk
    · intro h
      exact ⟨h k (Nat.lt_succ_self k), fun j hj => h j (Nat.lt_succ_of_lt hj)⟩

/-- The bits of a byte made of bits. -/
lemma getLsbD_ofNat_bitsValue_cons (bit : Bool) {l : List Bool} {j : ℕ} (hj : j < 8) :
    (BitVec.ofNat 8 (bitsValue (bit :: l))).getLsbD j =
      if j < l.length then (BitVec.ofNat 8 (bitsValue l)).getLsbD j
      else bit.toNat.testBit (j - l.length) := by
  rw [BitVec.getLsbD_ofNat, BitVec.getLsbD_ofNat, bitsValue_cons, Nat.mul_comm,
    Nat.testBit_two_pow_mul_add _ (bitsValue_lt l), decide_eq_true hj, Bool.true_and,
    Bool.true_and]

lemma lowBits_ofNat_bitsValue {l : List Bool} (hl : l.length ≤ 8) :
    lowBits (BitVec.ofNat 8 (bitsValue l)) l.length = l := by
  induction l with
  | nil => rfl
  | cons bit l ih =>
    rw [List.length_cons] at hl ⊢
    have hlow : lowBits (BitVec.ofNat 8 (bitsValue (bit :: l))) l.length = l := by
      refine Eq.trans ?_ (ih (by omega))
      rw [lowBits_eq_iff]
      intro j hj
      rw [getLsbD_ofNat_bitsValue_cons bit (by omega), if_pos hj]
    rw [lowBits_succ, hlow, getLsbD_ofNat_bitsValue_cons bit (by omega),
      if_neg (Nat.lt_irrefl _), Nat.sub_self]
    cases bit <;> rfl

lemma byteBits_byteOfBits {l : List Bool} (hl : l.length = 8) : byteBits (byteOfBits l) = l := by
  have h := lowBits_ofNat_bitsValue hl.le
  rw [hl] at h
  exact h

lemma byteOfBits_byteBits (c : Byte) : byteOfBits (byteBits c) = c := by
  have h := byteBits_byteOfBits (length_byteBits c)
  rw [byteBits, byteBits, lowBits_eq_iff] at h
  exact BitVec.eq_of_getLsbD_eq h

/-- Whole bytes are found again. -/
lemma bytesOfBits_bitsOf_append (l : List Byte) {rest : List Bool} (hrest : rest.length < 8) :
    bytesOfBits (bitsOf l ++ rest) = l := by
  induction l with
  | nil =>
    rw [bitsOf_nil, List.nil_append, bytesOfBits, chunks_of_lt hrest]
    rfl
  | cons c l ih =>
    rw [bytesOfBits, bitsOf_cons, List.append_assoc, chunks_append (by decide) (length_byteBits c),
      List.map_cons, byteOfBits_byteBits]
    exact congrArg _ ih

/-- Bits that make whole bytes are found again. -/
lemma bitsOf_bytesOfBits {l : List Bool} (hl : 8 ∣ l.length) : bitsOf (bytesOfBits l) = l := by
  have hbits : ∀ L : List (List Bool), (∀ c ∈ L, c.length = 8) →
      bitsOf (L.map byteOfBits) = L.flatten := by
    intro L hL
    induction L with
    | nil => rfl
    | cons c L ih =>
      rw [List.map_cons, bitsOf_cons, byteBits_byteOfBits (hL c List.mem_cons_self),
        ih fun d hd => hL d (List.mem_cons_of_mem c hd), List.flatten_cons]
  rw [bytesOfBits, hbits _ fun c hc => length_of_mem_chunks hc, flatten_chunks,
    Nat.div_mul_cancel hl, List.take_length]

end Core
