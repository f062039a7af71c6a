import Mathlib.Data.Nat.Digits.Lemmas
import Infnoise.Core.Word

/-!
# Numbers read from their first digit on

`bigEndian b l` is the number with the digits `l` in base `b`, the highest first. Digits are shifted
in at its low end. `bitsValue` is the case of bits.
-/

namespace Core

def bigEndian (b : ℕ) (l : List ℕ) : ℕ := Nat.ofDigits b l.reverse

@[simp] lemma bigEndian_singleton (b d : ℕ) : bigEndian b [d] = d := by
  simp [bigEndian]

lemma bigEndian_append (b : ℕ) (l l' : List ℕ) :
    bigEndian b (l ++ l') = bigEndian b l * b ^ l'.length + bigEndian b l' := by
  rw [bigEndian, List.reverse_append, Nat.ofDigits_append, List.length_reverse, Nat.add_comm,
    Nat.mul_comm]
  rfl

lemma bigEndian_concat (b : ℕ) (l : List ℕ) (d : ℕ) :
    bigEndian b (l ++ [d]) = bigEndian b l * b + d := by
  simp [bigEndian_append]

lemma bigEndian_cons (b d : ℕ) (l : List ℕ) :
    bigEndian b (d :: l) = d * b ^ l.length + bigEndian b l := by
  rw [← List.singleton_append, bigEndian_append, bigEndian_singleton]

lemma bigEndian_lt {b : ℕ} (hb : 1 < b) {l : List ℕ} (hl : ∀ d ∈ l, d < b) :
    bigEndian b l < b ^ l.length := by
  rw [← List.length_reverse]
  apply Nat.ofDigits_lt_base_pow_length hb
  intro d hd
  exact hl d (List.mem_reverse.mp hd)

/-- Numbers of the same length are equal just if their digits are. -/
lemma bigEndian_inj {b : ℕ} (hb : 1 < b) {l l' : List ℕ} (hlen : l.length = l'.length)
    (hl : ∀ d ∈ l, d < b) (hl' : ∀ d ∈ l', d < b) : bigEndian b l = bigEndian b l' ↔ l = l' := by
  constructor
  · intro h
    apply List.reverse_injective
    apply Nat.ofDigits_inj_of_len_eq hb (by simpa using hlen)
    · intro d hd
      exact hl d (List.mem_reverse.mp hd)
    · intro d hd
      exact hl' d (List.mem_reverse.mp hd)
    · exact h
  · intro h
    rw [h]

/-- A digit is shifted in. -/
lemma shiftLeft_or {k d : ℕ} (hd : d < 2 ^ k) (v : ℕ) : (v <<< k) ||| d = v * 2 ^ k + d := by
  rw [← Nat.shiftLeft_add_eq_or_of_lt hd, Nat.shiftLeft_eq]

/-- A bit is shifted into a value of less than 64 bits. -/
lemma u64_shiftLeft_or {v : ℕ} (hv : v < 9223372036854775808) (bit : Bool) :
    u64 (v <<< 1) ||| bit.toNat = v * 2 + bit.toNat := by
  have hshift : u64 (v <<< 1) = v <<< 1 := by
    apply u64_of_lt
    rw [Nat.shiftLeft_eq]
    omega
  rw [hshift]
  exact shiftLeft_or (k := 1) (Bool.toNat_lt bit) v

/-! ### Bits -/

def bitsValue (l : List Bool) : ℕ := bigEndian 2 (l.map Bool.toNat)

lemma bitsValue_concat (l : List Bool) (bit : Bool) :
    bitsValue (l ++ [bit]) = bitsValue l * 2 + bit.toNat := by
  rw [bitsValue, List.map_append, List.map_singleton, bigEndian_concat]
  rfl

lemma bitsValue_cons (bit : Bool) (l : List Bool) :
    bitsValue (bit :: l) = bit.toNat * 2 ^ l.length + bitsValue l := by
  rw [bitsValue, List.map_cons, bigEndian_cons, List.length_map]
  rfl

lemma toNat_lt_two {l : List Bool} : ∀ d ∈ l.map Bool.toNat, d < 2 := by
  intro d hd
  obtain ⟨bit, -, rfl⟩ := List.mem_map.mp hd
  exact Bool.toNat_lt bit

lemma bitsValue_lt (l : List Bool) : bitsValue l < 2 ^ l.length := by
  have h := bigEndian_lt Nat.one_lt_two (toNat_lt_two (l := l))
  rwa [List.length_map] at h

lemma bitsValue_inj {l l' : List Bool} (hlen : l.length = l'.length) :
    bitsValue l = bitsValue l' ↔ l = l' := by
  have hinj : Function.Injective Bool.toNat := by decide
  rw [bitsValue, bitsValue, bigEndian_inj Nat.one_lt_two (by simpa using hlen) toNat_lt_two
    toNat_lt_two]
  exact hinj.list_map.eq_iff

/-- The window moves on by one bit. -/
lemma bitsValue_slide (bit bit' : Bool) (l : List Bool) :
    (bitsValue (bit :: l) * 2 + bit'.toNat) % 2 ^ (l.length + 1) = bitsValue (l ++ [bit']) := by
  have hlt := bitsValue_lt (l ++ [bit'])
  rw [List.length_append, List.length_singleton] at hlt
  rw [bitsValue_cons, bitsValue_concat] at *
  have hsplit : (bit.toNat * 2 ^ l.length + bitsValue l) * 2 + bit'.toNat =
      (bitsValue l * 2 + bit'.toNat) + 2 ^ (l.length + 1) * bit.toNat := by
    rw [pow_succ]
    ring
  rw [hsplit, Nat.add_mul_mod_self_left, Nat.mod_eq_of_lt hlt]

/-! ### Windows -/

/-- The bits from place `i` on, `n` of them. -/
def windowAt (bit : ℕ → Bool) (i n : ℕ) : List Bool := (List.range' i n).map bit

@[simp] lemma length_windowAt (bit : ℕ → Bool) (i n : ℕ) : (windowAt bit i n).length = n := by
  simp [windowAt]

lemma windowAt_succ (bit : ℕ → Bool) (i n : ℕ) :
    windowAt bit i (n + 1) = bit i :: windowAt bit (i + 1) n := by
  simp [windowAt, List.range'_succ]

lemma windowAt_concat (bit : ℕ → Bool) (i n : ℕ) :
    windowAt bit i (n + 1) = windowAt bit i n ++ [bit (i + n)] := by
  simp [windowAt, List.range'_1_concat]

lemma bitsValue_windowAt_lt (bit : ℕ → Bool) (i n : ℕ) : bitsValue (windowAt bit i n) < 2 ^ n := by
  have h := bitsValue_lt (windowAt bit i n)
  rwa [length_windowAt] at h

lemma bitsValue_windowAt_inj (bit : ℕ → Bool) (i j n : ℕ) :
    bitsValue (windowAt bit i n) = bitsValue (windowAt bit j n) ↔
      windowAt bit i n = windowAt bit j n :=
  bitsValue_inj (by simp)

/-- Equal windows have equal parts. -/
lemma windowAt_eq_of_le {bit : ℕ → Bool} {i j m n : ℕ} (hmn : m ≤ n)
    (h : windowAt bit i n = windowAt bit j n) : windowAt bit i m = windowAt bit j m := by
  induction n with
  | zero =>
    obtain rfl := Nat.le_zero.mp hmn
    rfl
  | succ n ih =>
    rcases Nat.lt_or_eq_of_le hmn with hlt | rfl
    · rw [windowAt_concat, windowAt_concat] at h
      exact ih (Nat.lt_succ_iff.mp hlt) (List.append_inj' h rfl).1
    · exact h

/-- A window moves on by one bit. -/
lemma windowAt_slide (bit : ℕ → Bool) (i : ℕ) {n : ℕ} (hn : 0 < n) :
    (bitsValue (windowAt bit i n) * 2 + (bit (i + n)).toNat) % 2 ^ n =
      bitsValue (windowAt bit (i + 1) n) := by
  obtain ⟨n, rfl⟩ : ∃ m, n = m + 1 := ⟨n - 1, by omega⟩
  have hslide := bitsValue_slide (bit i) (bit (i + (n + 1))) (windowAt bit (i + 1) n)
  rw [length_windowAt] at hslide
  rw [windowAt_succ, hslide, windowAt_concat, show i + 1 + n = i + (n + 1) by omega]

end Core
