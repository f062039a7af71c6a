import Infnoise.Core.Loop
import Infnoise.Core.Word
import Mathlib.Data.Fin.Basic
import Mathlib.Tactic.FinCases

/-!
# The two Keccak sources

Model of `infnoise_keccak.c`, the port in the kernel driver, and of `KeccakF-1600-reference.c`,
which the userspace programs use. The five steps rewrite an array of 25 lanes in place, in the order
of their loops; a loop counter indexes an array modulo its length, which it never reaches. The round
constants and the rho offsets of the reference are static tables that `KeccakInitialize` fills, and
every step takes them as they stand.

Both sources have two builds. On a big-endian machine they convert the bytes of the state to words
and back; on a little-endian one they work on the bytes in place, as an array of words. Both builds
of both sources compute the functions of the models.
-/

namespace Kernel

open Core

/-- The 25 lanes of a state. -/
abbrev Words := Vector Lane 25

/-- The 200 bytes of a state. -/
abbrev KeccakState := Vector Byte 200

def keccakRounds : ℕ := 24

/-- `KECCAK_INDEX(x, y)`. -/
def keccakIndex (x y : ℕ) : Fin 25 := ⟨x % 5 + 5 * (y % 5), by omega⟩

/-- `keccak_round_constants`. -/
def keccakRoundConstants : Vector Lane 24 :=
  #v[0x0000000000000001, 0x0000000000008082,
    0x800000000000808a, 0x8000000080008000,
    0x000000000000808b, 0x0000000080000001,
    0x8000000080008081, 0x8000000000008009,
    0x000000000000008a, 0x0000000000000088,
    0x0000000080008009, 0x000000008000000a,
    0x000000008000808b, 0x800000000000008b,
    0x8000000000008089, 0x8000000000008003,
    0x8000000000008002, 0x8000000000000080,
    0x000000000000800a, 0x800000008000000a,
    0x8000000080008081, 0x8000000000008080,
    0x0000000080000001, 0x8000000080008008]

/-- `keccak_rho_offsets`. -/
def keccakRhoOffsets : Vector ℕ 25 :=
  #v[0, 1, 62, 28, 27,
    36, 44, 6, 55, 20,
    3, 10, 43, 25, 39,
    41, 45, 15, 21, 8,
    18, 2, 61, 56, 14]

/-- `keccak_rol64`. -/
def keccakRol64 (x : Lane) (n : ℕ) : Lane :=
  let n := n &&& 63
  if n = 0 then x else (x <<< n) ||| (x >>> (64 - n))

def keccakTheta (state : Words) : Words :=
  let c : Vector Lane 5 := .ofFn fun x => forLoop 5 (fun y acc => acc ^^^ state[keccakIndex x y]) 0
  let d : Vector Lane 5 := .ofFn fun x =>
    keccakRol64 (c)[(x.val + 1) % 5] 1 ^^^ (c)[(x.val + 4) % 5]
  forLoop 5 (fun x state => forLoop 5 (fun y state =>
    state.set (keccakIndex x y) (state[keccakIndex x y] ^^^ d[x % 5])) state) state

def keccakRho (state : Words) : Words :=
  forLoop 25 (fun i state =>
    state.set (i % 25) (keccakRol64 state[i % 25] keccakRhoOffsets[i % 25])) state

def keccakPi (state : Words) : Words :=
  let temp := state
  forLoop 5 (fun x state => forLoop 5 (fun y state =>
    state.set (keccakIndex y (2 * x + 3 * y)) temp[keccakIndex x y]) state) state

def keccakChi (state : Words) : Words :=
  forLoop 5 (fun y state =>
    let c : Vector Lane 5 := .ofFn fun x => state[keccakIndex x y] ^^^
      (~~~state[keccakIndex (x + 1) y] &&& state[keccakIndex (x + 2) y])
    forLoop 5 (fun x state => state.set (keccakIndex x y) (c)[x % 5]) state) state

def keccakIota (state : Words) (round : ℕ) : Words :=
  state.set 0 (state[0] ^^^ keccakRoundConstants[round % 24])

def keccakPermutationOnWords (state : Words) : Words :=
  forLoop keccakRounds (fun i state =>
    keccakIota (keccakChi (keccakPi (keccakRho (keccakTheta state)))) i) state

/-- `keccak_bytes_to_words`. -/
def keccakBytesToWords (bytes : KeccakState) : Words :=
  .ofFn fun i => forLoop 8 (fun j word =>
    word ||| (bytes[(i.val * 8 + j) % 200].setWidth 64 <<< (8 * j))) 0

/-- `keccak_words_to_bytes`. -/
def keccakWordsToBytes (words : Words) : KeccakState :=
  .ofFn fun k => ((words[k.val / 8] >>> (8 * (k.val % 8))) &&& 0xFF).setWidth 8

/-- `infnoise_keccak_permutation`. -/
def infnoiseKeccakPermutation (keccak : KeccakState) : KeccakState :=
  keccakWordsToBytes (keccakPermutationOnWords (keccakBytesToWords keccak))

/-- `infnoise_keccak_init`. -/
def infnoiseKeccakInit : KeccakState := .replicate 200 0

/-- `infnoise_keccak_absorb`: XOR whole lanes of `data` into the state and permute. -/
def infnoiseKeccakAbsorb (keccak : KeccakState) (data : ℕ → Byte) (lanes : ℕ) : KeccakState :=
  infnoiseKeccakPermutation
    (.ofFn fun i => if i < lanes * 8 then keccak[i] ^^^ data i else keccak[i])

/-- `infnoise_keccak_extract`: copy whole lanes of the state to the start of `data`. -/
def infnoiseKeccakExtract (keccak : KeccakState) (data : ℕ → Byte) (lanes : ℕ) : ℕ → Byte :=
  memcpy data 0 (fun i => keccak[i % 200]) (min (lanes * 8) 200)

/-- Only the first `n` bytes of `data` are mixed in. -/
lemma xored_congr (keccak : KeccakState) {data data' : ℕ → Byte} {n : ℕ}
    (h : ∀ i < n, data i = data' i) :
    (Vector.ofFn fun i : Fin 200 => if i < n then keccak[i] ^^^ data i else keccak[i]) =
      Vector.ofFn fun i : Fin 200 => if i < n then keccak[i] ^^^ data' i else keccak[i] := by
  congr 1
  funext i
  split
  · rename_i hlt
    rw [h i hlt]
  · rfl

/-- Whole lanes are written, and nothing behind them. -/
lemma infnoiseKeccakExtract_apply (keccak : KeccakState) (data : ℕ → Byte) {lanes : ℕ}
    (hlanes : lanes ≤ 25) (i : ℕ) :
    infnoiseKeccakExtract keccak data lanes i =
      if i < 8 * lanes then keccak[i % 200] else data i := by
  rw [infnoiseKeccakExtract, memcpy, min_eq_left (by omega), Nat.mul_comm lanes 8]
  simp

/-- The first bytes of a state. -/
def leadingBytes (keccak : KeccakState) (n : ℕ) : List Byte :=
  (List.range n).map fun k => keccak[k % 200]

/-! ### Words of the port -/

lemma keccakRol64_getLsbD (x : Lane) (n : ℕ) {i : ℕ} (hi : i < 64) :
    (keccakRol64 x n).getLsbD i = x.getLsbD ((i + 64 - n % 64) % 64) := by
  have hmask : n &&& 63 = n % 64 := Nat.and_two_pow_sub_one_eq_mod n 6
  have hlt : n % 64 < 64 := Nat.mod_lt _ (by decide)
  simp only [keccakRol64, hmask]
  split
  · rename_i hzero
    rw [hzero, Nat.sub_zero, Nat.add_mod_right, Nat.mod_eq_of_lt hi]
  · rw [BitVec.getLsbD_or, BitVec.getLsbD_shiftLeft, BitVec.getLsbD_ushiftRight]
    by_cases hin : i < n % 64
    · rw [Nat.mod_eq_of_lt (show i + 64 - n % 64 < 64 by omega)]
      simp only [hi, hin, decide_true, Bool.not_true, Bool.and_false, Bool.false_or, Bool.false_and]
      congr 1
      omega
    · rw [show i + 64 - n % 64 = i - n % 64 + 64 by omega, Nat.add_mod_right,
        Nat.mod_eq_of_lt (show i - n % 64 < 64 by omega),
        BitVec.getLsbD_of_ge x (64 - n % 64 + i) (by omega)]
      simp [hi, hin]

/-- The bytes of a word, the lowest first. -/
lemma keccakBytesToWords_getLsbD (bytes : KeccakState) (i : Fin 25) {n : ℕ} (hn : n < 64) :
    (keccakBytesToWords bytes)[i].getLsbD n = bytes[(i.val * 8 + n / 8) % 200].getLsbD (n % 8) := by
  have hloop := @forLoop_invariant Lane 8
    (fun j word => word ||| (bytes[(i.val * 8 + j) % 200].setWidth 64 <<< (8 * j))) 0
    (fun m word => ∀ n < 64, word.getLsbD n =
      (decide (n < 8 * m) && bytes[(i.val * 8 + n / 8) % 200].getLsbD (n % 8)))
    (by simp) ?_
  · simp only [keccakBytesToWords, Fin.getElem_fin, Vector.getElem_ofFn, hloop n hn]
    simp [hn]
  · intro m hm word hword n hn
    rw [BitVec.getLsbD_or, hword n hn, BitVec.getLsbD_shiftLeft, BitVec.getLsbD_setWidth]
    rcases Nat.lt_trichotomy (n / 8) m with hlt | heq | hgt
    · simp [show n < 8 * m by omega, show n < 8 * (m + 1) by omega]
    · subst heq
      simp [hn, show ¬ n < 8 * (n / 8) by omega, show n < 8 * (n / 8 + 1) by omega,
        show n - 8 * (n / 8) = n % 8 by omega, show n % 8 < 64 by omega]
    · have hout : ∀ b : Byte, b.getLsbD (n - 8 * m) = false := fun b =>
        BitVec.getLsbD_of_ge b _ (by omega)
      simp [hout, show ¬ n < 8 * m by omega, show ¬ n < 8 * (m + 1) by omega]

lemma keccakWordsToBytes_getLsbD (words : Words) (k : Fin 200) {n : ℕ} (hn : n < 8) :
    (keccakWordsToBytes words)[k].getLsbD n = words[k.val / 8].getLsbD (8 * (k.val % 8) + n) := by
  have hmask : ∀ n < 8, (0xFF : Lane).getLsbD n = true := by decide
  simp only [keccakWordsToBytes, Fin.getElem_fin, Vector.getElem_ofFn, BitVec.getLsbD_setWidth,
    BitVec.getLsbD_and, BitVec.getLsbD_ushiftRight, hmask n hn]
  simp [hn]

/-! ### Lanes of the port -/

/-- States that agree in every lane are equal. -/
lemma words_ext {state state' : Words} (h : ∀ k : Fin 25, state[k] = state'[k]) :
    state = state' := by
  apply Vector.ext
  intro i hi
  exact h ⟨i, hi⟩

lemma words_getElem_congr {state state' : Words} (h : state = state') (k : Fin 25) :
    state[k] = state'[k] := by
  rw [h]

lemma keccakIndex_coords (k : Fin 25) : keccakIndex (k.val % 5) (k.val / 5) = k := by
  apply Fin.ext
  simp only [keccakIndex]
  omega

/-- The lanes in the order of two nested loops are all different. -/
lemma keccakIndex_nested_inj :
    ∀ i < 25, ∀ j < 25, keccakIndex (i / 5) (i % 5) = keccakIndex (j / 5) (j % 5) → i = j := by
  decide

/-- The round of two nested loops that is at a lane. -/
def roundOf (k : Fin 25) : ℕ := 5 * (k.val % 5) + k.val / 5

lemma roundOf_lt (k : Fin 25) : roundOf k < 25 := by
  simp only [roundOf]
  omega

@[simp] lemma roundOf_div (k : Fin 25) : roundOf k / 5 = k.val % 5 := by
  simp only [roundOf]
  omega

@[simp] lemma roundOf_mod (k : Fin 25) : roundOf k % 5 = k.val / 5 := by
  simp only [roundOf]
  omega

/-- `C[x]` of theta. -/
def columnParity (state : Words) (x : ℕ) : Lane :=
  forLoop 5 (fun y acc => acc ^^^ state[keccakIndex x y]) 0

/-- `D[x]` of theta. -/
def thetaEffect (state : Words) (x : ℕ) : Lane :=
  keccakRol64 (columnParity state ((x + 1) % 5)) 1 ^^^ columnParity state ((x + 4) % 5)

lemma columnParity_eq (state : Words) (x : ℕ) : columnParity state x =
    state[keccakIndex x 0] ^^^ state[keccakIndex x 1] ^^^ state[keccakIndex x 2] ^^^
      state[keccakIndex x 3] ^^^ state[keccakIndex x 4] := by
  simp [columnParity, forLoop]

lemma keccakTheta_eq (state : Words) :
    keccakTheta state = forLoop 5 (fun x state' => forLoop 5 (fun y state' =>
      state'.set (keccakIndex x y) (state'[keccakIndex x y] ^^^ thetaEffect state (x % 5)))
        state') state := by
  simp only [keccakTheta, Vector.getElem_ofFn]
  rfl

lemma keccakTheta_getElem (state : Words) (k : Fin 25) :
    (keccakTheta state)[k] = state[k] ^^^ thetaEffect state (k.val % 5) := by
  have hset := (forLoop_set (m := 25) (fun i => keccakIndex (i / 5) (i % 5))
    (fun i lane => lane ^^^ thetaEffect state (i / 5 % 5)) state keccakIndex_nested_inj).1
      (roundOf k) (roundOf_lt k)
  simp only [roundOf_div, roundOf_mod, keccakIndex_coords, Nat.mod_mod] at hset
  rw [← hset, keccakTheta_eq, forLoop_nested 5 (by decide)]

lemma keccakRho_getElem (state : Words) (k : Fin 25) :
    (keccakRho state)[k] = keccakRol64 state[k] keccakRhoOffsets[k] := by
  have hset := (forLoop_set (m := 25) (fun i => (⟨i % 25, by omega⟩ : Fin 25))
    (fun i lane => keccakRol64 lane keccakRhoOffsets[i % 25]) state
    (fun i hi j hj heq => by
      rw [Fin.mk.injEq, Nat.mod_eq_of_lt hi, Nat.mod_eq_of_lt hj] at heq
      exact heq)).1 k k.isLt
  simp only [Fin.getElem_fin, Nat.mod_eq_of_lt k.isLt] at hset
  exact hset

/-- Pi moves the lane at `(x, y)` to `(y, 2x + 3y)`. -/
lemma keccakPi_getElem (state : Words) (k : Fin 25) :
    (keccakPi state)[keccakIndex (k.val / 5) (2 * (k.val % 5) + 3 * (k.val / 5))] = state[k] := by
  have hinj : ∀ i < 25, ∀ j < 25, keccakIndex (i % 5) (2 * (i / 5) + 3 * (i % 5)) =
      keccakIndex (j % 5) (2 * (j / 5) + 3 * (j % 5)) → i = j := by
    decide
  have hset := (forLoop_set (m := 25) (fun i => keccakIndex (i % 5) (2 * (i / 5) + 3 * (i % 5)))
    (fun i _ => state[keccakIndex (i / 5) (i % 5)]) state hinj).1
      (roundOf k) (roundOf_lt k)
  simp only [roundOf_div, roundOf_mod, keccakIndex_coords] at hset
  rw [← hset, keccakPi, forLoop_nested 5 (by decide)]

/-- `C[x]` of chi, in row `y`. -/
def chiRow (state : Words) (x y : ℕ) : Lane :=
  state[keccakIndex x y] ^^^ (~~~state[keccakIndex (x + 1) y] &&& state[keccakIndex (x + 2) y])

lemma chiRow_congr {state state' : Words} {y : ℕ}
    (h : ∀ x, state[keccakIndex x y] = state'[keccakIndex x y]) (x : ℕ) :
    chiRow state x y = chiRow state' x y := by
  rw [chiRow, chiRow, h, h, h]

/-- One round of the outer loop of chi rewrites one row. -/
lemma keccakChi_row (state : Words) {y : ℕ} (hy : y < 5) (k : Fin 25) :
    (forLoop 5 (fun x state' => state'.set (keccakIndex x y) (chiRow state (x % 5) y)) state)[k] =
      if k.val / 5 = y then chiRow state (k.val % 5) y else state[k] := by
  have hinj : ∀ y < 5, ∀ i < 5, ∀ j < 5, keccakIndex i y = keccakIndex j y → i = j := by decide
  obtain ⟨hin, hout⟩ := forLoop_set (m := 5) (fun x => keccakIndex x y)
    (fun x _ => chiRow state (x % 5) y) state (hinj y hy)
  split
  · rename_i hk
    have hset := hin (k.val % 5) (Nat.mod_lt _ (by decide))
    subst hk
    simp only [Nat.mod_mod, keccakIndex_coords] at hset
    exact hset
  · rename_i hk
    apply hout
    rintro x hx rfl
    apply hk
    simp only [keccakIndex]
    omega

/-- A lane of chi depends on three lanes of its own row. -/
lemma keccakChi_getElem (state : Words) (k : Fin 25) :
    (keccakChi state)[k] = chiRow state (k.val % 5) (k.val / 5) := by
  -- the rows below `y` are done, the others are as they were
  have hloop := @forLoop_invariant Words 5
    (fun y state => forLoop 5
      (fun x state' => state'.set (keccakIndex x y) (chiRow state (x % 5) y)) state) state
    (fun y state' => ∀ k : Fin 25, state'[k] =
      if k.val / 5 < y then chiRow state (k.val % 5) (k.val / 5) else state[k])
    (fun k => by rw [if_neg (Nat.not_lt_zero _)]) ?_ k
  · rw [if_pos (by omega)] at hloop
    rw [← hloop, keccakChi]
    simp only [Vector.getElem_ofFn]
    rfl
  · intro y hy state' hrows k
    rw [keccakChi_row state' hy, hrows k]
    have hrow : ∀ x, state'[keccakIndex x y] = state[keccakIndex x y] := by
      intro x
      rw [hrows, if_neg]
      simp only [keccakIndex]
      omega
    rcases Nat.lt_trichotomy (k.val / 5) y with hlt | heq | hgt
    · rw [if_neg hlt.ne, if_pos hlt, if_pos (hlt.trans (Nat.lt_succ_self y))]
    · rw [if_pos heq, if_pos (by omega), heq, chiRow_congr hrow]
    · rw [if_neg hgt.ne', if_neg hgt.not_gt, if_neg (by omega)]

lemma keccakIota_getElem (state : Words) (round : ℕ) (k : Fin 25) :
    (keccakIota state round)[k] =
      if k = 0 then state[k] ^^^ keccakRoundConstants[round % 24] else state[k] := by
  rw [keccakIota]
  split
  · rename_i hk
    subst hk
    simp
  · rename_i hk
    simp only [Fin.getElem_fin]
    rw [Vector.getElem_set_ne]
    intro hzero
    exact hk (Fin.ext hzero.symm)

lemma keccakRhoOffsets_lt : ∀ k : Fin 25, keccakRhoOffsets[k] < 64 := by decide

end Kernel

namespace Reference

open Core Kernel

def nrRounds : ℕ := 24

/-- The two static tables. -/
structure KeccakTables where
  keccakRoundConstants : Vector Lane 24
  keccakRhoOffsets : Vector ℕ 25

/-- The tables when the program starts. -/
def KeccakTables.zero : KeccakTables := ⟨.replicate 24 0, .replicate 25 0⟩

/-- The macro `index(x, y)`. -/
def index (x y : ℕ) : Fin 25 := ⟨x % 5 + 5 * (y % 5), by omega⟩

/-- The macro `ROL64(a, offset)`. -/
def rol64 (a : Lane) (offset : ℕ) : Lane :=
  if offset ≠ 0 then (a <<< offset) ^^^ (a >>> (64 - offset)) else a

def theta (a : Words) : Words :=
  let c : Vector Lane 5 := .ofFn fun x => forLoop 5 (fun y acc => acc ^^^ a[index x y]) 0
  let d : Vector Lane 5 := .ofFn fun x => rol64 (c)[(x.val + 1) % 5] 1 ^^^ (c)[(x.val + 4) % 5]
  forLoop 5 (fun x a => forLoop 5 (fun y a =>
    a.set (index x y) (a[index x y] ^^^ d[x % 5])) a) a

def rho (tables : KeccakTables) (a : Words) : Words :=
  forLoop 5 (fun x a => forLoop 5 (fun y a =>
    a.set (index x y) (rol64 a[index x y] tables.keccakRhoOffsets[index x y])) a) a

def pi (a : Words) : Words :=
  let tempA := a
  forLoop 5 (fun x a => forLoop 5 (fun y a =>
    a.set (index (0 * x + 1 * y) (2 * x + 3 * y)) tempA[index x y]) a) a

def chi (a : Words) : Words :=
  forLoop 5 (fun y a =>
    let c : Vector Lane 5 := .ofFn fun x =>
      a[index x y] ^^^ (~~~a[index (x + 1) y] &&& a[index (x + 2) y])
    forLoop 5 (fun x a => a.set (index x y) (c)[x % 5]) a) a

def iota (tables : KeccakTables) (a : Words) (indexRound : ℕ) : Words :=
  a.set (index 0 0) (a[index 0 0] ^^^ tables.keccakRoundConstants[indexRound % 24])

def keccakPermutationOnWords (tables : KeccakTables) (state : Words) : Words :=
  forLoop nrRounds (fun i state => iota tables (chi (pi (rho tables (theta state)))) i) state

def fromBytesToWords (state : KeccakState) : Words :=
  .ofFn fun i => forLoop 8 (fun j word =>
    word ||| (state[(i.val * 8 + j) % 200].setWidth 64 <<< (8 * j))) 0

def fromWordsToBytes (stateAsWords : Words) : KeccakState :=
  .ofFn fun k => ((stateAsWords[k.val / 8] >>> (8 * (k.val % 8))) &&& 0xFF).setWidth 8

def keccakPermutation (tables : KeccakTables) (state : KeccakState) : KeccakState :=
  fromWordsToBytes (keccakPermutationOnWords tables (fromBytesToWords state))

def keccakPermutationAfterXor (tables : KeccakTables) (state : KeccakState) (data : ℕ → Byte)
    (dataLengthInBytes : ℕ) : KeccakState :=
  keccakPermutation tables
    (.ofFn fun i => if i < dataLengthInBytes then state[i] ^^^ data i else state[i])

/-- `LFSR86540`: the bit shifted out and the next register. -/
def lfsr86540 (lfsr : Byte) : Bool × Byte :=
  (lfsr.getLsbD 0, if lfsr.getLsbD 7 then (lfsr <<< 1) ^^^ 0x71 else lfsr <<< 1)

/-- `KeccakInitializeRoundConstants`, threading the register through both loops. -/
def keccakInitializeRoundConstants (table : Vector Lane 24) : Vector Lane 24 :=
  (forLoop nrRounds (fun i (s : Byte × Vector Lane 24) =>
    forLoop 7 (fun j (s : Byte × Vector Lane 24) =>
      let bitPosition := (1 <<< j) - 1
      let (bit, lfsr) := lfsr86540 s.1
      (lfsr, if bit then s.2.set (i % 24) (s.2[i % 24] ^^^ ((1 : Lane) <<< bitPosition)) else s.2))
      (s.1, s.2.set (i % 24) 0)) ((0x01 : Byte), table)).2

/-- `KeccakInitializeRhoOffsets`: the walk `(x, y) ↦ (y, 2x + 3y)` from `(1, 0)`. -/
def keccakInitializeRhoOffsets (table : Vector ℕ 25) : Vector ℕ 25 :=
  (forLoop 24 (fun t (s : ℕ × ℕ × Vector ℕ 25) =>
    let (x, y, offsets) := s
    let offsets := offsets.set (index x y) (((t + 1) * (t + 2) / 2) % 64)
    let newX := (0 * x + 1 * y) % 5
    let newY := (2 * x + 3 * y) % 5
    (newX, newY, offsets)) (1, 0, table.set (index 0 0) 0)).2.2

def keccakInitialize (tables : KeccakTables) : KeccakTables where
  keccakRoundConstants := keccakInitializeRoundConstants tables.keccakRoundConstants
  keccakRhoOffsets := keccakInitializeRhoOffsets tables.keccakRhoOffsets

def keccakInitializeState : KeccakState := .replicate 200 0

def keccakAbsorb (tables : KeccakTables) (state : KeccakState) (data : ℕ → Byte)
    (laneCount : ℕ) : KeccakState :=
  keccakPermutationAfterXor tables state data (laneCount * 8)

/-- `KeccakExtract`; the callers ask for at most 16 of the 25 lanes. -/
def keccakExtract (state : KeccakState) (data : ℕ → Byte) (laneCount : ℕ) : ℕ → Byte :=
  memcpy data 0 (fun i => state[i % 200]) (laneCount * 8)

/-! ### Byte order -/

/-- `PLATFORM_BYTE_ORDER`, and whether `__BIG_ENDIAN` is defined. -/
inductive ByteOrder where
  | little
  | big

/-- The number a little-endian machine has at the first `n` bytes: each byte is above the ones
before it. -/
def littleEndian (b : ℕ → Byte) : (n : ℕ) → BitVec (8 * n)
  | 0 => 0
  | n + 1 => (b n ++ littleEndian b n).cast (Nat.add_comm 8 (8 * n))

/-- `(u64 *)state`, read as an array of words. -/
def castToWords (bytes : KeccakState) : Words :=
  .ofFn fun i => littleEndian (fun j => bytes[(i.val * 8 + j) % 200]) 8

/-- The memory that the words of such an array occupy. -/
def castToBytes (words : Words) : KeccakState :=
  .ofFn fun k => words[k.val / 8].extractLsb' (8 * (k.val % 8)) 8

/-- `infnoise_keccak_permutation`, as it is built for a machine. -/
def infnoiseKeccakPermutationOn : ByteOrder → KeccakState → KeccakState
  | .big, keccak =>
    keccakWordsToBytes (Kernel.keccakPermutationOnWords (keccakBytesToWords keccak))
  | .little, keccak => castToBytes (Kernel.keccakPermutationOnWords (castToWords keccak))

/-- `infnoise_keccak_absorb`, as it is built for a machine. -/
def infnoiseKeccakAbsorbOn (order : ByteOrder) (keccak : KeccakState) (data : ℕ → Byte)
    (lanes : ℕ) : KeccakState :=
  infnoiseKeccakPermutationOn order
    (.ofFn fun i => if i < lanes * 8 then keccak[i] ^^^ data i else keccak[i])

/-- `KeccakPermutation`, as it is built for a machine. -/
def keccakPermutationOn (tables : KeccakTables) : ByteOrder → KeccakState → KeccakState
  | .big, state => fromWordsToBytes (keccakPermutationOnWords tables (fromBytesToWords state))
  | .little, state => castToBytes (keccakPermutationOnWords tables (castToWords state))

/-- `KeccakAbsorb`, as it is built for a machine. -/
def keccakAbsorbOn (tables : KeccakTables) (order : ByteOrder) (state : KeccakState)
    (data : ℕ → Byte) (laneCount : ℕ) : KeccakState :=
  keccakPermutationOn tables order
    (.ofFn fun i => if i < laneCount * 8 then state[i] ^^^ data i else state[i])

lemma littleEndian_getLsbD (b : ℕ → Byte) {n k : ℕ} (hk : k < 8 * n) :
    (littleEndian b n).getLsbD k = (b (k / 8)).getLsbD (k % 8) := by
  induction n with
  | zero => omega
  | succ n ih =>
    rw [littleEndian, BitVec.getLsbD_cast, BitVec.getLsbD_append]
    split
    · rename_i hlt
      exact ih hlt
    · rename_i hge
      rw [show k / 8 = n by omega, show k - 8 * n = k % 8 by omega]

lemma castToWords_eq (bytes : KeccakState) : castToWords bytes = keccakBytesToWords bytes := by
  apply Vector.ext
  intro i hi
  apply BitVec.eq_of_getLsbD_eq
  intro n hn
  have hword := keccakBytesToWords_getLsbD bytes ⟨i, hi⟩ hn
  simp only [Fin.getElem_fin] at hword
  rw [hword, castToWords, Vector.getElem_ofFn, littleEndian_getLsbD _ hn]

lemma castToBytes_eq (words : Words) : castToBytes words = keccakWordsToBytes words := by
  apply Vector.ext
  intro k hk
  apply BitVec.eq_of_getLsbD_eq
  intro n hn
  have hbyte := keccakWordsToBytes_getLsbD words ⟨k, hk⟩ hn
  simp only [Fin.getElem_fin] at hbyte
  rw [hbyte, castToBytes, Vector.getElem_ofFn, BitVec.getLsbD_extractLsb', decide_eq_true hn,
    Bool.true_and]

/-- The build does not matter. -/
lemma infnoiseKeccakPermutationOn_eq (order : ByteOrder) (keccak : KeccakState) :
    infnoiseKeccakPermutationOn order keccak = infnoiseKeccakPermutation keccak := by
  cases order
  · rw [infnoiseKeccakPermutationOn, castToWords_eq, castToBytes_eq, infnoiseKeccakPermutation]
  · rfl

lemma keccakPermutationOn_eq (tables : KeccakTables) (order : ByteOrder) (state : KeccakState) :
    keccakPermutationOn tables order state = keccakPermutation tables state := by
  cases order
  · rw [keccakPermutationOn, castToWords_eq, castToBytes_eq]
    rfl
  · rfl

/-! ### Lanes of the reference -/

/-- The reference visits the same lanes column by column. -/
lemma rho_getElem (tables : KeccakTables) (a : Words) (k : Fin 25) :
    (rho tables a)[k] = rol64 a[k] tables.keccakRhoOffsets[k] := by
  have hset := (forLoop_set (m := 25) (fun i => index (i / 5) (i % 5))
    (fun i x => rol64 x tables.keccakRhoOffsets[index (i / 5) (i % 5)]) a
      keccakIndex_nested_inj).1 (roundOf k) (roundOf_lt k)
  have hidx : index (k.val % 5) (k.val / 5) = k := keccakIndex_coords k
  simp only [roundOf_div, roundOf_mod, hidx] at hset
  rw [rho, forLoop_nested 5 (by decide)]
  exact hset

end Reference
