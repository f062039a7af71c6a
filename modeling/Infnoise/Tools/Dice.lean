import Infnoise.Core.BigEndian
import Infnoise.Core.Chunks
import Infnoise.Core.Word

/-!
# Rolling a die

`rollDie` of `dice.c` and of `passgen.c`, which are the same function up to what is done with the
result. It reads two bytes for each one that it uses: the first `getc` of a round is compared with
`EOF` and forgotten.
-/

namespace Tools

open Core

/-! ### The code -/

/-- How a round of the outer loop ends. -/
inductive Group where
  | value (randVal : ℕ) (file : List Byte)
  | ranOut
  -- `1u` is shifted by 32, which is undefined
  | overshift
  deriving DecidableEq

/-- `getc`, which returns `EOF` at the end of the file. -/
def getc : List Byte → Option Byte × List Byte
  | [] => (none, [])
  | c :: file => (some c, file)

/-- What `getc` returns, as a word of 32 bits: `EOF` is -1. -/
def getcWord (c : Option Byte) : ℕ := (c.map BitVec.toNat).getD 4294967295

/-- The inner loop. It can make `left` more rounds before `1u` is shifted by 32. -/
def readGroup (sides : ℕ) : ℕ → List Byte → ℕ → ℕ → Group
  | 0, _, _, _ => .overshift
  | left + 1, file, numBytes, randVal =>
    if 1 <<< (8 * numBytes) ≤ sides then
      match getc file with
      | (none, _) => .ranOut
      | (some _, file) =>
        readGroup sides left (getc file).2 (numBytes + 1)
          (u32 (randVal <<< 8) ||| getcWord (getc file).1)
    else .value randVal file

/-- How a roll ends: with a result and the part of the file that is unread, with the message that
the data ran out, or without meaning. -/
inductive Roll where
  | rolled (randVal : ℕ) (file : List Byte)
  | ranOut
  | overshift
  deriving DecidableEq

/-- The outer loop, for at most `fuel` rounds; `none` when it goes on after them. -/
def rollLoop (sides : ℕ) : ℕ → List Byte → Option Roll
  | 0, _ => none
  | fuel + 1, file =>
    match readGroup sides 4 file 0 0 with
    | .overshift => some .overshift
    | .ranOut => some .ranOut
    | .value randVal file =>
      if randVal ≥ sides then rollLoop sides fuel file else some (.rolled randVal file)

/-- Each round but the last reads a byte. -/
def rollDie (sides : ℕ) (file : List Byte) : Option Roll :=
  rollLoop sides (file.length + 2) file

/-! ### A file cut into groups -/

/-- The first of the groups of `m` bytes whose value is below `sides`. -/
def firstBelow (value : List Byte → ℕ) (m sides : ℕ) (file : List Byte) : Option ℕ :=
  (chunks m file).findIdx? fun g => value g < sides

/-- Group `k`. -/
def groupAt (m k : ℕ) (file : List Byte) : List Byte := (file.drop (k * m)).take m

/-- A roll that takes the value of that group, and leaves what comes after it. -/
def splitRoll (value : List Byte → ℕ) (m sides : ℕ) (file : List Byte) : Roll :=
  match firstBelow value m sides file with
  | none => .ranOut
  | some k => .rolled (value (groupAt m k file)) (file.drop ((k + 1) * m))

/-- The number that bytes stand for, the highest first. -/
def bytesValue (bytes : List Byte) : ℕ := bigEndian 256 (bytes.map BitVec.toNat)

/-- Every other byte. -/
def oddBytes : List Byte → List Byte
  | _ :: d :: rest => d :: oddBytes rest
  | _ => []

/-- The least number of bytes that hold a number above `sides`. -/
def groupBytes (sides : ℕ) : ℕ := Nat.log 256 sides + 1

section

variable {value : List Byte → ℕ} {m sides : ℕ} {file : List Byte}

lemma splitRoll_of_lt (h : file.length < m) : splitRoll value m sides file = .ranOut := by
  rw [splitRoll, firstBelow, chunks_of_lt h]
  rfl

lemma splitRoll_of_le (hm : 0 < m) (h : m ≤ file.length) :
    splitRoll value m sides file =
      if value (file.take m) < sides then .rolled (value (file.take m)) (file.drop m)
      else splitRoll value m sides (file.drop m) := by
  rw [splitRoll, firstBelow, chunks_of_le hm h, List.findIdx?_cons]
  by_cases hlt : value (file.take m) < sides
  · simp [hlt, groupAt]
  · rw [splitRoll, firstBelow]
    rcases (chunks m (file.drop m)).findIdx? fun g => value g < sides with _ | k
    · simp [hlt]
    · have hk : ∀ k, m + k * m = (k + 1) * m := fun k => by ring
      simp [hlt, groupAt, hk]

/-- Two ways to cut the file roll the same just if they find a value at the same place. -/
lemma splitRoll_eq_iff {value' : List Byte → ℕ} {m' : ℕ} :
    splitRoll value m sides file = splitRoll value' m' sides file ↔
      firstBelow value m sides file = none ∧ firstBelow value' m' sides file = none ∨
      ∃ k k', firstBelow value m sides file = some k ∧ firstBelow value' m' sides file = some k' ∧
        (k + 1) * m = (k' + 1) * m' ∧ value (groupAt m k file) = value' (groupAt m' k' file) := by
  have hbound : ∀ {value m k}, firstBelow value m sides file = some k →
      (k + 1) * m ≤ file.length := by
    intro value m k h
    obtain ⟨hlt, -, -⟩ := List.findIdx?_eq_some_iff_getElem.mp h
    rw [length_chunks] at hlt
    exact (Nat.mul_le_mul_right m hlt).trans (Nat.div_mul_le_self file.length m)
  rw [splitRoll, splitRoll]
  rcases h : firstBelow value m sides file with _ | k
  · rcases firstBelow value' m' sides file with _ | k'
    · simp
    · simp
  · rcases h' : firstBelow value' m' sides file with _ | k'
    · simp
    · have hle := hbound h
      have hle' := hbound h'
      have hdrop : file.drop ((k + 1) * m) = file.drop ((k' + 1) * m') ↔
          (k + 1) * m = (k' + 1) * m' := by
        constructor
        · intro heq
          have hlen := congrArg List.length heq
          rw [List.length_drop, List.length_drop] at hlen
          omega
        · intro heq
          rw [heq]
      simp [hdrop, and_comm]

end

/-! ### The number of bytes -/

lemma groupBytes_pos (sides : ℕ) : 0 < groupBytes sides := Nat.succ_pos _

/-- The test of the inner loop. -/
lemma shifted_le_iff {sides k : ℕ} (hsides : sides ≠ 0) :
    1 <<< (8 * k) ≤ sides ↔ k < groupBytes sides := by
  rw [Nat.shiftLeft_eq, Nat.one_mul, pow_mul, groupBytes, Nat.lt_succ_iff]
  exact (Nat.le_log_iff_pow_le (by decide) hsides).symm

lemma groupBytes_le_iff {sides k : ℕ} (hsides : sides ≠ 0) :
    groupBytes sides ≤ k ↔ sides < 256 ^ k := by
  rw [groupBytes, Nat.succ_le_iff, Nat.log_lt_iff_lt_pow (by decide) hsides]

/-! ### One group -/

lemma bytesValue_concat (l : List Byte) (d : Byte) :
    bytesValue (l ++ [d]) = bytesValue l * 256 + d.toNat := by
  rw [bytesValue, List.map_append, List.map_singleton, bigEndian_concat]
  rfl

lemma bytesValue_lt (l : List Byte) : bytesValue l < 256 ^ l.length := by
  have hdigits : ∀ d ∈ l.map BitVec.toNat, d < 256 := by
    intro d hd
    obtain ⟨c, -, rfl⟩ := List.mem_map.mp hd
    exact c.isLt
  have h := bigEndian_lt (by decide) hdigits
  rwa [List.length_map] at h

/-- A byte is shifted in. -/
lemma shift_byte {l : List Byte} (d : Byte) (hl : l.length ≤ 3) :
    u32 (bytesValue l <<< 8) ||| d.toNat = bytesValue (l ++ [d]) := by
  have hlt := bytesValue_lt l
  have hpow : 256 ^ l.length ≤ 256 ^ 3 := Nat.pow_le_pow_right (by decide) hl
  have hshift : u32 (bytesValue l <<< 8) = bytesValue l <<< 8 := by
    apply u32_of_lt
    rw [Nat.shiftLeft_eq]
    omega
  rw [hshift, shiftLeft_or d.isLt, bytesValue_concat]
  rfl

lemma or_ones {x : ℕ} (hx : x < 4294967296) : x ||| 4294967295 = 4294967295 := by
  apply Nat.eq_of_testBit_eq
  intro i
  rw [show 4294967295 = 2 ^ 32 - 1 from rfl, Nat.testBit_or, Nat.testBit_two_pow_sub_one]
  by_cases hi : i < 32
  · simp [hi]
  · have hpow : 2 ^ 32 ≤ 2 ^ i := Nat.pow_le_pow_right (by decide) (Nat.not_lt.mp hi)
    rw [Nat.testBit_lt_two_pow (lt_of_lt_of_le hx hpow), Bool.false_or]

section

variable {sides : ℕ} (hsides : sides ≠ 0)

include hsides

/-- A group for which there are bytes enough. -/
lemma readGroup_of_le (hn : groupBytes sides ≤ 3) {k left : ℕ} {file l : List Byte}
    (hk : l.length + k = groupBytes sides) (hleft : l.length + left = 4)
    (hlen : 2 * k ≤ file.length) :
    readGroup sides left file l.length (bytesValue l) =
      .value (bytesValue (l ++ oddBytes (file.take (2 * k)))) (file.drop (2 * k)) := by
  induction k generalizing left file l with
  | zero =>
    obtain ⟨left, rfl⟩ : ∃ m, left = m + 1 := ⟨left - 1, by omega⟩
    rw [readGroup, if_neg (by rw [shifted_le_iff hsides]; omega)]
    simp [oddBytes]
  | succ k ih =>
    obtain ⟨left, rfl⟩ : ∃ m, left = m + 1 := ⟨left - 1, by omega⟩
    rcases file with _ | ⟨c, _ | ⟨d, rest⟩⟩
    · simp at hlen
    · simp at hlen
      omega
    · rw [readGroup, if_pos (by rw [shifted_le_iff hsides]; omega)]
      have hlen' : 2 * k ≤ rest.length := by
        simp at hlen
        omega
      have hstep := @ih left rest (l ++ [d]) (by simp; omega) (by simp; omega) hlen'
      rw [List.length_append, List.length_singleton, ← shift_byte d (by omega)] at hstep
      rw [show 2 * (k + 1) = 2 * k + 1 + 1 by omega]
      simpa [getc, getcWord, oddBytes] using hstep

/-- A group for which there are not. -/
lemma readGroup_of_lt (hn : groupBytes sides ≤ 3) {k left numBytes randVal : ℕ}
    {file : List Byte} (hk : numBytes + k = groupBytes sides) (hleft : numBytes + left = 4)
    (hlen : file.length < 2 * k) :
    readGroup sides left file numBytes randVal = .ranOut ∨
      file ≠ [] ∧ readGroup sides left file numBytes randVal = .value 4294967295 [] := by
  induction k generalizing left file numBytes randVal with
  | zero => simp at hlen
  | succ k ih =>
    obtain ⟨left, rfl⟩ : ∃ m, left = m + 1 := ⟨left - 1, by omega⟩
    rw [readGroup, if_pos (by rw [shifted_le_iff hsides]; omega)]
    rcases file with _ | ⟨c, _ | ⟨d, rest⟩⟩
    · left
      rfl
    · simp only [getc, getcWord, Option.map_none, Option.getD_none, or_ones (u32_lt _)]
      rcases k with _ | k
      · right
        obtain ⟨left, rfl⟩ : ∃ m, left = m + 1 := ⟨left - 1, by omega⟩
        rw [readGroup, if_neg (by rw [shifted_le_iff hsides]; omega)]
        exact ⟨List.cons_ne_nil _ _, rfl⟩
      · rcases @ih left (numBytes + 1) 4294967295 [] (by omega) (by omega) (by simp)
          with h | ⟨h, -⟩
        · exact .inl h
        · exact absurd rfl h
    · have hlen' : rest.length < 2 * k := by
        simp at hlen
        omega
      rcases @ih left (numBytes + 1) (u32 (randVal <<< 8) ||| d.toNat) rest (by omega) (by omega)
        hlen' with h | ⟨-, h⟩
      · exact .inl h
      · exact .inr ⟨List.cons_ne_nil _ _, h⟩

/-- With four bytes to a group, the test after the last round shifts too far. -/
lemma readGroup_four (hn : 4 ≤ groupBytes sides) {left numBytes randVal : ℕ} {file : List Byte}
    (hleft : numBytes + left = 4) :
    readGroup sides left file numBytes randVal =
      if 2 * left ≤ file.length + 1 then .overshift else .ranOut := by
  induction left generalizing file numBytes randVal with
  | zero => rw [readGroup, if_pos (by omega)]
  | succ left ih =>
    rw [readGroup, if_pos (by rw [shifted_le_iff hsides]; omega)]
    rcases file with _ | ⟨c, _ | ⟨d, rest⟩⟩
    · rw [if_neg (by simp; omega)]
      rfl
    · have hrest := @ih (numBytes + 1) (u32 (randVal <<< 8) ||| 4294967295) [] (by omega)
      rcases left with _ | left
      · simpa [getc, getcWord] using hrest
      · rw [if_neg (by simp; omega)] at hrest
        rw [if_neg (by simp)]
        simpa [getc, getcWord] using hrest
    · have hrest := @ih (numBytes + 1) (u32 (randVal <<< 8) ||| d.toNat) rest (by omega)
      have hiff : 2 * left ≤ rest.length + 1 ↔ 2 * (left + 1) ≤ (c :: d :: rest).length + 1 := by
        simp
        omega
      rw [← if_congr hiff rfl rfl]
      simpa [getc, getcWord] using hrest

end

/-! ### One roll -/

section

variable {sides : ℕ} (hsides : sides ≠ 0)

include hsides

lemma readGroup_nil : readGroup sides 4 [] 0 0 = .ranOut := by
  rw [readGroup, if_pos (by rw [shifted_le_iff hsides]; exact groupBytes_pos sides)]
  rfl

/-- With at most three bytes to a group, a roll takes the first group of twice as many bytes in
which every other byte is part of a number below `sides`. -/
lemma rollLoop_eq (h32 : sides < 4294967296) (hn : groupBytes sides ≤ 3) {fuel : ℕ}
    {file : List Byte} (hfuel : file.length + 2 ≤ fuel) :
    rollLoop sides fuel file =
      some (splitRoll (fun g => bytesValue (oddBytes g)) (2 * groupBytes sides) sides file) := by
  have hpos := groupBytes_pos sides
  induction fuel generalizing file with
  | zero => omega
  | succ fuel ih =>
    by_cases hlen : 2 * groupBytes sides ≤ file.length
    · have hgroup : readGroup sides 4 file 0 0 =
          .value (bytesValue (oddBytes (file.take (2 * groupBytes sides))))
            (file.drop (2 * groupBytes sides)) :=
        readGroup_of_le hsides hn (l := []) (Nat.zero_add _) rfl hlen
      rw [rollLoop, splitRoll_of_le (by omega) hlen, hgroup]
      dsimp only
      have hdrop : (file.drop (2 * groupBytes sides)).length + 2 ≤ fuel := by
        rw [List.length_drop]
        omega
      by_cases hlt : bytesValue (oddBytes (file.take (2 * groupBytes sides))) < sides
      · rw [if_neg (by omega), if_pos hlt]
      · rw [if_pos (by omega), if_neg hlt, ih hdrop]
    · rw [splitRoll_of_lt (by omega), rollLoop]
      rcases @readGroup_of_lt _ hsides hn (groupBytes sides) 4 0 0 file (Nat.zero_add _) rfl
        (Nat.not_le.mp hlen) with h | ⟨hne, h⟩
      · rw [h]
      · have hfile := List.length_pos_iff.mpr hne
        obtain ⟨fuel, rfl⟩ : ∃ m, fuel = m + 1 := ⟨fuel - 1, by omega⟩
        rw [h]
        dsimp only
        rw [if_pos (by omega), rollLoop, readGroup_nil hsides]

/-- With four bytes to a group, a roll has no result. -/
lemma rollDie_four (hn : 4 ≤ groupBytes sides) (file : List Byte) :
    rollDie sides file = some (if 7 ≤ file.length then .overshift else .ranOut) := by
  rw [rollDie, rollLoop, readGroup_four hsides hn (Nat.zero_add 4)]
  by_cases hlen : 7 ≤ file.length
  · rw [if_pos (by omega), if_pos hlen]
  · rw [if_neg (by omega), if_neg hlen]

end

/-! ### What is rolled -/

/-- The roll cuts the unread part of the file into groups of the least number of bytes that can hold
`sides`, and takes the first value below `sides`. -/
def RollsExactly (sides : ℕ) (file : List Byte) : Prop :=
  rollDie sides file = some (splitRoll bytesValue (groupBytes sides) sides file)

/-- Groups of twice as many bytes lead to the same place as every other one of the first groups. -/
lemma rollsExactly_iff_of_lt {sides : ℕ} (file : List Byte) (hsides : sides ≠ 0)
    (h24 : sides < 16777216) :
    RollsExactly sides file ↔
      firstBelow bytesValue (groupBytes sides) sides file = none ∧
        firstBelow (fun g => bytesValue (oddBytes g)) (2 * groupBytes sides) sides file = none ∨
      ∃ k, firstBelow bytesValue (groupBytes sides) sides file = some (2 * k + 1) ∧
        firstBelow (fun g => bytesValue (oddBytes g)) (2 * groupBytes sides) sides file = some k ∧
        bytesValue (groupAt (groupBytes sides) (2 * k + 1) file) =
          bytesValue (oddBytes (groupAt (2 * groupBytes sides) k file)) := by
  have hn := (groupBytes_le_iff (k := 3) hsides).mpr h24
  have hpos := groupBytes_pos sides
  rw [RollsExactly, rollDie, rollLoop_eq hsides (by omega) hn le_rfl, Option.some_inj, eq_comm,
    splitRoll_eq_iff]
  apply or_congr_right
  have hplace : ∀ k k', (k + 1) * groupBytes sides = (k' + 1) * (2 * groupBytes sides) ↔
      k = 2 * k' + 1 := by
    intro k k'
    rw [← Nat.mul_assoc, Nat.mul_left_inj hpos.ne']
    omega
  constructor
  · rintro ⟨k, k', h, h', hk, heq⟩
    rw [hplace] at hk
    subst hk
    exact ⟨k', h, h', heq⟩
  · rintro ⟨k, h, h', heq⟩
    exact ⟨2 * k + 1, k, h, h', (hplace _ _).mpr rfl, heq⟩

/-- In a file of less than two groups there is no value if there is none in the first one. -/
lemma splitRoll_four_iff {sides : ℕ} {file : List Byte} (hlen : file.length < 8) :
    splitRoll bytesValue 4 sides file = .ranOut ↔
      file.length < 4 ∨ sides ≤ bytesValue (file.take 4) := by
  by_cases h4 : 4 ≤ file.length
  · have hrest : (file.drop 4).length < 4 := by
      rw [List.length_drop]
      omega
    rw [splitRoll_of_le (by decide) h4, splitRoll_of_lt hrest, or_iff_right (by omega)]
    by_cases hlt : bytesValue (file.take 4) < sides
    · simp [hlt]
    · simp [hlt, Nat.not_lt.mp hlt]
  · rw [splitRoll_of_lt (by omega)]
    exact iff_of_true rfl (.inl (by omega))

/-- The code must not come to the shift by 32. -/
lemma rollsExactly_iff_of_le {sides : ℕ} (file : List Byte) (h24 : 16777216 ≤ sides)
    (h32 : sides < 4294967296) :
    RollsExactly sides file ↔
      file.length ≤ 6 ∧ (file.length < 4 ∨ sides ≤ bytesValue (file.take 4)) := by
  have hsides : sides ≠ 0 := by omega
  have hn : groupBytes sides = 4 := by
    apply le_antisymm ((groupBytes_le_iff hsides).mpr h32)
    by_contra hlt
    have := (groupBytes_le_iff (k := 3) hsides).mp (by omega)
    omega
  rw [RollsExactly, rollDie_four hsides hn.ge, hn, Option.some_inj]
  by_cases h7 : 7 ≤ file.length
  · have hmeans : splitRoll bytesValue 4 sides file ≠ .overshift := by
      rw [splitRoll]
      split <;> simp
    rw [if_pos h7]
    constructor
    · intro h
      exact absurd h.symm hmeans
    · rintro ⟨h6, -⟩
      omega
  · rw [if_neg h7, and_iff_right (by omega), eq_comm]
    exact splitRoll_four_iff (by omega)

/-- Below `2 ^ 24` sides, the first groups and the groups of twice as many bytes, of which the code
uses every other one, must lead to the same place and the same value. From there on the file must
end before the fourth round, and before a group with a value. -/
theorem rollDie_exact_iff {sides : ℕ} (file : List Byte) (h1 : 1 ≤ sides)
    (h32 : sides < 4294967296) :
    RollsExactly sides file ↔
      if sides < 16777216 then
        firstBelow bytesValue (groupBytes sides) sides file = none ∧
          firstBelow (fun g => bytesValue (oddBytes g)) (2 * groupBytes sides) sides file = none ∨
        ∃ k, firstBelow bytesValue (groupBytes sides) sides file = some (2 * k + 1) ∧
          firstBelow (fun g => bytesValue (oddBytes g)) (2 * groupBytes sides) sides file = some k ∧
          bytesValue (groupAt (groupBytes sides) (2 * k + 1) file) =
            bytesValue (oddBytes (groupAt (2 * groupBytes sides) k file))
      else file.length ≤ 6 ∧ (file.length < 4 ∨ sides ≤ bytesValue (file.take 4)) := by
  split_ifs with h24
  · exact rollsExactly_iff_of_lt file (by omega) h24
  · exact rollsExactly_iff_of_le file (not_lt.mp h24) h32

/-- The first byte is no number below six, and the second one is. -/
theorem rollDie_exact_six : 1 ≤ 6 ∧ 6 < 4294967296 ∧ RollsExactly 6 [7, 1] := by
  refine ⟨by decide, by decide, (rollDie_exact_iff [7, 1] (by decide) (by decide)).mpr ?_⟩
  rw [if_pos (by decide)]
  right
  exact ⟨0, by rfl, by rfl, by rfl⟩

/-- The first byte is never used. -/
theorem rollDie_skips_byte : ¬ RollsExactly 6 [0, 1] := by
  intro h
  have hcode : rollDie 6 [0, 1] = some (.rolled 1 []) := by rfl
  have hclaim : splitRoll bytesValue (groupBytes 6) 6 [0, 1] = .rolled 0 [1] := by rfl
  rw [RollsExactly, hcode, hclaim] at h
  cases h

end Tools
