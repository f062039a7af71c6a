import Infnoise.Core.BigEndian
import Infnoise.Core.Chunks
import Infnoise.Core.Word

/-!
# Hexadecimal text

Models of `bin2hex.c` and `hex2bin.c`. The decoder looks two digits ahead and skips all other
characters, so what it writes depends on the digits of its input only.
-/

namespace Tools

open Core

/-! ### `bin2hex` -/

/-- A digit as `printf("%x")` writes it. -/
def hexChar (d : ℕ) : Byte :=
  if d < 10 then BitVec.ofNat 8 ('0'.toNat + d) else BitVec.ofNat 8 ('a'.toNat + (d - 10))

/-- `printf("%02x")` of a byte. -/
def printByte (value : Byte) : List Byte :=
  [hexChar (value.toNat / 16), hexChar (value.toNat % 16)]

def newline : Byte := BitVec.ofNat 8 '\n'.toNat

/-- The loop of `main`, on the rest of the input. -/
def bin2hexLoop : List Byte → ℕ → List Byte
  | [], _ => [newline]
  | value :: input, count =>
    printByte value ++ (if u32 (count + 1) = 64 then [newline] else []) ++
      bin2hexLoop input (u32 (count + 1))

def bin2hex (input : List Byte) : List Byte := bin2hexLoop input 0

/-! ### `hex2bin` -/

def isHexDigit (c : ℕ) : Bool :=
  decide ('0'.toNat ≤ c ∧ c ≤ '9'.toNat) || decide ('a'.toNat ≤ c ∧ c ≤ 'f'.toNat) ||
    decide ('A'.toNat ≤ c ∧ c ≤ 'F'.toNat)

/-- The next digit, and the input behind it. -/
def readChar : List Byte → Option ℕ × List Byte
  | [] => (none, [])
  | c :: input => if isHexDigit c.toNat then (some c.toNat, input) else readChar input

def tolower (c : ℕ) : ℕ := if 'A'.toNat ≤ c ∧ c ≤ 'Z'.toNat then c + 32 else c

def getDigit (c : ℕ) : ℕ :=
  if 'a'.toNat ≤ tolower c ∧ tolower c ≤ 'f'.toNat then 10 + tolower c - 'a'.toNat
  else tolower c - '0'.toNat

/-- The loop of `main`, for at most `fuel` bytes; `none` when it goes on after them. -/
def hex2binLoop : ℕ → Option ℕ → Option ℕ → List Byte → Option (List Byte)
  | 0, _, _, _ => none
  | fuel + 1, some upper, some lower, input =>
    (hex2binLoop fuel (readChar input).1 (readChar (readChar input).2).1
      (readChar (readChar input).2).2).map fun output =>
        BitVec.ofNat 8 ((getDigit upper <<< 4) ||| getDigit lower) :: output
  | _ + 1, _, _, _ => some []

def hex2bin (input : List Byte) : Option (List Byte) :=
  hex2binLoop (input.length + 1) (readChar input).1 (readChar (readChar input).2).1
    (readChar (readChar input).2).2

/-! ### Digits -/

/-- The value of a hexadecimal digit of either case. -/
def hexValue (c : Byte) : Option ℕ :=
  if '0'.toNat ≤ c.toNat ∧ c.toNat ≤ '9'.toNat then some (c.toNat - '0'.toNat)
  else if 'a'.toNat ≤ c.toNat ∧ c.toNat ≤ 'f'.toNat then some (c.toNat - 'a'.toNat + 10)
  else if 'A'.toNat ≤ c.toNat ∧ c.toNat ≤ 'F'.toNat then some (c.toNat - 'A'.toNat + 10)
  else none

/-- The digits of a text. -/
def hexDigits (input : List Byte) : List ℕ := input.filterMap hexValue

/-- The byte of a pair of digits. -/
def pairByte (pair : List ℕ) : Byte := BitVec.ofNat 8 (bigEndian 16 pair)

/-- The bytes of the consecutive pairs. -/
def pairBytes (digits : List ℕ) : List Byte := (chunks 2 digits).map pairByte

lemma hexDigits_append (l l' : List Byte) : hexDigits (l ++ l') = hexDigits l ++ hexDigits l' :=
  List.filterMap_append

/-- What the code takes for a digit, and for its value. -/
lemma hexValue_eq (c : Byte) :
    hexValue c = if isHexDigit c.toNat then some (getDigit c.toNat) else none := by
  have hall : ∀ c : Byte, hexValue c =
      if isHexDigit c.toNat then some (getDigit c.toNat) else none := by decide
  exact hall c

lemma hexValue_lt {c : Byte} {d : ℕ} (h : hexValue c = some d) : d < 16 := by
  have hall : ∀ c : Byte, ∀ d ∈ hexValue c, d < 16 := by decide
  exact hall c d h

lemma hexValue_hexChar {d : ℕ} (hd : d < 16) : hexValue (hexChar d) = some d := by
  have hall : ∀ d < 16, hexValue (hexChar d) = some d := by decide
  exact hall d hd

lemma hexDigits_newline : hexDigits [newline] = [] := by decide

/-! ### The decoder -/

lemma hexDigits_cons_of_digit {c : Byte} (input : List Byte) (hc : isHexDigit c.toNat = true) :
    hexDigits (c :: input) = getDigit c.toNat :: hexDigits input := by
  apply List.filterMap_cons_some
  rw [hexValue_eq, if_pos hc]

lemma hexDigits_cons_of_noise {c : Byte} (input : List Byte) (hc : ¬ isHexDigit c.toNat = true) :
    hexDigits (c :: input) = hexDigits input := by
  apply List.filterMap_cons_none
  rw [hexValue_eq, if_neg hc]

lemma readChar_nil {input : List Byte} (h : hexDigits input = []) :
    readChar input = (none, []) := by
  induction input with
  | nil => rfl
  | cons c input ih =>
    by_cases hc : isHexDigit c.toNat = true
    · rw [hexDigits_cons_of_digit input hc] at h
      cases h
    · rw [hexDigits_cons_of_noise input hc] at h
      rw [readChar, if_neg hc, ih h]

/-- The next digit, with those behind it. -/
lemma readChar_cons {input : List Byte} {d : ℕ} {ds : List ℕ} (h : hexDigits input = d :: ds) :
    ∃ c rest, readChar input = (some c, rest) ∧ getDigit c = d ∧ hexDigits rest = ds := by
  induction input with
  | nil => cases h
  | cons c input ih =>
    by_cases hc : isHexDigit c.toNat = true
    · rw [hexDigits_cons_of_digit input hc] at h
      obtain ⟨hd, hds⟩ := List.cons.inj h
      rw [readChar, if_pos hc]
      exact ⟨c.toNat, input, rfl, hd, hds⟩
    · rw [hexDigits_cons_of_noise input hc] at h
      rw [readChar, if_neg hc]
      exact ih h

/-- Every digit is a number of four bits. -/
lemma lt_of_mem_hexDigits {input : List Byte} : ∀ d ∈ hexDigits input, d < 16 := by
  intro d hd
  obtain ⟨c, -, hc⟩ := List.mem_filterMap.mp hd
  exact hexValue_lt hc

lemma pairBytes_cons (d e : ℕ) (ds : List ℕ) :
    pairBytes (d :: e :: ds) = pairByte [d, e] :: pairBytes ds := by
  rw [pairBytes, chunks_of_le (by decide) (by simp), List.map_cons]
  rfl

/-- The decoder takes the digits in pairs. -/
lemma hex2binLoop_eq {fuel : ℕ} {input : List Byte} (hfuel : (hexDigits input).length < fuel) :
    hex2binLoop fuel (readChar input).1 (readChar (readChar input).2).1
      (readChar (readChar input).2).2 = some (pairBytes (hexDigits input)) := by
  induction fuel generalizing input with
  | zero => exact absurd hfuel (Nat.not_lt_zero _)
  | succ fuel ih =>
    rcases hdigits : hexDigits input with _ | ⟨d, _ | ⟨e, ds⟩⟩
    · rw [readChar_nil hdigits]
      rfl
    · obtain ⟨c, rest, hread, -, hrest⟩ := readChar_cons hdigits
      rw [hread, readChar_nil hrest]
      simp [hex2binLoop, pairBytes, chunks]
    · obtain ⟨c, rest, hread, hd, hrest⟩ := readChar_cons hdigits
      obtain ⟨c', rest', hread', he, hrest'⟩ := readChar_cons hrest
      have hbyte : (getDigit c <<< 4) ||| getDigit c' = bigEndian 16 [d, e] := by
        have hlt : e < 2 ^ 4 := by
          have hmem : e ∈ hexDigits input := by
            rw [hdigits]
            exact List.mem_cons_of_mem d List.mem_cons_self
          exact lt_of_mem_hexDigits e hmem
        rw [hd, he, shiftLeft_or hlt, ← List.singleton_append, bigEndian_concat,
          bigEndian_singleton]
        rfl
      have hshort : (hexDigits rest').length < fuel := by
        rw [hdigits, List.length_cons, List.length_cons] at hfuel
        rw [hrest']
        omega
      have hstep := ih hshort
      rw [hread, hread', hex2binLoop, hstep, hbyte, hrest', pairBytes_cons]
      rfl

lemma length_hexDigits_le (input : List Byte) : (hexDigits input).length ≤ input.length :=
  List.length_filterMap_le _ _

lemma hex2bin_eq (input : List Byte) : hex2bin input = some (pairBytes (hexDigits input)) :=
  hex2binLoop_eq (Nat.lt_succ_of_le (length_hexDigits_le input))

/-! ### The encoder -/

lemma hexDigits_printByte (value : Byte) :
    hexDigits (printByte value) = [value.toNat / 16, value.toNat % 16] := by
  have hlt := value.isLt
  simp [hexDigits, printByte, hexValue_hexChar (show value.toNat / 16 < 16 by omega),
    hexValue_hexChar (show value.toNat % 16 < 16 by omega)]

lemma pairByte_halves (value : Byte) : pairByte [value.toNat / 16, value.toNat % 16] = value := by
  have hvalue : bigEndian 16 [value.toNat / 16, value.toNat % 16] = value.toNat := by
    rw [← List.singleton_append, bigEndian_concat, bigEndian_singleton, Nat.mul_comm,
      Nat.div_add_mod]
  rw [pairByte, hvalue, BitVec.ofNat_toNat, BitVec.setWidth_eq]

/-- The newlines are no digits. -/
lemma pairBytes_bin2hexLoop (input : List Byte) (count : ℕ) :
    pairBytes (hexDigits (bin2hexLoop input count)) = input := by
  induction input generalizing count with
  | nil =>
    rw [bin2hexLoop, hexDigits_newline]
    rfl
  | cons value input ih =>
    have hnewline : hexDigits (if u32 (count + 1) = 64 then [newline] else []) = [] := by
      split_ifs
      · exact hexDigits_newline
      · rfl
    rw [bin2hexLoop, hexDigits_append, hexDigits_append, hexDigits_printByte, hnewline,
      List.append_nil, List.cons_append, List.singleton_append, pairBytes_cons, pairByte_halves, ih]

/-- The decoder undoes the encoder, and on any text it writes the bytes of the consecutive pairs of
hexadecimal digits. -/
theorem hex2bin_undoes_bin2hex :
    (∀ bytes, hex2bin (bin2hex bytes) = some bytes) ∧
      ∀ input, hex2bin input = some (pairBytes (hexDigits input)) := by
  refine ⟨fun bytes => ?_, hex2bin_eq⟩
  rw [hex2bin_eq, bin2hex, pairBytes_bin2hexLoop]

end Tools
