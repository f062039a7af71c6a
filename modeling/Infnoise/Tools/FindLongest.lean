import Infnoise.Core.BigEndian
import Infnoise.Core.Buffer

/-!
# The longest repeated substring of a file

Model of `findlongest.c`, without its option `--test`. Its memory can always be allocated; what
`realloc` leaves in memory that is new is an argument. An access outside of a buffer has no result.
-/

namespace Tools

open Core

@[simp] def maxStringSize : ℕ := 34

/-! ### The file -/

/-- A round of the loop over the bits of a byte: a bit that is set is stored as `true`. -/
def storeBit (pos : ℕ) (s : Buffer × Byte) (i : ℕ) : Option (Buffer × Byte) :=
  (if s.2 &&& 1 ≠ 0 then s.1.write (u64 (8 * pos) + 7 - i) 1 else some s.1).map fun data =>
    (data, s.2 >>> 1)

def storeByte (pos : ℕ) (c : Byte) (data : Buffer) : Option (Buffer × Byte) :=
  (List.range 8).foldlM (storeBit pos) (data, c)

/-- The loop of `readDataFromFile`, on the rest of the file. -/
def readBytes (garbage : ℕ → Byte) : List Byte → ℕ → Buffer → Option (Buffer × ℕ)
  | [], pos, data => some (data, u64 (pos * 8))
  | c :: file, pos, data => do
    let data :=
      if u64 (u64 (pos * 8) + 8) ≥ data.size then data.realloc garbage (u64 (data.size <<< 1))
      else data
    let (data, _) ← storeByte pos c data
    readBytes garbage file (u64 (pos + 1)) data

/-- The array and its length. -/
def readDataFromFile (garbage : ℕ → Byte) (file : List Byte) : Option (Buffer × ℕ) :=
  readBytes garbage file 0 (.calloc 16384)

/-! ### The search -/

/-- `data[i]`, where `length` entries have been read from the file. A `bool` is read as `true` if
any of its bits is set. -/
def readEntry (data : Buffer) (length i : ℕ) : Option Bool :=
  if i < length then (data.read i).map fun v => v != 0 else none

/-- Shift entry `i` into `value`. -/
def shiftEntry (data : Buffer) (length i value : ℕ) : Option ℕ :=
  (readEntry data length i).map fun bit => u64 (value <<< 1) ||| bit.toNat

/-- The first loop: the entries from `i` on, `n` of them. -/
def firstWindow (data : Buffer) (length : ℕ) : ℕ → ℕ → ℕ → Option ℕ
  | 0, _, value => some value
  | n + 1, i, value => (shiftEntry data length i value).bind (firstWindow data length n (i + 1))

/-- The second loop, which has `n` rounds to go. -/
def scanWindows (substringLen : ℕ) (data : Buffer) (length : ℕ) :
    ℕ → ℕ → ℕ → Buffer → Option (Bool × Buffer)
  | 0, _, _, stringsSeen => some (false, stringsSeen)
  | n + 1, i, value, stringsSeen => do
    let byte ← stringsSeen.read (value >>> 3)
    if byte &&& ((1 : Byte) <<< (value &&& 7)) ≠ 0 then some (true, stringsSeen)
    else
      let stringsSeen ← stringsSeen.mark value
      let value ← shiftEntry data length i value
      scanWindows substringLen data length n (i + 1) (value &&& (u64 (1 <<< substringLen) - 1))
        stringsSeen

/-- The result, and the bitmap. -/
def hasSubstringOfLength (substringLen : ℕ) (data : Buffer) (length dataLen : ℕ)
    (stringsSeen : Buffer) : Option (Bool × Buffer) := do
  let stringsSeen ← stringsSeen.memset 0 (u32 (1 <<< (substringLen - 3)))
  let value ← firstWindow data length substringLen 0 0
  scanWindows substringLen data length (dataLen - substringLen) substringLen value stringsSeen

/-- What `main` prints at its end. -/
inductive Longest where
  | maximum (len : ℕ)
  | atLeast (len : ℕ)
  deriving DecidableEq

/-- The loop of `main`, with `n` lengths to go. The length of the array is narrowed to 32 bits. -/
def searchLengths (data : Buffer) (length : ℕ) : ℕ → ℕ → Buffer → Option Longest
  | 0, _, _ => some (.atLeast maxStringSize)
  | n + 1, len, stringsSeen =>
    match hasSubstringOfLength len data length (u32 length) stringsSeen with
    | none => none
    | some (false, _) => some (.maximum (len - 1))
    | some (true, stringsSeen) => searchLengths data length n (len + 1) stringsSeen

/-- `main`, for the lengths from 4 to `MAX_STRING_SIZE`. -/
def findlongest (garbage : ℕ → Byte) (file : List Byte) : Option Longest := do
  let (data, length) ← readDataFromFile garbage file
  searchLengths data length 31 4 (.calloc (u64 (1 <<< (maxStringSize - 4))))

end Tools
