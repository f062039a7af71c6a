import Infnoise.Kernel.Driver
import Infnoise.Userspace.Main

/-!
# The Windows program

Model of `infnoise_win.c`, a program of its own that shares the health checker and the Keccak source
with the library. The functions of the FTDI driver are a script that says what they return, and
what is printed to `stderr` is left out. Its calls of the health checker name no state: the model
hands them the state of the one checker of the program. A function returns `none` only when the
doubling loop of the health checker does not end.
-/

namespace Windows

open Core Reference
open Kernel (KeccakState blockOf bufferBytes)
open Userspace (HealthState buflen comp1 comp2 swen1 swen2 predictionBits designK digitsValue isSpace
  inmHealthCheckStart inmHealthCheckAddBit inmHealthCheckOkToUseData inmClearEntropyLevel
  inmGetEntropyLevel inmEntropyOnTarget)

@[simp] def addr0 : ℕ := 3
@[simp] def addr1 : ℕ := 5
@[simp] def addr2 : ℕ := 6
@[simp] def addr3 : ℕ := 7

/-- Why the program ends once it is in its main loop: the status is 1 for the first three, and -1
for the others. -/
inductive Exit where
  | health
  | output
  | devRandom
  | usbWrite
  | usbRead
  deriving DecidableEq, Repr

/-- `makeAddress`. -/
def makeAddress (addr : Byte) : Byte :=
  let value : Byte := 0
  let value := if addr &&& 1 ≠ 0 then value ||| ((1 : Byte) <<< addr0) else value
  let value := if addr &&& 2 ≠ 0 then value ||| ((1 : Byte) <<< addr1) else value
  let value := if addr &&& 4 ≠ 0 then value ||| ((1 : Byte) <<< addr2) else value
  if addr &&& 8 ≠ 0 then value ||| ((1 : Byte) <<< addr3) else value

/-! ### Bit extraction -/

/-- One round of the inner loop of `extractBytes`: sample `8 * i + j`. -/
def extractBit (inBuf : ℕ → Byte) (i j : ℕ) (s : Byte × HealthState) :
    Option (Bool × Byte × HealthState) :=
  let val := inBuf (i * 8 + j)
  let evenBit := ((val >>> comp2) &&& 1) == 1
  let oddBit := ((val >>> comp1) &&& 1) == 1
  let even := j % 2 == 1
  -- not as in the library, which takes the even bit here
  let bit := if even then oddBit else evenBit
  let byte := (s.1 <<< 1) ||| (if bit then 1 else 0)
  (inmHealthCheckAddBit s.2 evenBit oddBit even).map fun (ok, health) => (ok, byte, health)

/-- One round of the outer loop: byte `i`, which is not stored when a bit fails. -/
def extractByte (inBuf : ℕ → Byte) (i : ℕ) (s : (ℕ → Byte) × HealthState) :
    Option (Bool × (ℕ → Byte) × HealthState) :=
  (forWhile 8 (extractBit inBuf i) (0, s.2)).map fun (ok, byte, health) =>
    (ok, if ok then Function.update s.1 i byte else s.1, health)

/-- `extractBytes`: the entropy level, the bytes, and the health checker. -/
def extractBytes (health : HealthState) (bytes inBuf : ℕ → Byte) :
    Option (Except Exit ℕ × (ℕ → Byte) × HealthState) :=
  (forWhile (buflen / 8) (extractByte inBuf) (bytes, inmClearEntropyLevel health)).map
    fun (ok, bytes, health) =>
      (if ok then .ok (inmGetEntropyLevel health) else .error .health, bytes, health)

/-! ### Output -/

/-- `outFile`: the bytes written so far, and how many more it takes, if there is a bound. -/
structure OutFile where
  written : List Byte
  room : Option ℕ

/-- `fwrite`: how many bytes the file takes. -/
def OutFile.fwrite (outFile : OutFile) (bytes : ℕ → Byte) (length : ℕ) : ℕ × OutFile :=
  let count :=
    match outFile.room with
    | none => length
    | some room => min length room
  (count,
    { written := outFile.written ++ bufferBytes bytes count
      room := outFile.room.map fun room => room - count })

/-- `outputBytes`. It caps the entropy, and then does nothing with it. -/
def outputBytes (outFile : OutFile) (bytes : ℕ → Byte) (length _entropy : ℕ)
    (writeDevRandom : Bool) : Option Exit × OutFile :=
  if !writeDevRandom then
    let (count, outFile) := outFile.fwrite bytes length
    (if count ≠ length then some .output else none, outFile)
  else (some .devRandom, outFile)

/-! ### Whitening -/

/-- The number of lanes that a round of the loop in `processBytes` extracts. -/
def lanesOf (outputMultiplier : ℕ) : ℕ := if outputMultiplier < 4 then outputMultiplier * 4 else 16

/-- A round makes the multiplier smaller. -/
lemma sub_lanesOf_lt {outputMultiplier : ℕ} (h : outputMultiplier > 0) :
    outputMultiplier - lanesOf outputMultiplier / 4 < outputMultiplier := by
  rw [lanesOf]
  split <;> omega

/-- The loop of `processBytes`: whether the program ends, the file, and the state. -/
def squeezeLoop (tables : KeccakTables) (outFile : OutFile) (keccakState : KeccakState)
    (dataOut : ℕ → Byte) (entropy : ℕ) (writeDevRandom : Bool) (outputMultiplier : ℕ) :
    Option Exit × OutFile × KeccakState :=
  if outputMultiplier > 0 then
    let numLanes := lanesOf outputMultiplier
    let dataOut := keccakExtract keccakState dataOut numLanes
    let keccakState := keccakPermutation tables keccakState
    let entropyThisTime := if entropy > numLanes * 64 then numLanes * 64 else entropy
    match outputBytes outFile dataOut (numLanes * 8) entropyThisTime writeDevRandom with
    | (some exit, outFile) => (some exit, outFile, keccakState)
    | (none, outFile) =>
      squeezeLoop tables outFile keccakState dataOut (entropy - entropyThisTime) writeDevRandom
        (outputMultiplier - numLanes / 4)
  else (none, outFile, keccakState)
termination_by outputMultiplier
decreasing_by
  apply sub_lanesOf_lt
  assumption

/-- `processBytes`. The bytes of `dataOut` that are written to the file are all set before. -/
def processBytes (tables : KeccakTables) (outFile : OutFile) (keccakState : KeccakState)
    (bytes : ℕ → Byte) (entropy : ℕ) (raw writeDevRandom : Bool) (outputMultiplier : ℕ) :
    Option Exit × OutFile × KeccakState :=
  if raw then
    let (exit, outFile) := outputBytes outFile bytes (buflen / 8) entropy writeDevRandom
    (exit, outFile, keccakState)
  else
    let keccakState := keccakAbsorb tables keccakState bytes (buflen / 64)
    squeezeLoop tables outFile keccakState (fun _ => 0) entropy writeDevRandom outputMultiplier

/-! ### The command line -/

/-- What the loop over the arguments sets. -/
structure Options where
  raw : Bool
  debug : Bool
  writeDevRandom : Bool
  noOutput : Bool
  outFileName : Option String
  outputMultiplier : ℕ

def initialOptions : Options where
  raw := false
  debug := false
  writeDevRandom := false
  noOutput := false
  outFileName := none
  outputMultiplier := 2

/-- `atoi` of the Windows runtime, which stops at the bounds of an `int`. -/
def atoi (text : String) : ℤ :=
  match text.toList.dropWhile isSpace with
  | '-' :: digits => max (-2147483648) (-(digitsValue digits 0 : ℤ))
  | '+' :: digits => min 2147483647 (digitsValue digits 0 : ℤ)
  | digits => min 2147483647 (digitsValue digits 0 : ℤ)

/-- The loop over the arguments; `none` when `main` returns. -/
def processArguments : Options → List String → Option Options
  | options, [] => some options
  | options, arg :: rest =>
    if arg = "--raw" then processArguments { options with raw := true } rest
    else if arg = "--debug" then processArguments { options with debug := true } rest
    else if arg = "--dev-random" then processArguments { options with writeDevRandom := true } rest
    else if arg = "--no-output" then processArguments { options with noOutput := true } rest
    else
      match arg == "--multiplier", rest with
      | true, value :: rest =>
        let outputMultiplier := (atoi value % 4294967296).toNat
        if outputMultiplier = 0 then none
        else processArguments { options with outputMultiplier } rest
      | _, rest =>
        -- an argument that is not known may only be the last one
        if arg = "--help" ∨ arg = "--?" ∨ rest ≠ [] then none
        else some { options with outFileName := some arg }

/-! ### `main` -/

/-- What `FT_Write` and `FT_Read` return: whether it is `FT_OK`, and the number of bytes. -/
structure FtTransfer where
  ok : Bool
  count : ℕ

/-- The transfer is complete. -/
def FtTransfer.complete (transfer : FtTransfer) (length : ℕ) : Bool :=
  transfer.ok && transfer.count == length

/-- What the FTDI driver answers to `initializeUSB`. -/
structure FtScript where
  opened : Bool
  setBaudRate : Bool
  setBitMode : Bool
  write : FtTransfer
  read : FtTransfer

/-- `initializeUSB`, with the message that it sets. -/
def initializeUSB (script : FtScript) : Bool × Option String :=
  if !script.opened then (false, some "Can't find Infinite Noise Multiplier\n")
  else if !script.setBaudRate then (false, some "Setting baud rate failed\n")
  else if !script.setBitMode then (false, some "Can't enable bit-bang mode\n")
  else if !script.write.complete 64 then (false, some "USB write failed\n")
  else if !script.read.complete 64 then (false, some "USB read failed\n")
  else (true, none)

/-- The state of the main loop. The tables are the static ones of the Keccak source. -/
structure Process where
  tables : KeccakTables
  keccakState : KeccakState
  health : HealthState
  outBuf : ℕ → Byte
  outFile : OutFile
  exit : Option Exit

/-- What the system and the device answer before the main loop: the arguments, whether the file is
opened and set to binary mode, what it takes, whether the tables of the health checker are
allocated, and the two attempts to initialise the device. -/
structure StartScript where
  args : List String
  fileReady : Bool
  room : Option ℕ
  allocated : Bool
  usb : FtScript
  retry : FtScript

/-- The loop that fills `outBuf`. -/
def fillOutBuf (outBuf : ℕ → Byte) : ℕ → Byte :=
  forLoop buflen (fun i outBuf =>
    Function.update outBuf i ((if i % 2 = 1 then (1 : Byte) <<< swen2 else (1 : Byte) <<< swen1) |||
      makeAddress (BitVec.ofNat 8 (i &&& 0xf)))) outBuf

/-- `main` up to its loop, with the static tables and the memory of the health checker as they
are; `none` when it returns. -/
def startMain (log : Float → Float) (tables : KeccakTables) (memory : HealthState)
    (script : StartScript) : Option (Options × Process) := do
  let options ← processArguments initialOptions script.args
  if !script.fileReady then none
  let (started, health) :=
    inmHealthCheckStart log memory predictionBits designK options.debug script.allocated
  if !started then none
  let keccakState := keccakInitializeState
  if !(initializeUSB script.usb).1 && !(initializeUSB script.retry).1 then none
  return (options,
    { tables
      keccakState
      health
      outBuf := fillOutBuf fun _ => 0
      outFile := ⟨[], script.room⟩
      exit := none })

/-- What the FTDI driver answers in one round. -/
structure Round where
  write : FtTransfer
  read : FtTransfer
  inBuf : ℕ → Byte

/-- A block that is handed to `processBytes`. -/
structure AcceptedBlock where
  bytes : Vector Byte 64
  entropy : ℕ

/-- One round of the main loop, with the block that it accepts, if any. -/
def mainStep (options : Options) (p : Process) (round : Round) :
    Option (Option AcceptedBlock × Process) :=
  if p.exit.isSome then none
  else if !round.write.complete buflen then some (none, { p with exit := some .usbWrite })
  else if !round.read.complete buflen then some (none, { p with exit := some .usbRead })
  else
    (extractBytes p.health (fun _ => 0) round.inBuf).map fun
      | (.error exit, _, health) => (none, { p with health, exit := some exit })
      | (.ok entropy, bytes, health) =>
        if !options.noOutput && inmHealthCheckOkToUseData health &&
            inmEntropyOnTarget health entropy buflen then
          let (exit, outFile, keccakState) := processBytes p.tables p.outFile p.keccakState bytes
            entropy options.raw options.writeDevRandom options.outputMultiplier
          (some ⟨blockOf bytes, entropy⟩, { p with health, outFile, keccakState, exit })
        else (none, { p with health })

end Windows
