import Infnoise.Kernel.Device
import Infnoise.Keccak.Sources
import Infnoise.Userspace.Health

/-!
# The userspace library

Model of `libinfnoise.c` on Linux. The USB device and the clock are scripts that say what
`libftdi` and `clock_gettime` return. A function returns `none` only when a loop does not come to
an end.
-/

namespace Userspace

open Core Reference
open Kernel (KeccakState SpongeOp selectBit)

/-! ### Constants -/

@[simp] def buflen : ℕ := 512
@[simp] def maxMicrosecForSamples : ℕ := 5000
@[simp] def comp1 : ℕ := 1
@[simp] def comp2 : ℕ := 4
@[simp] def swen1 : ℕ := 2
@[simp] def swen2 : ℕ := 0

/-- The codes of `infnoise_error_t` that the library returns. -/
inductive InfnoiseError where
  | usbWrite
  | usbRead
  | health
  deriving DecidableEq, Repr

def InfnoiseError.code : InfnoiseError → ℤ
  | usbWrite => -1
  | usbRead => -2
  | health => -3

/-- `struct infnoise_context`, together with the static tables of the Keccak source. -/
structure Context where
  entropyThisTime : ℕ
  message : String
  keccakBytesGiven : ℕ
  keccakState : KeccakState
  outBuf : ℕ → Byte
  health : HealthState
  tables : KeccakTables

/-- `prepareOutputBuffer`. -/
def prepareOutputBuffer (outBuf : ℕ → Byte) : ℕ → Byte :=
  forLoop (buflen / 2) (fun i outBuf =>
    Function.update (Function.update outBuf (2 * i) (1 <<< swen1)) (2 * i + 1) (1 <<< swen2)) outBuf

/-! ### Bit extraction -/

/-- One round of the inner loop of `extractBytes`: sample `8 * i + j`. -/
def extractBit (inBuf : ℕ → Byte) (i j : ℕ) (s : Byte × HealthState) :
    Option (Bool × Byte × HealthState) :=
  let val := inBuf (i * 8 + j)
  let evenBit := ((val >>> comp2) &&& 1) == 1
  let oddBit := ((val >>> comp1) &&& 1) == 1
  let even := j % 2 == 1
  let byte := (s.1 <<< 1) ||| (if selectBit evenBit oddBit even then 1 else 0)
  (inmHealthCheckAddBit s.2 evenBit oddBit even).map fun (ok, health) => (ok, byte, health)

/-- One round of the outer loop: byte `i`, which is not stored when a bit fails. -/
def extractByte (inBuf : ℕ → Byte) (i : ℕ) (s : (ℕ → Byte) × HealthState) :
    Option (Bool × (ℕ → Byte) × HealthState) :=
  (forWhile 8 (extractBit inBuf i) (0, s.2)).map fun (ok, byte, health) =>
    (ok, if ok then Function.update s.1 i byte else s.1, health)

/-- `extractBytes`: whether no bit failed, the bytes, and the context. -/
def extractBytes (context : Context) (bytes : ℕ → Byte) (length : ℕ) (inBuf : ℕ → Byte) :
    Option (Bool × (ℕ → Byte) × Context) :=
  (forWhile length (extractByte inBuf) (bytes, inmClearEntropyLevel context.health)).map
    fun (ok, bytes, health) =>
      if ok then
        (true, bytes, { context with health, entropyThisTime := inmGetEntropyLevel health })
      else
        (false, bytes, { context with
          health, message := "Health check of Infinite Noise Multiplier failed!" })

/-! ### Whitening -/

/-- What the code that fills `result` leaves: the number of bytes it returns, the buffer, the
context, the number of bytes stored in the buffer, and the log of the sponge. The last two are no
state of the library. -/
structure Filled where
  count : ℕ
  result : Option (ℕ → Byte)
  context : Context
  written : ℕ
  ops : List SpongeOp

/-- The lines that `processBytes` and `readData` have in common: up to 1024 bits of the bytes
still to be given. -/
def squeezeChunk (context : Context) (result : Option (ℕ → Byte)) : Filled :=
  let bytesToWrite := 1024 / 8
  let bytesToWrite :=
    if bytesToWrite > context.keccakBytesGiven then context.keccakBytesGiven else bytesToWrite
  { count := bytesToWrite
    result := result.map fun result => keccakExtract context.keccakState result (bytesToWrite / 8)
    context := { context with
      keccakState := keccakPermutation context.tables context.keccakState
      keccakBytesGiven := subU32 context.keccakBytesGiven bytesToWrite }
    written := bytesToWrite / 8 * 8
    ops := [.extract (bytesToWrite / 8), .permute] }

/-- The bound on the entropy of a block that `expectedEntropyPerBit` gives. -/
def entropyCap (hc : HealthState) : Float :=
  hc.expectedEntropyPerBit * Float.ofNat buflen / inmAccuracy

/-- The lower of the measured entropy and the bound. -/
def Context.capEntropy (context : Context) : Context :=
  if entropyCap context.health < Float.ofNat context.entropyThisTime then
    { context with entropyThisTime := (entropyCap context.health).toUInt32.toNat }
  else context

/-- The block goes into the sponge. -/
def Context.absorb (context : Context) (bytes : ℕ → Byte) : Context :=
  { context with
    keccakState := keccakAbsorb context.tables context.keccakState bytes (buflen / 64) }

/-- `outputMultiplier * 256u / 8u`, in 32-bit arithmetic. -/
def bytesOfMultiplier (outputMultiplier : ℕ) : ℕ := u32 (outputMultiplier * 256) / 8

/-- `processBytes`. A null `result` is only passed with `raw` set. -/
def processBytes (context : Context) (bytes : ℕ → Byte) (result : Option (ℕ → Byte)) (raw : Bool)
    (outputMultiplier : ℕ) : Filled :=
  let context := context.capEntropy
  if raw then
    { count := buflen / 8
      result := result.map fun result => memcpy result 0 bytes (buflen / 8)
      context
      written := buflen / 8
      ops := [] }
  else
    let block := SpongeOp.absorb (.ofFn fun i => bytes i)
    let context := context.absorb bytes
    if outputMultiplier = 0 then
      -- all the bytes of entropy there are; the bytes of `dataOut` below are all written first
      let lanes := u32 (context.entropyThisTime + 63) / 64
      let dataOut := keccakExtract context.keccakState (fun _ => 0) lanes
      { count := context.entropyThisTime / 8
        result := result.map fun result => memcpy result 0 dataOut (context.entropyThisTime / 8)
        context
        written := context.entropyThisTime / 8
        ops := [block, .extract lanes] }
    else if context.keccakBytesGiven = 0 then
      let filled := squeezeChunk
        { context with keccakBytesGiven := bytesOfMultiplier outputMultiplier } result
      { filled with ops := block :: filled.ops }
    else
      { count := 0
        result
        context
        written := 0
        ops := [block] }

/-! ### Reading -/

/-- `struct timespec`. -/
structure Timespec where
  tvSec : ℤ
  tvNsec : ℤ

/-- `diffTime`: the seconds are kept in an unsigned word, the nanoseconds in a signed one. -/
def diffTime (start stop : Timespec) : Float :=
  let seconds := ((stop.tvSec - start.tvSec) % 4294967296).toNat
  let nanoseconds := (stop.tvNsec - start.tvNsec).bmod 4294967296
  Float.ofNat seconds * 1.0e6 + Float.ofInt nanoseconds / 1000.0

/-- What the clock and the device answer to one call of `readData` that uses them. -/
structure UsbScript where
  start : Timespec
  write : ℤ
  read : ℤ
  inBuf : ℕ → Byte
  stop : Timespec

/-- What a call of `readData` returns and leaves, with the samples it read from the device, whether
it used their block, the number of bytes it stored in `result` and the log of the sponge. A count
is below `2 ^ 31`, so the cast to `int32_t` keeps it. -/
structure ReadResult where
  rc : Except InfnoiseError ℕ
  result : Option (ℕ → Byte)
  context : Context
  samples : Option (ℕ → Byte)
  accepted : Bool
  written : ℕ
  ops : List SpongeOp

/-- A call that fails or asks to be tried again leaves the buffer and the sponge alone. -/
def nothingRead (rc : Except InfnoiseError ℕ) (result : Option (ℕ → Byte)) (context : Context)
    (samples : Option (ℕ → Byte)) : ReadResult where
  rc
  result
  context
  samples
  accepted := false
  written := 0
  ops := []

/-- A call that fills the buffer uses the block it read, if any. -/
def Filled.toRead (filled : Filled) (samples : Option (ℕ → Byte)) : ReadResult where
  rc := .ok filled.count
  result := filled.result
  context := filled.context
  samples
  accepted := samples.isSome
  written := filled.written
  ops := filled.ops

/-- Whether the block just extracted may be used. -/
def Context.accepts (context : Context) : Bool :=
  inmHealthCheckOkToUseData context.health &&
    inmEntropyOnTarget context.health context.entropyThisTime buflen

/-- `readData`. -/
def readData (context : Context) (script : UsbScript) (result : Option (ℕ → Byte)) (raw : Bool)
    (outputMultiplier : ℕ) : Option ReadResult :=
  if context.keccakBytesGiven = 0 then
    if script.write ≠ buflen then
      some (nothingRead (.error .usbWrite) result { context with message := "USB write failed" } none)
    else if script.read ≠ buflen then
      some (nothingRead (.error .usbRead) result { context with message := "USB read failed" } none)
    else if Float.ofNat maxMicrosecForSamples < diffTime script.start script.stop then
      some (nothingRead (.ok 0) result context (some script.inBuf))
    else
      (extractBytes context (fun _ => 0) (buflen / 8) script.inBuf).map fun
        | (false, _, context) =>
          nothingRead (.error .health) result context (some script.inBuf)
        | (true, bytes, context) =>
          if !context.accepts then nothingRead (.ok 0) result context (some script.inBuf)
          else (processBytes context bytes result raw outputMultiplier).toRead (some script.inBuf)
  else some ((squeezeChunk context result).toRead none)

/-! ### Initialisation -/

/-- What `libftdi` and the system answer to `initializeUSB`. -/
structure FtdiScript where
  findAll : ℤ
  opened : ℤ
  setBaudrate : ℤ
  setBitmode : ℤ
  write : ℤ
  read : ℤ
  superUser : Bool

/-- `initializeUSB`, with the message that stands in the context. -/
def initializeUSB (script : FtdiScript) (message : String) (serial : Option String) :
    Bool × String :=
  if script.findAll < 0 then (false, "Can't find Infinite Noise Multiplier")
  else
    let message :=
      if serial.isNone ∧ script.findAll ≥ 2 then
        "Multiple Infnoise TRNGs found and serial not specified, using the first one!"
      else message
    if script.opened < 0 then
      (false,
        match serial, script.superUser with
        | none, false => "Can't open Infinite Noise Multiplier. Try running as super user?"
        | none, true => "Can't open Infinite Noise Multiplier."
        | some _, false => "Can't find Infinite Noise Multiplier. Try running as super user?"
        | some _, true => "Can't find Infinite Noise Multiplier with given serial")
    else if script.setBaudrate = -1 then (false, "Invalid baud rate")
    else if script.setBaudrate = -2 then (false, "Setting baud rate failed")
    else if script.setBaudrate = -3 then (false, "Infinite Noise Multiplier unavailable")
    else if script.setBitmode = -1 then (false, "Can't enable bit-bang mode")
    else if script.setBitmode = -2 then (false, "Infinite Noise Multiplier unavailable\n")
    else if script.write ≠ 64 then (false, "USB write failed")
    else if script.read ≠ 64 then (false, "USB read failed")
    else (true, message)

/-- What the system and the device answer to `initInfnoise`: whether the tables are allocated, the
two attempts to initialise the device, and the rounds of the warm-up. -/
structure InitScript where
  allocated : Bool
  usb : FtdiScript
  retry : FtdiScript
  rounds : ℕ → UsbScript

@[simp] def maxWarmupRounds : ℕ := 5000

/-- The warm-up loop, for at most `fuel` rounds; `none` when it goes on after them. -/
def warmupLoop : ℕ → (ℕ → UsbScript) → ℕ → Context → Option (ℕ × Context)
  | 0, _, warmupRounds, context =>
    if inmHealthCheckOkToUseData context.health then some (warmupRounds, context) else none
  | fuel + 1, rounds, warmupRounds, context =>
    if inmHealthCheckOkToUseData context.health then some (warmupRounds, context)
    else
      match readData context (rounds 0) none true 1 with
      | none => none
      | some r => warmupLoop fuel (fun i => rounds (i + 1)) (u32 (warmupRounds + 1)) r.context

/-- `initInfnoise` on memory that held `context`; `none` when the warm-up goes on after `fuel`
rounds. -/
def initInfnoise (log : Float → Float) (context : Context) (serial : Option String)
    (keccak debug : Bool) (script : InitScript) (fuel : ℕ) : Option (Bool × Context) :=
  let context := { context with
    message := ""
    entropyThisTime := 0
    keccakBytesGiven := 0
    outBuf := prepareOutputBuffer context.outBuf }
  match inmHealthCheckStart log context.health predictionBits designK debug script.allocated with
  | (false, health) =>
    some (false, { context with health, message := "Can't initialize health checker" })
  | (true, health) =>
    let usb :=
      match initializeUSB script.usb context.message serial with
      | (true, message) => (true, message)
      | (false, message) => initializeUSB script.retry message serial
    match usb with
    | (false, message) => some (false, { context with health, message })
    | (true, message) =>
      let context := { context with health, message }
      let context :=
        if keccak then
          { context with
            tables := keccakInitialize context.tables, keccakState := keccakInitializeState }
        else context
      (warmupLoop fuel script.rounds 0 context).map fun (warmupRounds, context) =>
        if warmupRounds > maxWarmupRounds then
          (false, { context with
            message := "Unable to collect enough entropy to initialize health checker." })
        else (true, context)

end Userspace
