import Infnoise.Kernel.Health
import Infnoise.Keccak.Sources
import Infnoise.Kernel.Usb

/-!
# The device of the kernel driver

Model of `infnoise_main.c` under the device lock: bit extraction, the transfer with its retries
and recovery, and `infnoise_read_data`. The USB device is a script that says how it answers. A
function returns `none` only when the doubling loop of the health checker does not end.
-/

namespace Kernel

open Core

@[simp] def infnoiseComp1 : ℕ := 1
@[simp] def infnoiseComp2 : ℕ := 4
@[simp] def infnoiseSwen1 : ℕ := 2
@[simp] def infnoiseSwen2 : ℕ := 0
@[simp] def infnoiseMaxRetries : ℕ := 3
@[simp] def infnoiseRecoveryThreshold : ℕ := 5

/-- `struct infnoise_device`, as far as the functions below use it: the buffers, the sponge, two
of the flags, and the counters. -/
structure Device where
  clockBuf : ℕ → Byte
  usbBuf : ℕ → Byte
  readBuf : ℕ → Byte
  outBuf : ℕ → Byte
  health : Health
  keccak : KeccakState
  keccakBytesLeft : ℕ
  present : Bool
  healthFail : Bool
  bytesGenerated : ℕ
  usbErrors : ℕ
  consecutiveErrors : ℕ
  recoveries : ℕ

/-- `infnoise_prepare_clock_buffer`. -/
def infnoisePrepareClockBuffer (clockBuf : ℕ → Byte) : ℕ → Byte :=
  forLoop (infnoiseBuflen / 2) (fun i clockBuf =>
    Function.update (Function.update clockBuf (2 * i) (1 <<< infnoiseSwen1))
      (2 * i + 1) (1 <<< infnoiseSwen2)) clockBuf

/-! ### Bit extraction -/

/-- The comparator bits of a sample. -/
def evenBitOf (val : Byte) : Bool := ((val >>> infnoiseComp2) &&& 1) == 1

def oddBitOf (val : Byte) : Bool := ((val >>> infnoiseComp1) &&& 1) == 1

/-- One round of the inner loop of `infnoise_extract_bytes`: sample `8 * i + j`. -/
def extractBit (inBuf : ℕ → Byte) (i j : ℕ) (s : Byte × Health) : Option (Bool × Byte × Health) :=
  let val := inBuf (i * 8 + j)
  let even := j % 2 == 1
  let bit := selectBit (evenBitOf val) (oddBitOf val) even
  let byte := (s.1 <<< 1) ||| (if bit then 1 else 0)
  (infnoiseHealthAddBit s.2 (evenBitOf val) (oddBitOf val) even).map fun (ok, health) =>
    (ok, byte, health)

/-- One round of the outer loop: byte `i`, which is not stored when a bit fails. -/
def extractByte (inBuf : ℕ → Byte) (i : ℕ) (s : (ℕ → Byte) × Health) :
    Option (Bool × (ℕ → Byte) × Health) :=
  (forWhile 8 (extractBit inBuf i) (0, s.2)).map fun (ok, byte, health) =>
    (ok, if ok then Function.update s.1 i byte else s.1, health)

/-- `infnoise_extract_bytes` into `out_buf`. The entropy level is at most 32 per sample, so it
is not negative as an `int`. -/
def infnoiseExtractBytes (dev : Device) (length : ℕ) (inBuf : ℕ → Byte) :
    Option (Except Errno ℕ × Device) :=
  (forWhile length (extractByte inBuf) (dev.outBuf, infnoiseHealthClearEntropy dev.health)).map
    fun (ok, outBuf, health) =>
      if ok then (.ok (infnoiseHealthGetEntropy health), { dev with outBuf, health })
      else (.error .eio, { dev with outBuf, health, healthFail := true })

/-! ### Transfers -/

/-- The control requests of `infnoise_configure_ftdi`, in its order. -/
inductive FtdiRequest where
  | resetSio
  | setLatencyTimer
  | setBaudrate
  | setBitmode
  | purgeRx
  | purgeTx
  deriving DecidableEq

/-- How the device answers a control request: `none` when it carries it out. -/
abbrev FtdiAnswers := FtdiRequest → Option Errno

/-- Issue requests until one fails: those carried out, and the error. -/
def ftdiRequests (answers : FtdiAnswers) : List FtdiRequest → List FtdiRequest × Option Errno
  | [] => ([], none)
  | request :: rest =>
    match answers request with
    | some e => ([], some e)
    | none => (request :: (ftdiRequests answers rest).1, (ftdiRequests answers rest).2)

/-- `infnoise_configure_ftdi`. -/
def infnoiseConfigureFtdi (answers : FtdiAnswers) : List FtdiRequest × Option Errno :=
  ftdiRequests answers [.resetSio, .setLatencyTimer, .setBaudrate, .setBitmode, .purgeRx, .purgeTx]

/-- How the device answers a recovery: the first configuration, the USB reset, and the
configuration after the reset. -/
structure RecoveryScript where
  configure : FtdiAnswers
  reset : Option Errno
  reconfigure : FtdiAnswers

/-- The requests of `infnoise_try_recovery` that are carried out, and its error. -/
def recoveryRequests (script : RecoveryScript) : List FtdiRequest × Option Errno :=
  match infnoiseConfigureFtdi script.configure with
  | (requests, none) => (requests, none)
  | (requests, some _) =>
    match script.reset with
    | some e => (requests, some e)
    | none =>
      let (requests', error) := infnoiseConfigureFtdi script.reconfigure
      (requests ++ requests', error)

/-- `infnoise_try_recovery`: its error, if any. -/
def infnoiseTryRecovery (dev : Device) (script : RecoveryScript) : Option Errno × Device :=
  if !dev.present then (some .enodev, dev)
  else
    match (recoveryRequests script).2 with
    | some e => (some e, dev)
    | none => (none, { dev with recoveries := u32 (dev.recoveries + 1), consecutiveErrors := 0 })

/-- How the device answers one attempt, and the recovery after it, should there be one. -/
structure AttemptScript where
  write : Except Errno ℕ
  reads : List (BulkIn Byte)
  recovery : RecoveryScript

/-- `infnoise_usb_transfer_once`. -/
def infnoiseUsbTransferOnce (dev : Device) (script : AttemptScript) :
    Option (Except Errno ℕ × Device) :=
  match receiveSamples script.write script.reads dev.usbBuf dev.readBuf with
  | (some e, usbBuf, readBuf) => some (.error e, { dev with usbBuf, readBuf })
  | (none, usbBuf, readBuf) =>
    infnoiseExtractBytes { dev with usbBuf, readBuf } infnoiseBytesOut readBuf

/-- What `infnoise_usb_transfer` does after an attempt: `none` when it goes on to the next one,
or the value it returns. -/
def afterAttempt (dev : Device) (script : AttemptScript) :
    Except Errno ℕ → Option (Except Errno ℕ) × Device
  | .ok entropy => (some (.ok entropy), { dev with consecutiveErrors := 0 })
  | .error e =>
    let dev := { dev with
      usbErrors := u32 (dev.usbErrors + 1)
      consecutiveErrors := u32 (dev.consecutiveErrors + 1) }
    if !infnoiseIsRecoverableError e then (some (.error e), dev)
    else if dev.consecutiveErrors ≥ infnoiseRecoveryThreshold then
      match infnoiseTryRecovery dev script.recovery with
      | (some e', dev) => (some (.error e'), dev)
      | (none, dev) => (none, dev)
    else (none, dev)

/-- The retry loop with `retries` attempts left, the last of which returned `last`. -/
def transferLoop (scripts : ℕ → AttemptScript) :
    ℕ → Except Errno ℕ → Device → Option (Except Errno ℕ × Device)
  | 0, last, dev => some (last, dev)
  | retries + 1, _, dev =>
    let script := scripts (infnoiseMaxRetries - (retries + 1))
    match infnoiseUsbTransferOnce dev script with
    | none => none
    | some (ret, dev) =>
      match afterAttempt dev script ret with
      | (some ret', dev) => some (ret', dev)
      | (none, dev) => transferLoop scripts retries ret dev

/-- `infnoise_usb_transfer`; `scripts i` answers attempt `i`. The first attempt sets `ret`, which
has no value before it. -/
def infnoiseUsbTransfer (dev : Device) (scripts : ℕ → AttemptScript) :
    Option (Except Errno ℕ × Device) :=
  transferLoop scripts infnoiseMaxRetries (.error .eio) dev

/-! ### Reading -/

/-- What happens to the sponge. The log of these is no state of the driver. -/
inductive SpongeOp where
  | absorb (block : Vector Byte 64)
  | extract (lanes : ℕ)
  | permute

/-- The 64 bytes of a block. -/
def blockOf (outBuf : ℕ → Byte) : Vector Byte 64 := .ofFn fun i => outBuf i

/-- What a call of `infnoise_read_data` returns and leaves, with the log of its sponge. -/
structure ReadResult where
  ret : Except Errno ℕ
  result : ℕ → Byte
  dev : Device
  ops : List SpongeOp

/-- `infnoise_keccak_squeeze`: how many bytes, the buffer, and the permuted sponge. -/
def infnoiseKeccakSqueeze (keccak : KeccakState) (result : ℕ → Byte) (maxLen : ℕ) :
    ℕ × (ℕ → Byte) × KeccakState :=
  let outBytes := min maxLen 128
  (outBytes, infnoiseKeccakExtract keccak result ((outBytes + 7) / 8),
    infnoiseKeccakPermutation keccak)

/-- The lines the two branches that squeeze have in common: at most `max_len` of the bytes left. -/
def squeezeLeft (dev : Device) (result : ℕ → Byte) (maxLen : ℕ) : ReadResult :=
  let outBytes := min maxLen dev.keccakBytesLeft
  let (outBytes, result, keccak) := infnoiseKeccakSqueeze dev.keccak result outBytes
  { ret := .ok outBytes
    result
    dev := { dev with
      keccak
      keccakBytesLeft := subU32 dev.keccakBytesLeft outBytes
      bytesGenerated := u64 (dev.bytesGenerated + outBytes) }
    ops := [.extract ((outBytes + 7) / 8), .permute] }

/-- The output of a block: `mult * 32` bytes with the multiplier capped at 10, or the bytes of
its entropy when the multiplier is 0. -/
def outputBudget (multiplier entropy : ℕ) : ℕ :=
  let mult := if multiplier > 10 then 10 else multiplier
  if mult = 0 then entropy / 8 else mult * 32

/-- The block goes into the sponge, and its output is set up. -/
def Device.absorb (dev : Device) (multiplier entropy : ℕ) : Device :=
  { dev with
    keccak := infnoiseKeccakAbsorb dev.keccak dev.outBuf (infnoiseBytesOut / 8)
    keccakBytesLeft := u32 (outputBudget multiplier entropy) }

/-- The last branch of `infnoise_read_data`: absorb, and squeeze the first chunk. -/
def absorbAndSqueeze (dev : Device) (multiplier entropy : ℕ) (result : ℕ → Byte) (maxLen : ℕ) :
    ReadResult :=
  let r := squeezeLeft (dev.absorb multiplier entropy) result maxLen
  { r with ops := .absorb (blockOf dev.outBuf) :: r.ops }

/-- `infnoise_read_data`, while `infnoise_multiplier` is `multiplier`. -/
def infnoiseReadData (dev : Device) (multiplier : ℕ) (scripts : ℕ → AttemptScript)
    (result : ℕ → Byte) (maxLen : ℕ) (raw : Bool) : Option ReadResult :=
  if !dev.present then some ⟨.error .enodev, result, dev, []⟩
  else if dev.keccakBytesLeft > 0 ∧ !raw then some (squeezeLeft dev result maxLen)
  else
    (infnoiseUsbTransfer dev scripts).map fun
      | (.error e, dev) => ⟨.error e, result, dev, []⟩
      | (.ok entropy, dev) =>
        if !infnoiseHealthOk dev.health then ⟨.ok 0, result, dev, []⟩
        else if !infnoiseHealthEntropyOnTarget entropy infnoiseBuflen then ⟨.ok 0, result, dev, []⟩
        else if raw then
          let outBytes := min maxLen infnoiseBytesOut
          ⟨.ok outBytes, memcpy result 0 dev.outBuf outBytes,
            { dev with bytesGenerated := u64 (dev.bytesGenerated + outBytes) }, []⟩
        else absorbAndSqueeze dev multiplier entropy result maxLen

end Kernel
