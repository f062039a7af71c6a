import Infnoise.Userspace.Library

/-!
# The userspace program

Model of `infnoise.c` and `writeentropy.c` on Linux. The command line is the list of options
`getopt_long` returns. Writing to `stdout` can fail; the messages printed and the process that
`startDaemon` leaves behind are not modelled.
-/

namespace Userspace

open Core Reference

/-! ### The command line -/

/-- The options `getopt_long` returns, with their arguments. -/
inductive CommandOption where
  | raw
  | debug
  | devRandom
  | reseedCrng
  | noOutput
  | feedFrequency (optarg : String)
  | multiplier (optarg : String)
  | pidfile (optarg : String)
  | serial (optarg : String)
  | daemon
  | listDevices
  | version
  | help
  | unknown
  deriving DecidableEq

/-- `struct opt_struct`. -/
structure OptStruct where
  outputMultiplier : ℕ
  feedFreq : ℕ
  daemon : Bool
  debug : Bool
  devRandom : Bool
  forceReseed : Bool
  noOutput : Bool
  listDevices : Bool
  help : Bool
  none : Bool
  raw : Bool
  version : Bool
  pidFileName : Option String
  serial : Option String

/-- `initOpts`. -/
def initOpts : OptStruct where
  outputMultiplier := 0
  feedFreq := 30
  daemon := false
  debug := false
  devRandom := false
  forceReseed := false
  noOutput := false
  listDevices := false
  help := false
  none := false
  raw := false
  version := false
  pidFileName := Option.none
  serial := Option.none

/-- The value of the digits at the start of a text. -/
def digitsValue : List Char → ℕ → ℕ
  | [], value => value
  | c :: rest, value =>
    if c.isDigit then digitsValue rest (10 * value + (c.toNat - '0'.toNat)) else value

/-- `isspace`. -/
def isSpace (c : Char) : Bool := c == ' ' || (decide (9 ≤ c.toNat) && decide (c.toNat ≤ 13))

/-- `atoi` of the GNU library: white space, a sign and digits, read as a 64-bit `long` that stops
at its bounds and is then narrowed to an `int`. -/
def atoi (text : String) : ℤ :=
  let long :=
    match text.toList.dropWhile isSpace with
    | '-' :: digits => max (-9223372036854775808) (-(digitsValue digits 0 : ℤ))
    | '+' :: digits => min 9223372036854775807 (digitsValue digits 0 : ℤ)
    | digits => min 9223372036854775807 (digitsValue digits 0 : ℤ)
  long.bmod 4294967296

/-- The `switch` on one option; `none` when `main` returns. The flag says whether a multiplier was
given. -/
def processOption (s : OptStruct × Bool) : CommandOption → Option (OptStruct × Bool)
  | .raw => some ({ s.1 with raw := true }, s.2)
  | .debug => some ({ s.1 with debug := true }, s.2)
  | .devRandom => some ({ s.1 with devRandom := true }, s.2)
  | .reseedCrng => some ({ s.1 with forceReseed := true }, s.2)
  | .noOutput => some ({ s.1 with noOutput := true }, s.2)
  | .feedFrequency optarg =>
    let tmpFeedrate := atoi optarg
    if tmpFeedrate < 0 then none else some ({ s.1 with feedFreq := tmpFeedrate.toNat }, s.2)
  | .multiplier optarg =>
    let tmpOutputMult := atoi optarg
    if tmpOutputMult < 0 then none
    else some ({ s.1 with outputMultiplier := tmpOutputMult.toNat }, true)
  | .pidfile optarg =>
    if optarg.isEmpty then none else some ({ s.1 with pidFileName := some optarg }, s.2)
  | .serial optarg =>
    if optarg.isEmpty then none else some ({ s.1 with serial := some optarg }, s.2)
  | .daemon => some ({ s.1 with daemon := true }, s.2)
  | .listDevices => some ({ s.1 with listDevices := true }, s.2)
  | .version => some ({ s.1 with version := true }, s.2)
  | .help => some ({ s.1 with help := true }, s.2)
  | .unknown => some ({ s.1 with help := true, none := true }, s.2)

/-- The environment variables `INFNOISE_SERIAL`, `INFNOISE_DEBUG` and `INFNOISE_MULTIPLIER`. -/
structure Environment where
  serial : Option String
  debug : Option String
  multiplier : Option String

/-- The multiplier of the environment, when the command line gives none; `none` when `main`
returns. -/
def readMultiplier (env : Environment) (s : OptStruct × Bool) : Option (OptStruct × Bool) :=
  if s.2 then some s
  else
    match env.multiplier with
    | none => some s
    | some envMultiplier =>
      let tmpOutputMult := atoi envMultiplier
      if tmpOutputMult < 0 then none
      else some ({ s.1 with outputMultiplier := tmpOutputMult.toNat }, true)

/-- The part of `main` up to the initialisation of the device: the options it goes on with, or
`none` when it returns before. -/
def configure (env : Environment) (options : List CommandOption) : Option OptStruct := do
  let (opts, multiplierAssigned) ← options.foldlM processOption (initOpts, false)
  if opts.help ∨ opts.version then none
  let opts := { opts with
    serial := opts.serial.or env.serial
    debug := opts.debug || env.debug == some "true" }
  let (opts, multiplierAssigned) ← readMultiplier env (opts, multiplierAssigned)
  let opts :=
    if !multiplierAssigned && opts.devRandom then { opts with outputMultiplier := 2 } else opts
  if opts.listDevices then none
  return opts

/-! ### The entropy pool -/

/-- `inmPoolInfo` and the size it was allocated with. -/
structure PoolInfo where
  bufLen : ℕ
  entropyCount : ℕ
  bufSize : ℕ
  buf : ℕ → Byte

/-- `inmWriteEntropyStart`, when the pool can be opened and the buffer allocated. -/
def inmWriteEntropyStart (bufLen : ℕ) : PoolInfo where
  bufLen
  entropyCount := 0
  bufSize := 0
  buf := fun _ => 0

/-- `inmWriteEntropyToPool`: what is handed to `RNDADDENTROPY`. -/
def inmWriteEntropyToPool (pool : PoolInfo) (bytes : ℕ → Byte) (length entropy : ℕ) : PoolInfo :=
  { pool with
    entropyCount := entropy
    bufSize := length
    buf := memcpy pool.buf 0 bytes length }

/-! ### The main loop -/

/-- The state of the main loop, and whether `main` has returned. -/
structure Process where
  context : Context
  pool : PoolInfo
  returned : Bool

/-- What happens from outside in one round: the device, the contents of the fresh `result`, and
whether `stdout` takes the bytes. -/
structure Round where
  script : UsbScript
  result : ℕ → Byte
  fwriteOk : Bool

/-- What a round does: the call of `readData`, and what it hands to the entropy pool, if
anything. -/
structure RoundOutput where
  read : ReadResult
  poolWrite : Option PoolInfo

/-- `outputBytes`: whether it succeeds, and what it hands to the entropy pool. -/
def outputBytes (pool : PoolInfo) (bytes : ℕ → Byte) (length entropy : ℕ)
    (writeDevRandom fwriteOk : Bool) : Bool × Option PoolInfo :=
  if !writeDevRandom then (fwriteOk, none)
  else (true, some (inmWriteEntropyToPool pool bytes length entropy))

/-- One round of the main loop. -/
def mainStep (opts : OptStruct) (p : Process) (round : Round) : Option (RoundOutput × Process) :=
  if p.returned then none
  else
    (readData p.context round.script (some round.result) opts.raw opts.outputMultiplier).map
      fun read =>
        match read.rc with
        | .error _ => (⟨read, none⟩, { p with context := read.context, returned := true })
        | .ok bytesWritten =>
          if opts.noOutput then (⟨read, none⟩, { p with context := read.context })
          else
            let (ok, poolWrite) := outputBytes p.pool (read.result.getD round.result) bytesWritten
              read.context.entropyThisTime opts.devRandom round.fwriteOk
            (⟨read, poolWrite⟩,
              { context := read.context, pool := poolWrite.getD p.pool, returned := !ok })

/-- `main` up to its loop: the options and the state it enters the loop with, or `none` when it
returns before or the warm-up takes more than `fuel` rounds. `context` is what the memory of the
context holds. -/
def startMain (log : Float → Float) (env : Environment) (options : List CommandOption)
    (context : Context) (script : InitScript) (fuel : ℕ) : Option (OptStruct × Process) := do
  let opts ← configure env options
  let pool := inmWriteEntropyStart (buflen / 8)
  match initInfnoise log context opts.serial (!opts.raw) opts.debug script fuel with
  | some (true, context) => return (opts, { context, pool, returned := false })
  | _ => none

end Userspace
