import Infnoise.Core.BigEndian
import Infnoise.Core.Binary64
import Infnoise.Core.Bits
import Infnoise.Core.Budget
import Infnoise.Core.Buffer
import Infnoise.Core.Capacity
import Infnoise.Core.Chunks
import Infnoise.Core.Guessing
import Infnoise.Core.Heap
import Infnoise.Core.Layout
import Infnoise.Core.Loop
import Infnoise.Core.Machine
import Infnoise.Core.Meter
import Infnoise.Core.Mixing
import Infnoise.Core.Mutex
import Infnoise.Core.Ownership
import Infnoise.Core.Packing
import Infnoise.Core.Ranking
import Infnoise.Core.Rejection
import Infnoise.Core.ShiftRegister
import Infnoise.Core.Sponge
import Infnoise.Core.Surprise
import Infnoise.Core.Tables
import Infnoise.Core.Word
import Infnoise.Keccak.Agreement
import Infnoise.Keccak.Inverse
import Infnoise.Keccak.Sources
import Infnoise.Kernel.Accounting
import Infnoise.Kernel.CallerSize
import Infnoise.Kernel.Calls
import Infnoise.Kernel.Capacity
import Infnoise.Kernel.CharRead
import Infnoise.Kernel.Completion
import Infnoise.Kernel.Delivery
import Infnoise.Kernel.Device
import Infnoise.Kernel.Driver
import Infnoise.Kernel.EntropyGate
import Infnoise.Kernel.EntropyOnly
import Infnoise.Kernel.Estimate
import Infnoise.Kernel.Extraction
import Infnoise.Kernel.Fed
import Infnoise.Kernel.Framing
import Infnoise.Kernel.Gain
import Infnoise.Kernel.Health
import Infnoise.Kernel.HealthInvariant
import Infnoise.Kernel.HealthSafety
import Infnoise.Kernel.History
import Infnoise.Kernel.Improbable
import Infnoise.Kernel.Ioctl
import Infnoise.Kernel.Latch
import Infnoise.Kernel.Latency
import Infnoise.Kernel.Lifetime
import Infnoise.Kernel.Locking
import Infnoise.Kernel.Phase
import Infnoise.Kernel.Predictable
import Infnoise.Kernel.Probe
import Infnoise.Kernel.Progress
import Infnoise.Kernel.ReadData
import Infnoise.Kernel.Recovery
import Infnoise.Kernel.Session
import Infnoise.Kernel.Stats
import Infnoise.Kernel.Stripping
import Infnoise.Kernel.StuckAt
import Infnoise.Kernel.Surprise
import Infnoise.Kernel.Tasks
import Infnoise.Kernel.Termination
import Infnoise.Kernel.Transitions
import Infnoise.Kernel.Usb
import Infnoise.Kernel.Verdict
import Infnoise.Kernel.Warmup
import Infnoise.Kernel.Whitening
import Infnoise.Tools.BitmapBounds
import Infnoise.Tools.Dice
import Infnoise.Tools.Entcheck
import Infnoise.Tools.FileBits
import Infnoise.Tools.FindLongest
import Infnoise.Tools.Flipbits
import Infnoise.Tools.Hex
import Infnoise.Tools.Longest
import Infnoise.Tools.OfflineAgreement
import Infnoise.Tools.Rolls
import Infnoise.Tools.Substrings
import Infnoise.Tools.Surprise
import Infnoise.Userspace.Arguments
import Infnoise.Userspace.Backing
import Infnoise.Userspace.Capacity
import Infnoise.Userspace.Comparators
import Infnoise.Userspace.CounterBounds
import Infnoise.Userspace.Credit
import Infnoise.Userspace.Devlist
import Infnoise.Userspace.Entropy
import Infnoise.Userspace.Extraction
import Infnoise.Userspace.Fed
import Infnoise.Userspace.Health
import Infnoise.Userspace.HealthAgreement
import Infnoise.Userspace.HealthInvariant
import Infnoise.Userspace.IdleReads
import Infnoise.Userspace.Improbable
import Infnoise.Userspace.Library
import Infnoise.Userspace.LsbStats
import Infnoise.Userspace.Main
import Infnoise.Userspace.Misfires
import Infnoise.Userspace.Multiplier
import Infnoise.Userspace.Pool
import Infnoise.Userspace.ReadData
import Infnoise.Userspace.Register
import Infnoise.Userspace.Rounds
import Infnoise.Userspace.SameBits
import Infnoise.Userspace.Startup
import Infnoise.Userspace.Stdout
import Infnoise.Userspace.Surprise
import Infnoise.Userspace.Warmup
import Infnoise.Userspace.Whitening
import Infnoise.Windows.Driver
import Infnoise.Windows.Extraction
import Infnoise.Windows.Whitening
