import Infnoise.Core.Layout
import Infnoise.Kernel.Stats

/-!
# Ioctls of another build

`infnoise_ioctl` on a little-endian machine. The process and the kernel can be built for different
sizes of word, which differ in the alignment of 64-bit integers: `compat_ptr_ioctl` hands the call
of a 32-bit process to a 64-bit kernel as it is. The number of an ioctl holds the size of the
structure, as the process has it.
-/

namespace Kernel

open Core

attribute [local irreducible] infnoiseKeccakPermutation infnoiseKeccakAbsorb

/-! ### The code -/

/-- The alignments of the integers in a build. -/
structure Abi where
  align : ℕ → ℕ
  dvd : ∀ size, align size ∣ size

def Abi.x86_64 : Abi := ⟨id, dvd_refl⟩

def Abi.i386 : Abi where
  align size := if size = 8 then 4 else size
  dvd size := by
    split_ifs with h
    · rw [h]
      decide
    · exact dvd_refl size

/-- `_IOC`; `dir` is 1 to write and 2 to read. -/
def ioc (dir type nr size : ℕ) : ℕ := (dir <<< 30) ||| (size <<< 16) ||| (type <<< 8) ||| nr

@[simp] def infnoiseIocMagic : ℕ := 'N'.toNat

/-- The sizes of the members of `struct infnoise_stats` that hold data. -/
def statsMembers : List ℕ := [8, 4, 4, 4, 4, 4, 4, 1, 1]

/-- The sizes of the bytes of `__pad`. -/
def statsPad : List ℕ := List.replicate 6 1

/-- `sizeof(struct infnoise_stats)`, which is `__aligned(8)`. -/
def Abi.statsSize (abi : Abi) : ℕ := alignUp (membersEnd abi.align 0 (statsMembers ++ statsPad)) 8

def Abi.infnoiseGetStats (abi : Abi) : ℕ := ioc 2 infnoiseIocMagic 1 abi.statsSize
def infnoiseSetRaw : ℕ := ioc 1 infnoiseIocMagic 2 4
def infnoiseGetEntropy : ℕ := ioc 2 infnoiseIocMagic 3 4

/-- The memory of the structure: zeros, in which the members are set. -/
def Abi.storeStats (abi : Abi) (stats : InfnoiseStats) : ℕ → Byte :=
  storeMembers abi.align (fun _ => 0) 0 stats.members

/-- What an ioctl returns and copies to the process, and the raw mode after it. -/
structure IoctlReply where
  ret : Except Errno ℕ
  copied : List Byte
  rawMode : Bool

/-- `-ENOTTY`. -/
def enotty : Errno := .other 25

/-- `infnoise_ioctl` on a file of the device; `raw` is what the argument points to, and `faults`
says whether the memory there cannot be copied. -/
def Abi.infnoiseIoctl (abi : Abi) (health : Health) (rawMode : Bool) (cmd : ℕ) (raw : ℤ)
    (faults : Bool) : IoctlReply :=
  if cmd = abi.infnoiseGetStats then
    if faults then ⟨.error .efault, [], rawMode⟩
    else ⟨.ok 0, bytesAt (abi.storeStats (infnoiseHealthGetStats health)) 0 abi.statsSize, rawMode⟩
  else if cmd = infnoiseSetRaw then
    if faults then ⟨.error .efault, [], rawMode⟩ else ⟨.ok 0, [], decide (raw ≠ 0)⟩
  else if cmd = infnoiseGetEntropy then
    if faults then ⟨.error .efault, [], rawMode⟩
    else ⟨.ok 0, lowBytes 4 (infnoiseHealthGetEntropy health), rawMode⟩
  else ⟨.error enotty, [], rawMode⟩

/-- What a process finds in the structure. -/
def Abi.loadStats (abi : Abi) (copied : List Byte) : List ℕ :=
  loadMembers abi.align (fun i => copied.getD i 0) 0 statsMembers

/-! ### The layout -/

lemma stats_naturallyPlaced : NaturallyPlaced 0 (statsMembers ++ statsPad) := by
  simp only [statsMembers, statsPad, List.replicate, List.cons_append, List.nil_append,
    NaturallyPlaced]
  decide

lemma stats_membersPlaced : NaturallyPlaced 0 statsMembers := by
  simp only [statsMembers, NaturallyPlaced]
  decide

lemma InfnoiseStats.members_sizes (stats : InfnoiseStats) :
    stats.members.map Prod.fst = statsMembers := rfl

section

variable (abi abi' : Abi)

/-- The structure has 40 bytes in every build. -/
lemma Abi.statsSize_eq : abi.statsSize = 40 := by
  rw [statsSize, membersEnd_eq (fun size _ => abi.dvd size) stats_naturallyPlaced]
  rfl

lemma Abi.infnoiseGetStats_eq : abi.infnoiseGetStats = abi'.infnoiseGetStats := by
  rw [infnoiseGetStats, infnoiseGetStats, statsSize_eq, statsSize_eq]

lemma Abi.storeStats_eq (stats : InfnoiseStats) : abi.storeStats stats = abi'.storeStats stats :=
  storeMembers_congr (fun m _ => abi.dvd m.1) (fun m _ => abi'.dvd m.1) stats_membersPlaced

/-- The bytes of the padding are zero. -/
lemma Abi.storeStats_pad (stats : InfnoiseStats) {i : ℕ} (hi : 34 ≤ i) :
    abi.storeStats stats i = 0 := by
  apply storeMembers_of_le
  rw [stats.members_sizes, membersEnd_eq (fun size _ => abi.dvd size) stats_membersPlaced]
  exact hi

/-- A process of any build finds what was stored. -/
lemma Abi.loadStats_eq {stats : InfnoiseStats} (hfits : ∀ m ∈ stats.members, m.2 < 256 ^ m.1) :
    abi'.loadStats (bytesAt (abi.storeStats stats) 0 abi.statsSize) =
      stats.members.map Prod.snd := by
  have hmem : (fun i => (bytesAt (abi.storeStats stats) 0 abi.statsSize).getD i 0) =
      abi'.storeStats stats := by
    funext i
    rw [abi.storeStats_eq abi', abi.statsSize_eq]
    by_cases hi : i < 40
    · simp [bytesAt, List.getD, hi]
    · rw [abi'.storeStats_pad stats (by omega)]
      simp [bytesAt, List.getD, not_lt.mp hi]
  rw [loadStats, hmem, ← stats.members_sizes]
  exact loadMembers_storeMembers hfits

end

/-! ### Reading the statistics -/

/-- A process of the build `abi'` that reads the statistics through a kernel of the build `abi`
gets the members as they are in the kernel, in a structure of the size that it has room for, with
nothing but zeros in the padding. -/
structure Abi.ReadsStats (abi abi' : Abi) (stats : InfnoiseStats) (reply : IoctlReply) : Prop where
  ret_eq : reply.ret = .ok 0
  length_eq : reply.copied.length = abi'.statsSize
  members_eq : abi'.loadStats reply.copied = stats.members.map Prod.snd
  pad_eq : ∀ i, 34 ≤ i → i < abi'.statsSize → reply.copied[i]? = some 0

lemma Abi.readsStats (abi abi' : Abi) {health : Health}
    (hfits : ∀ m ∈ (infnoiseHealthGetStats health).members, m.2 < 256 ^ m.1) (rawMode : Bool)
    (raw : ℤ) : abi.ReadsStats abi' (infnoiseHealthGetStats health)
      (abi.infnoiseIoctl health rawMode abi'.infnoiseGetStats raw false) := by
  have hreply : abi.infnoiseIoctl health rawMode abi'.infnoiseGetStats raw false =
      ⟨.ok 0, bytesAt (abi.storeStats (infnoiseHealthGetStats health)) 0 abi.statsSize, rawMode⟩ := by
    rw [infnoiseIoctl, if_pos (abi'.infnoiseGetStats_eq abi)]
    rfl
  rw [hreply]
  refine ⟨rfl, ?_, abi.loadStats_eq abi' hfits, fun i hi hlt => ?_⟩
  · rw [abi'.statsSize_eq]
    simp [bytesAt, abi.statsSize_eq]
  · rw [abi'.statsSize_eq] at hlt
    simp [bytesAt, abi.statsSize_eq, hlt, abi.storeStats_pad _ hi]

/-- In every run of a device from its probe on that takes fewer than 2 ^ 53 steps, and whatever the
builds of the process and of the kernel: the statistics arrive as they are in the kernel whenever
they are copied. -/
theorem getStats_readable (abi abi' : Abi) {clockBuf usbBuf readBuf outBuf : ℕ → Byte}
    {multiplier : ℕ} {rawMode : Bool} {d : Driver} {cs : List DriverRecord}
    (h : Run Driver.step (infnoiseProbe clockBuf usbBuf readBuf outBuf multiplier rawMode) cs d)
    (hlen : cs.length < 9007199254740992) {c : DriverRecord} (hc : c ∈ cs) {stats : InfnoiseStats}
    (hstats : c.snapshot = some stats) (raw : ℤ) :
    abi.ReadsStats abi' stats (abi.infnoiseIoctl c.before.dev.health c.before.rawMode
      abi'.infnoiseGetStats raw false) := by
  obtain ⟨hall, _⟩ := run_snapshots h infnoiseHealthInit_counted (by omega)
  obtain ⟨hconsistent, _⟩ := hall stats (List.mem_filterMap.mpr ⟨c, hc, hstats⟩)
  obtain rfl := DriverRecord.snapshot_eq hstats
  exact abi.readsStats abi' hconsistent.fits c.before.rawMode raw

/-- A 32-bit process reads the statistics of a healthy device through a 64-bit kernel. -/
theorem getStats_readable_compat : ∃ (cs : List DriverRecord) (d : Driver) (c : DriverRecord)
    (stats : InfnoiseStats), Run Driver.step probed cs d ∧ c ∈ cs ∧ c.snapshot = some stats ∧
      stats.healthOk = true ∧ Abi.x86_64.ReadsStats .i386 stats (Abi.x86_64.infnoiseIoctl
        c.before.dev.health c.before.rawMode Abi.i386.infnoiseGetStats 0 false) := by
  obtain ⟨cs, d, stats, stats', hrun, hlen, hcopies, -, hok', -⟩ := exists_run_copies
  have hmem : stats' ∈ snapshots cs := hcopies ▸ List.mem_cons_of_mem _ (List.mem_singleton_self _)
  obtain ⟨c, hc, hsnapshot⟩ := List.mem_filterMap.mp hmem
  exact ⟨cs, d, c, stats', hrun, hc, hsnapshot, hok',
    getStats_readable .x86_64 .i386 hrun hlen hc hsnapshot 0⟩

end Kernel
