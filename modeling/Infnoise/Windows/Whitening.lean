import Infnoise.Userspace.Register
import Infnoise.Userspace.Whitening
import Infnoise.Windows.Driver

/-!
# Whitening in the Windows program

The loop in `processBytes` of the Windows program gives all bytes of a block at once, in the chunks
in which the library gives them one call at a time. Both drain the same sponge, up to the static
tables of the Keccak source: the Windows program never calls `KeccakInitialize`, so its permutation
runs on tables of zeros.
-/

namespace Windows

open Core Reference
open Kernel (KeccakState blockOf blockBuffer bufferBytes leadingBytes kernelSponge absorbedBlock)
open Userspace (HealthState Context ReadCall ReadRecord readStep bytesOfMultiplier
  bytesOfMultiplier_eq initInfnoise InitScript UsbScript)

attribute [local irreducible] keccakPermutation keccakAbsorb keccakExtract

/-! ### The Windows program -/

namespace AcceptedBlock

/-- The buffer that holds the block. -/
def buffer (block : AcceptedBlock) : ℕ → Byte := blockBuffer block.bytes

end AcceptedBlock

/-- What is done with the blocks one after the other, whitened and with a file for output, until the
program ends. -/
def processBlocks (tables : KeccakTables) (outputMultiplier : ℕ) :
    OutFile → KeccakState → List AcceptedBlock → Option Exit × OutFile × KeccakState
  | outFile, keccakState, [] => (none, outFile, keccakState)
  | outFile, keccakState, block :: blocks =>
    match processBytes tables outFile keccakState block.buffer block.entropy false false
      outputMultiplier with
    | (some exit, outFile, keccakState) => (some exit, outFile, keccakState)
    | (none, outFile, keccakState) =>
      processBlocks tables outputMultiplier outFile keccakState blocks

/-- The sponge of the Keccak source on its static tables. -/
def tablesSponge (tables : KeccakTables) : Sponge KeccakState (Vector Byte 64) Byte where
  absorb keccakState block :=
    keccakAbsorb tables keccakState (blockBuffer block) (Userspace.buflen / 64)
  permute := keccakPermutation tables
  emit := leadingBytes

/-- Once `KeccakInitialize` has run it is the sponge of the library and of the kernel driver. -/
lemma tablesSponge_initialize (tables : KeccakTables) :
    tablesSponge (keccakInitialize tables) = kernelSponge := by
  simp only [tablesSponge, kernelSponge, Sponge.mk.injEq, and_true]
  constructor
  · funext keccakState block
    exact (keccakAbsorb_eq tables keccakState _ _).symm
  · funext keccakState
    exact (keccakPermutation_eq tables keccakState).symm

/-- A chunk of 128 bytes comes first. -/
lemma giveAll_first {κ β γ : Type*} (S : Sponge κ β γ) (k : κ) {n : ℕ} (hn : 0 < n) :
    S.giveAll 128 (k, n) = ((S.drain 128 (k, n)).1 ++ (S.giveAll 128 (S.drain 128 (k, n)).2).1,
      (S.giveAll 128 (S.drain 128 (k, n)).2).2) :=
  Sponge.giveAll_of_pos (by norm_num) hn

section

variable (tables : KeccakTables)

/-- A file that takes everything. -/
lemma outputBytes_unbounded (written : List Byte) (bytes : ℕ → Byte) (length entropy : ℕ) :
    outputBytes ⟨written, none⟩ bytes length entropy false =
      (none, ⟨written ++ bufferBytes bytes length, none⟩) := by
  simp [outputBytes, OutFile.fwrite]

/-- The bytes of a round are the next chunk. -/
lemma lanesOf_mul (m : ℕ) : lanesOf m * 8 = min 128 (32 * m) := by
  rw [lanesOf]
  split <;> omega

lemma lanesOf_le (m : ℕ) : lanesOf m ≤ 16 := by
  rw [lanesOf]
  split <;> omega

/-- What is left of the multiplier stands for what is left to give. -/
lemma mul_sub_lanesOf (m : ℕ) :
    32 * (m - lanesOf m / 4) = 32 * m - min 128 (32 * m) := by
  rw [lanesOf]
  split <;> omega

/-- The loop gives everything. -/
lemma squeezeLoop_unbounded (m : ℕ) (written : List Byte) (keccakState : KeccakState)
    (dataOut : ℕ → Byte) (entropy : ℕ) :
    squeezeLoop tables ⟨written, none⟩ keccakState dataOut entropy false m =
      (none, ⟨written ++ ((tablesSponge tables).giveAll 128 (keccakState, 32 * m)).1, none⟩,
        ((tablesSponge tables).giveAll 128 (keccakState, 32 * m)).2) := by
  induction m using Nat.strong_induction_on generalizing written keccakState dataOut entropy with
  | _ m ih =>
    rw [squeezeLoop]
    by_cases hm : m > 0
    · have hbytes : bufferBytes (keccakExtract keccakState dataOut (lanesOf m)) (lanesOf m * 8) =
          leadingBytes keccakState (min 128 (32 * m)) := by
        have hlanes := lanesOf_le m
        have h := Userspace.bufferBytes_extract keccakState dataOut (n := lanesOf m * 8)
          (by omega) (Dvd.intro_left _ rfl)
        rw [Nat.mul_div_cancel _ (by norm_num), lanesOf_mul] at h
        rwa [lanesOf_mul]
      have hdrain : (tablesSponge tables).drain 128 (keccakState, 32 * m) =
          (leadingBytes keccakState (min 128 (32 * m)), keccakPermutation tables keccakState,
            32 * (m - lanesOf m / 4)) := by
        rw [mul_sub_lanesOf]
        rfl
      have hall := giveAll_first (tablesSponge tables) keccakState (by omega : 0 < 32 * m)
      rw [hdrain] at hall
      simp only [if_pos hm, outputBytes_unbounded]
      rw [ih _ (sub_lanesOf_lt hm), hbytes, hall, List.append_assoc]
    · rw [if_neg hm, Sponge.giveAll_of_eq (by dsimp only; omega), List.append_nil]

/-- The bytes of the blocks go to the file, one block after the other. -/
lemma processBlocks_unbounded (m : ℕ) (written : List Byte) (keccakState : KeccakState)
    (blocks : List AcceptedBlock) :
    processBlocks tables m ⟨written, none⟩ keccakState blocks =
      (none, ⟨written ++ ((tablesSponge tables).giveBlocks (32 * m) 128 keccakState
          (blocks.map AcceptedBlock.bytes)).1, none⟩,
        ((tablesSponge tables).giveBlocks (32 * m) 128 keccakState
          (blocks.map AcceptedBlock.bytes)).2) := by
  induction blocks generalizing written keccakState with
  | nil => simp [processBlocks, Sponge.giveBlocks]
  | cons block blocks ih =>
    have hblock : processBytes tables ⟨written, none⟩ keccakState block.buffer block.entropy false
        false m = squeezeLoop tables ⟨written, none⟩
          ((tablesSponge tables).absorb keccakState block.bytes) (fun _ => 0) block.entropy false
            m := rfl
    rw [processBlocks, hblock, squeezeLoop_unbounded]
    dsimp only
    rw [ih, List.append_assoc]
    rfl

end

/-! ### The library -/

/-- A whitened call of `readData` with a buffer. -/
def whitenedCall (script : UsbScript) (result : ℕ → Byte) (outputMultiplier : ℕ) : ReadCall where
  script
  result := some result
  raw := false
  outputMultiplier

/-- Calls of `readData` until nothing is left to give, for at most `fuel` calls; `none` when bytes
are left after them. -/
def readRest (call : ReadCall) : ℕ → Context → Option (List Byte × Context)
  | 0, context => if context.keccakBytesGiven = 0 then some ([], context) else none
  | fuel + 1, context =>
    if context.keccakBytesGiven = 0 then some ([], context)
    else do
      let (r, context') ← readStep context call
      let (bytes, last) ← readRest call fuel context'
      return (ReadRecord.bytes ⟨context, call, r, context'⟩ ++ bytes, last)

/-- What `readData` does with an accepted block, and the calls that give the rest of its bytes. -/
def libraryBlock (call : ReadCall) (context : Context) (block : AcceptedBlock) :
    Option (List Byte × Context) := do
  let filled := Userspace.processBytes { context with entropyThisTime := block.entropy }
    block.buffer call.result call.raw call.outputMultiplier
  let (bytes, last) ← readRest call filled.context.keccakBytesGiven filled.context
  return (filled.bytes ++ bytes, last)

/-- The bytes that the library returns for the blocks one after the other. -/
def libraryBlocks (call : ReadCall) : Context → List AcceptedBlock → Option (List Byte × Context)
  | context, [] => some ([], context)
  | context, block :: blocks => do
    let (bytes, context) ← libraryBlock call context block
    let (rest, last) ← libraryBlocks call context blocks
    return (bytes ++ rest, last)

section

variable {t : KeccakTables} {context : Context} (script : UsbScript) (result : ℕ → Byte) {m : ℕ}

/-- A call while bytes are left gives the next chunk of them. -/
lemma readStep_pending (hgiven : context.keccakBytesGiven ≠ 0) :
    readStep context (whitenedCall script result m) =
      some ((Userspace.squeezeChunk context (some result)).toRead none,
        (Userspace.squeezeChunk context (some result)).context) := by
  rw [readStep, Userspace.readData, if_neg hgiven]
  rfl

/-- The calls give everything that is left. -/
lemma readRest_eq {fuel : ℕ} (h : context.Whitening t) (hfuel : context.keccakBytesGiven ≤ fuel) :
    ∃ last, readRest (whitenedCall script result m) fuel context =
        some ((kernelSponge.giveAll 128 (context.keccakState, context.keccakBytesGiven)).1, last) ∧
      last.Whitening t ∧ last.keccakBytesGiven = 0 ∧ last.keccakState =
        (kernelSponge.giveAll 128 (context.keccakState, context.keccakBytesGiven)).2 := by
  induction fuel generalizing context with
  | zero =>
    have hgiven := Nat.le_zero.mp hfuel
    rw [readRest, if_pos hgiven, Sponge.giveAll_of_eq hgiven]
    exact ⟨context, rfl, h, hgiven, rfl⟩
  | succ fuel ih =>
    rw [readRest]
    by_cases hgiven : context.keccakBytesGiven = 0
    · rw [if_pos hgiven, Sponge.giveAll_of_eq hgiven]
      exact ⟨context, rfl, h, hgiven, rfl⟩
    · have hpos := Nat.pos_of_ne_zero hgiven
      have hdrain := Userspace.squeezeChunk_drain result h
      have hless := Sponge.drain_lt (s := (context.keccakState, context.keccakBytesGiven))
        kernelSponge ⟨hpos, (by norm_num : 0 < 128)⟩
      have hall := giveAll_first kernelSponge context.keccakState hpos
      rw [hdrain] at hless hall
      obtain ⟨last, hrest, hlast⟩ := ih (Userspace.squeezeChunk_whitening (some result) h)
        (Nat.le_of_lt_succ (hless.trans_le hfuel))
      rw [if_neg hgiven, readStep_pending script result hgiven]
      dsimp only [bind, Option.bind]
      rw [hrest, hall]
      exact ⟨last, rfl, hlast⟩

lemma blockOf_buffer (block : AcceptedBlock) : blockOf block.buffer = block.bytes := by
  apply Vector.ext
  intro i hi
  simp only [blockOf, AcceptedBlock.buffer, blockBuffer, Vector.getElem_ofFn, Nat.mod_eq_of_lt hi]

/-- The block goes into the sponge, and all of its bytes come out. -/
lemma libraryBlock_eq (hm : 1 ≤ m) (hm24 : m < 16777216) (h : context.Whitening t)
    (hgiven : context.keccakBytesGiven = 0) (block : AcceptedBlock) :
    ∃ last, libraryBlock (whitenedCall script result m) context block =
        some ((kernelSponge.giveAll 128
          (kernelSponge.absorb context.keccakState block.bytes, 32 * m)).1, last) ∧
      last.Whitening t ∧ last.keccakBytesGiven = 0 ∧ last.keccakState =
        (kernelSponge.giveAll 128
          (kernelSponge.absorb context.keccakState block.bytes, 32 * m)).2 := by
  have hmeasured : ({ context with entropyThisTime := block.entropy } : Context).Whitening t :=
    ⟨h.tables_eq, h.given_dvd, h.given_lt⟩
  obtain ⟨hfund, hstate⟩ := hmeasured.fund block.buffer m
  have hdrain := Userspace.squeezeChunk_drain result hfund
  rw [Userspace.Context.fund_keccakBytesGiven, bytesOfMultiplier_eq, Nat.mod_eq_of_lt hm24, hstate,
    blockOf_buffer] at hdrain
  obtain ⟨last, hrest, hlast⟩ := readRest_eq script result (m := m)
    (Userspace.squeezeChunk_whitening (some result) hfund) le_rfl
  have hall := giveAll_first kernelSponge (kernelSponge.absorb context.keccakState block.bytes)
    (by omega : 0 < 32 * m)
  rw [hdrain] at hall
  have hprocess := Userspace.processBytes_multiplier
    { context with entropyThisTime := block.entropy } block.buffer (some result)
    (by omega : m ≠ 0) hgiven
  refine ⟨last, ?_, hall ▸ hlast⟩
  change libraryBlock ⟨script, some result, false, m⟩ context block = _
  rw [libraryBlock, hprocess]
  dsimp only [bind, Option.bind]
  rw [← whitenedCall, hrest, hall]
  rfl

/-- All bytes of the blocks come out, one block after the other. -/
lemma libraryBlocks_eq (hm : 1 ≤ m) (hm24 : m < 16777216) (h : context.Whitening t)
    (hgiven : context.keccakBytesGiven = 0) (blocks : List AcceptedBlock) :
    (libraryBlocks (whitenedCall script result m) context blocks).map Prod.fst =
      some (kernelSponge.giveBlocks (32 * m) 128 context.keccakState
        (blocks.map AcceptedBlock.bytes)).1 := by
  induction blocks generalizing context with
  | nil => rfl
  | cons block blocks ih =>
    obtain ⟨next, hblock, hnext, hgiven', hstate⟩ :=
      libraryBlock_eq script result hm hm24 h hgiven block
    have hrest := ih hnext hgiven'
    rw [Option.map_eq_some_iff] at hrest
    obtain ⟨⟨rest, last⟩, hrest, rfl⟩ := hrest
    rw [libraryBlocks, hblock]
    dsimp only [bind, Option.bind]
    rw [hrest, hstate]
    rfl

end

/-! ### Runs -/

lemma keccakAbsorb_congr (tables : KeccakTables) (keccakState : KeccakState)
    {data data' : ℕ → Byte} {lanes : ℕ} (h : ∀ i < lanes * 8, data i = data' i) :
    keccakAbsorb tables keccakState data lanes = keccakAbsorb tables keccakState data' lanes := by
  rw [keccakAbsorb, keccakAbsorb, keccakPermutationAfterXor, keccakPermutationAfterXor,
    Kernel.xored_congr keccakState h]

/-- Of the bytes that were extracted only the block counts. -/
lemma processBytes_buffer (tables : KeccakTables) (outFile : OutFile) (keccakState : KeccakState)
    (bytes : ℕ → Byte) (entropy m : ℕ) :
    processBytes tables outFile keccakState (AcceptedBlock.buffer ⟨blockOf bytes, entropy⟩) entropy
        false false m =
      processBytes tables outFile keccakState bytes entropy false false m := by
  have habsorb : keccakAbsorb tables keccakState (AcceptedBlock.buffer ⟨blockOf bytes, entropy⟩)
      (Userspace.buflen / 64) = keccakAbsorb tables keccakState bytes (Userspace.buflen / 64) := by
    apply keccakAbsorb_congr
    intro i hi
    exact Kernel.blockOf_getElem bytes hi
  simp only [processBytes, Bool.false_eq_true, if_false, habsorb]

section

variable {options : Options} {p p' : Process}

/-- A round hands the block that it accepts to `processBytes`, or leaves file and sponge alone. -/
lemma mainStep_cases (hraw : options.raw = false) (hdev : options.writeDevRandom = false)
    {round : Round} {accepted : Option AcceptedBlock}
    (h : mainStep options p round = some (accepted, p')) :
    p.exit = none ∧ p'.tables = p.tables ∧
      (accepted = none → p'.outFile = p.outFile ∧ p'.keccakState = p.keccakState) ∧
      ∀ block, accepted = some block →
        processBytes p.tables p.outFile p.keccakState block.buffer block.entropy false false
          options.outputMultiplier = (p'.exit, p'.outFile, p'.keccakState) := by
  rw [mainStep] at h
  split at h
  · cases h
  rename_i hexit
  refine ⟨Option.not_isSome_iff_eq_none.mp hexit, ?_⟩
  split at h
  · cases h
    exact ⟨rfl, fun _ => ⟨rfl, rfl⟩, fun block hblock => by cases hblock⟩
  split at h
  · cases h
    exact ⟨rfl, fun _ => ⟨rfl, rfl⟩, fun block hblock => by cases hblock⟩
  obtain ⟨⟨rc, bytes, health⟩, -, hround⟩ := Option.map_eq_some_iff.mp h
  cases rc with
  | error exit =>
    cases hround
    exact ⟨rfl, fun _ => ⟨rfl, rfl⟩, fun block hblock => by cases hblock⟩
  | ok entropy =>
    dsimp only at hround
    split at hround
    · rcases hprocess : processBytes p.tables p.outFile p.keccakState bytes entropy false false
        options.outputMultiplier with ⟨exit, outFile, keccakState⟩
      rw [hraw, hdev, hprocess] at hround
      cases hround
      refine ⟨rfl, (fun hnone => by cases hnone), fun block hblock => ?_⟩
      obtain rfl := Option.some.inj hblock
      exact (processBytes_buffer _ _ _ _ _ _).trans hprocess
    · cases hround
      exact ⟨rfl, fun _ => ⟨rfl, rfl⟩, fun block hblock => by cases hblock⟩

/-- A run of the main loop is what is done with the blocks that it accepts. -/
lemma mainStep_run (hraw : options.raw = false) (hdev : options.writeDevRandom = false)
    {cs : List (Call Process Round (Option AcceptedBlock))}
    (h : Run (mainStep options) p cs p') :
    (processBlocks p.tables options.outputMultiplier p.outFile p.keccakState
      (cs.filterMap Call.output)).2 = (p'.outFile, p'.keccakState) := by
  induction h with
  | nil => rfl
  | @cons p p₁ p' round accepted cs hstep hrun ih =>
    obtain ⟨-, htables, hnone, hsome⟩ := mainStep_cases hraw hdev hstep
    cases accepted with
    | none =>
      obtain ⟨hfile, hstate⟩ := hnone rfl
      rw [htables, hfile, hstate] at ih
      exact ih
    | some block =>
      change (processBlocks p.tables options.outputMultiplier p.outFile p.keccakState
        (block :: cs.filterMap Call.output)).2 = _
      rw [processBlocks, hsome block rfl]
      rcases hexit : p₁.exit with _ | exit
      · rw [htables] at ih
        exact ih
      · -- the program has ended, so this was the last round
        cases hrun with
        | nil => rfl
        | cons hnext =>
          rw [(mainStep_cases hraw hdev hnext).1] at hexit
          cases hexit

end

/-- On tables that are filled, a run of the Windows program writes what a run of whitened calls of
the library returns, when both have the same multiplier, start on the same sponge and take the same
blocks, and the library has nothing left to give. -/
theorem mainLoop_agrees {options : Options} (hraw : options.raw = false)
    (hdev : options.writeDevRandom = false) (hm : 1 ≤ options.outputMultiplier)
    (hm24 : options.outputMultiplier < 16777216) {p p' : Process}
    {ws : List (Call Process Round (Option AcceptedBlock))} (hw : Run (mainStep options) p ws p')
    {t : KeccakTables} (htables : p.tables = keccakInitialize t) (hfile : p.outFile = ⟨[], none⟩)
    {context context' : Context} {us : List ReadRecord} (hu : Run readStep context us context')
    (hucalls : ∀ c ∈ us, c.Whitened options.outputMultiplier)
    (htables' : context.tables = keccakInitialize t) (hstate : p.keccakState = context.keccakState)
    (hgiven : context.keccakBytesGiven = 0) (hgiven' : context'.keccakBytesGiven = 0)
    (hblocks : (ws.filterMap Call.output).map AcceptedBlock.bytes =
      us.filterMap fun c => absorbedBlock c.output.ops) :
    p'.outFile.written = us.flatMap ReadRecord.bytes := by
  obtain ⟨hsponge, hsame, hstream⟩ := Userspace.whitened_refines hm hm24 hu hucalls
    (t := t) ⟨htables', hgiven ▸ dvd_zero 8, by omega⟩
  have hall := Sponge.stream_eq_giveBlocks (by omega) (by norm_num) hsponge hgiven'
  rw [Sponge.giveAll_of_eq hgiven, List.nil_append, hstream, hsame, ← hblocks, ← hstate] at hall
  have hwritten := mainStep_run hraw hdev hw
  rw [hfile, htables, processBlocks_unbounded, tablesSponge_initialize] at hwritten
  rw [hall, ← (Prod.mk.inj hwritten).1]
  rfl

/-! ### Both from their start -/

/-- What `main` leaves for its loop. -/
lemma startMain_sponge {log : Float → Float} {tables : KeccakTables} {memory : HealthState}
    {script : StartScript} {options : Options} {p : Process}
    (h : startMain log tables memory script = some (options, p)) :
    p.tables = tables ∧ p.keccakState = keccakInitializeState ∧ p.exit = none ∧
      p.outFile = ⟨[], script.room⟩ := by
  rw [startMain, Option.bind_eq_bind, Option.bind_eq_some_iff] at h
  obtain ⟨options', _, h⟩ := h
  dsimp only at h
  cases hready : script.fileReady
  · rw [hready] at h
    cases h
  · rcases hhealth : Userspace.inmHealthCheckStart log memory Userspace.predictionBits
      Userspace.designK options'.debug script.allocated with ⟨started, health⟩
    rw [hready, hhealth] at h
    cases started
    · cases h
    · cases husb : !(initializeUSB script.usb).1 && !(initializeUSB script.retry).1
      · rw [husb] at h
        cases h
        exact ⟨rfl, rfl, rfl, rfl⟩
      · rw [husb] at h
        cases h

/-- The bytes 0 to 63. -/
def countingBlock : AcceptedBlock where
  bytes := .ofFn fun i => BitVec.ofNat 8 i
  entropy := 420

/-- The first byte that a block gives. -/
lemma giveBlocks_head? (tables : KeccakTables) (keccakState : KeccakState) (block : AcceptedBlock)
    {m : ℕ} (hm : 1 ≤ m) :
    ((tablesSponge tables).giveBlocks (32 * m) 128 keccakState [block.bytes]).1.head? =
      some (keccakAbsorb tables keccakState block.buffer 8)[0] := by
  obtain ⟨n, hn⟩ : ∃ n, min 128 (32 * m) = n + 1 := ⟨min 128 (32 * m) - 1, by omega⟩
  have hall := giveAll_first (tablesSponge tables)
    ((tablesSponge tables).absorb keccakState block.bytes) (by omega : 0 < 32 * m)
  rw [Sponge.giveBlocks, hall, Sponge.drain]
  dsimp only
  have hemit : ∀ k, (tablesSponge tables).emit k (n + 1) =
      k[0] :: (List.range n).map fun i => k[(i + 1) % 200] := by
    intro k
    change leadingBytes k (n + 1) = _
    rw [leadingBytes, List.range_succ_eq_map, List.map_cons, List.map_map]
    rfl
  rw [hn, hemit]
  rfl

/-- A round of the permutation. -/
def permutationRound (tables : KeccakTables) (i : ℕ) (words : Kernel.Words) : Kernel.Words :=
  iota tables (chi (pi (rho tables (theta words)))) i

/-- The block as words, on a state of zeros. -/
def countingWords : Kernel.Words :=
  #v[0x0706050403020100, 0x0f0e0d0c0b0a0908, 0x1716151413121110, 0x1f1e1d1c1b1a1918,
    0x2726252423222120, 0x2f2e2d2c2b2a2928, 0x3736353433323130, 0x3f3e3d3c3b3a3938,
    0, 0, 0, 0, 0, 0, 0, 0, 0, 0, 0, 0, 0, 0, 0, 0, 0]

/-- The words after 8 rounds on tables of zeros. -/
def zeroTables8 : Kernel.Words :=
  #v[0x0ecbb8fdf71b39e9, 0xfc51b8c0c00b1f88, 0x64d3746d9e77e100, 0x113668057b297db8,
    0x65cfc57d99d435f1, 0xfefe5e459fd74421, 0xaaaacc0c52c8f471, 0x10d0f8456d450768,
    0xfcd0e170a8d6a490, 0x5bf10df8ec2a5400, 0x8818dd18c9be51b9, 0x26ff61b46c959fd8,
    0x0564d3b56432cd28, 0x24c7f6604870cee9, 0x4fb076bc999a8d49, 0xdf0284f860390730,
    0x3f830794e7ce6841, 0xddb0628c88d04f48, 0xf90429add97c9061, 0x9632a3f06d14d781,
    0xd6035028ca4bf760, 0x3eeb5a0c1d2212c9, 0x564b87a5a79c36f1, 0xeb11eb1ce75546f9,
    0xa2d014f998301fc0]

/-- And after 16 rounds. -/
def zeroTables16 : Kernel.Words :=
  #v[0xb65fc9d83aa98db8, 0xa1bfb53310840489, 0x57616900bb805a2b, 0x5a4ef553fbc8f80d,
    0x2f6ff6499c269284, 0x41cf2f6b4297f039, 0x78584ef4b93d1a47, 0xbf4f73cc05b8ebfa,
    0x7c8481e36ffb817f, 0xc3946254bd40983f, 0x43a8856905e01d4c, 0xffe89493460e1533,
    0x1a3c0c00340f2a2e, 0x27191e142f7f6166, 0xdbcc64f3089a7568, 0x2bea40e1d9fc5c95,
    0x86615f18f234febe, 0x2d0dcbf8921f51f9, 0x8db9881b04e8edd5, 0x446a7d2456b130d4,
    0x63f5459ad19dc3a0, 0x1c9d0bb6652414c7, 0xa4ebbfc36cee6a62, 0xb5d9e9ed6db99917,
    0x8fd1749eb1087e9c]

/-- The words after 8 rounds on the tables that are filled. -/
def filledTables8 : Kernel.Words :=
  #v[0x8173a7c54f757d1d, 0x3b785ca3babbf4bf, 0x3f6325615aea4528, 0xdd309a33fa7c455b,
    0x7e40b2a072c77cda, 0x7db0d25fa725ab5e, 0xbf1ddcb1d5e5be71, 0x3beea750ade1c0af,
    0xb3a673b1ce9d93eb, 0xddea1e481a7ea7ed, 0x19129cef712da6ab, 0xf1da6bd42527d207,
    0x3ef78be0ea1ecca2, 0xb8e10581e7d9763b, 0x0863852c0e4884ec, 0x8912613588c87fed,
    0xa09887f64404ad58, 0xd9e5724d78ac666c, 0x85f47a715c9eb377, 0xb26d0103d77b0680,
    0x3835765e95c814f8, 0x98f779c1f9efa63a, 0xab3823166a697246, 0x98ff95f0fcbd834e,
    0x729c1355999a2874]

/-- And after 16 rounds. -/
def filledTables16 : Kernel.Words :=
  #v[0xd8edcec0c9c9e055, 0xc54995bef1df2666, 0x9a47b8c17d6ee890, 0xec8404a96995a64d,
    0x49011fe40f9ccc26, 0x55ebb23f237e5857, 0x4102bfe2b866a0c2, 0x3a9d1ea8dc047539,
    0xd52d305d4ccf436b, 0xf0181e97da3e9f9f, 0xc49c68673d144efc, 0x8c3603dc71a203cb,
    0x0aa75473c7843578, 0x2ab1db4f4dc97463, 0xde047404e6767c84, 0xb4751d1640046a4f,
    0x3a470e8bfb04ef50, 0x37e375d8418c62d1, 0x060fc88671ab43e5, 0x9dd68e62a8351dd4,
    0x071f9aa87e0573c9, 0xd7b8cb15d92a3d07, 0x1d65e78141548752, 0x5b77009368bc86d1,
    0xdfdec637728022c8]

set_option maxRecDepth 100000 in
lemma keccakAbsorb_countingWords (tables : KeccakTables) :
    keccakAbsorb tables keccakInitializeState countingBlock.buffer 8 =
      fromWordsToBytes (forLoop 24 (permutationRound tables) countingWords) := by
  have hwords : fromBytesToWords (.ofFn fun i : Fin 200 => if i.val < 8 * 8 then
      keccakInitializeState[i] ^^^ countingBlock.buffer i else keccakInitializeState[i]) =
        countingWords := by
    decide +kernel
  rw [keccakAbsorb, keccakPermutationAfterXor, keccakPermutation, hwords]
  rfl

/-- The 24 rounds in three parts, with the words between them. -/
lemma forLoop_permutationRound {tables : KeccakTables} {words : Kernel.Words}
    (words8 words16 : Kernel.Words) (h8 : forLoop 8 (permutationRound tables) words = words8)
    (h16 : forLoop 8 (fun i => permutationRound tables (8 + i)) words8 = words16) :
    forLoop 24 (permutationRound tables) words =
      forLoop 8 (fun i => permutationRound tables (16 + i)) words16 := by
  rw [forLoop_add 16 8, forLoop_add 8 8, h8, h16]

set_option maxRecDepth 100000 in
/-- On tables of zeros the block gives another first byte. -/
lemma keccakAbsorb_countingBlock :
    (keccakAbsorb .zero keccakInitializeState countingBlock.buffer 8)[0] = 130#8 ∧
      (keccakAbsorb ⟨Kernel.keccakRoundConstants, Kernel.keccakRhoOffsets⟩ keccakInitializeState
        countingBlock.buffer 8)[0] = 138#8 := by
  -- one evaluation of all the rounds would take the kernel gigabytes
  constructor
  · rw [keccakAbsorb_countingWords, forLoop_permutationRound zeroTables8 zeroTables16
      (by decide +kernel) (by decide +kernel)]
    decide +kernel
  · rw [keccakAbsorb_countingWords, forLoop_permutationRound filledTables8 filledTables16
      (by decide +kernel) (by decide +kernel)]
    decide +kernel

/-- So the two sponges give different bytes for it, whatever the multiplier. -/
lemma giveBlocks_countingBlock_ne {m : ℕ} (hm : 1 ≤ m) :
    (kernelSponge.giveBlocks (32 * m) 128 keccakInitializeState [countingBlock.bytes]).1 ≠
      ((tablesSponge .zero).giveBlocks (32 * m) 128 keccakInitializeState
        [countingBlock.bytes]).1 := by
  intro heq
  obtain ⟨hzero, hfilled⟩ := keccakAbsorb_countingBlock
  have hhead := congrArg List.head? heq
  rw [← tablesSponge_initialize .zero, giveBlocks_head? _ _ _ hm, giveBlocks_head? _ _ _ hm,
    hzero, keccakInitialize_eq, hfilled] at hhead
  exact absurd (Option.some.inj hhead) (by decide)

/-- What the library returns after a start. -/
lemma libraryBlocks_start {log : Float → Float} {context₀ context : Context}
    {serial : Option String} {debug : Bool} {script : InitScript} {fuel : ℕ}
    (hinit : initInfnoise log context₀ serial true debug script fuel = some (true, context))
    {m : ℕ} (hm : 1 ≤ m) (hm24 : m < 16777216) (usb : UsbScript) (result : ℕ → Byte)
    (blocks : List AcceptedBlock) :
    (libraryBlocks (whitenedCall usb result m) context blocks).map Prod.fst =
      some (kernelSponge.giveBlocks (32 * m) 128 keccakInitializeState
        (blocks.map AcceptedBlock.bytes)).1 := by
  obtain ⟨hgiven, htables, hstate⟩ := Userspace.initInfnoise_sponge hinit
  have hwhitening : context.Whitening context₀.tables :=
    ⟨htables, hgiven ▸ dvd_zero 8, by omega⟩
  rw [libraryBlocks_eq usb result hm hm24 hwhitening hgiven, hstate]

/-- What the Windows program writes after a start. -/
lemma processBlocks_start {log : Float → Float} {tables : KeccakTables} {memory : HealthState}
    {start : StartScript} {options : Options} {p : Process}
    (hstart : startMain log tables memory start = some (options, p)) (hroom : start.room = none)
    (m : ℕ) (blocks : List AcceptedBlock) :
    (processBlocks p.tables m p.outFile p.keccakState blocks).2.1.written =
      ((tablesSponge tables).giveBlocks (32 * m) 128 keccakInitializeState
        (blocks.map AcceptedBlock.bytes)).1 := by
  obtain ⟨htables, hstate, -, hfile⟩ := startMain_sponge hstart
  rw [htables, hstate, hfile, hroom, processBlocks_unbounded]
  rfl

/-- From their start, and for every multiplier: the Windows program writes for all accepted blocks
what the library returns for them just if the static tables hold what `KeccakInitialize` stores, and
not the zeros that they hold when the program starts. -/
theorem processBlocks_agrees_iff {log log' : Float → Float} {context₀ context : Context}
    {serial : Option String} {debug : Bool} {script : InitScript} {fuel : ℕ}
    (hinit : initInfnoise log context₀ serial true debug script fuel = some (true, context))
    {tables : KeccakTables} {memory : HealthState} {start : StartScript} {options : Options}
    {p : Process} (hstart : startMain log' tables memory start = some (options, p))
    (htables : tables = .zero ∨ tables = keccakInitialize .zero) (hroom : start.room = none)
    {m : ℕ} (hm : 1 ≤ m) (hm24 : m < 16777216) (usb : UsbScript) (result : ℕ → Byte) :
    (∀ blocks, (libraryBlocks (whitenedCall usb result m) context blocks).map Prod.fst =
        some (processBlocks p.tables m p.outFile p.keccakState blocks).2.1.written) ↔
      tables = keccakInitialize .zero := by
  constructor
  · intro h
    rcases htables with rfl | hfilled
    · have hcounting := h [countingBlock]
      rw [libraryBlocks_start hinit hm hm24, processBlocks_start hstart hroom] at hcounting
      exact absurd (Option.some.inj hcounting) (giveBlocks_countingBlock_ne hm)
    · exact hfilled
  · rintro rfl blocks
    rw [libraryBlocks_start hinit hm hm24, processBlocks_start hstart hroom,
      tablesSponge_initialize]

/-- A start of the Windows program. -/
def startScript : StartScript where
  args := []
  fileReady := true
  room := none
  allocated := true
  usb := ⟨true, true, true, ⟨true, 64⟩, ⟨true, 64⟩⟩
  retry := ⟨true, true, true, ⟨true, 64⟩, ⟨true, 64⟩⟩

lemma exists_startMain (log : Float → Float) (tables : KeccakTables) (memory : HealthState) :
    ∃ options p, startMain log tables memory startScript = some (options, p) := by
  simp only [startMain, Userspace.inmHealthCheckStart, initializeUSB, startScript]
  exact ⟨_, _, rfl⟩

/-- With tables that are filled both give the same, here with the multiplier 2. -/
theorem processBlocks_agrees_filled : ∃ context options p,
    initInfnoise Userspace.tableLog Userspace.blankContext none true false
      Userspace.registerScript 371 = some (true, context) ∧
    startMain Userspace.tableLog (keccakInitialize .zero) Userspace.blankContext.health
      startScript = some (options, p) ∧
    ∀ blocks, (libraryBlocks (whitenedCall (Userspace.registerRound 0) (fun _ => 0) 2) context
        blocks).map Prod.fst =
      some (processBlocks p.tables 2 p.outFile p.keccakState blocks).2.1.written := by
  obtain ⟨_, _, context, _, _, _, _, hinit⟩ := Userspace.exists_initInfnoise
    Userspace.tableLog_accurate Userspace.blankContext rfl rfl none true false le_rfl
  obtain ⟨options, p, hstart⟩ := exists_startMain Userspace.tableLog (keccakInitialize .zero)
    Userspace.blankContext.health
  exact ⟨context, options, p, hinit, hstart, (processBlocks_agrees_iff hinit hstart (.inr rfl) rfl
    (by norm_num) (by norm_num) _ _).mpr rfl⟩

/-- From program start, with the multiplier 1: the Windows program writes other bytes for the first
block than the library returns. -/
theorem processBlocks_zero_tables : ∃ context options p bytes,
    Userspace.blankContext.tables = .zero ∧
    initInfnoise Userspace.tableLog Userspace.blankContext none true false
      Userspace.registerScript 371 = some (true, context) ∧
    startMain Userspace.tableLog .zero Userspace.blankContext.health startScript =
      some (options, p) ∧
    (libraryBlocks (whitenedCall (Userspace.registerRound 0) (fun _ => 0) 1) context
      [countingBlock]).map Prod.fst = some bytes ∧
    (processBlocks p.tables 1 p.outFile p.keccakState [countingBlock]).2.1.written ≠ bytes := by
  obtain ⟨_, _, context, _, _, _, _, hinit⟩ := Userspace.exists_initInfnoise
    Userspace.tableLog_accurate Userspace.blankContext rfl rfl none true false le_rfl
  obtain ⟨options, p, hstart⟩ := exists_startMain Userspace.tableLog .zero
    Userspace.blankContext.health
  refine ⟨context, options, p, _, rfl, hinit, hstart,
    libraryBlocks_start hinit le_rfl (by norm_num) _ _ _, ?_⟩
  rw [processBlocks_start hstart rfl]
  exact (giveBlocks_countingBlock_ne le_rfl).symm

end Windows
