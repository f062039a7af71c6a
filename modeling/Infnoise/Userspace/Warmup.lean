import Infnoise.Userspace.Entropy
import Infnoise.Userspace.HealthInvariant

/-!
# The warm-up of the userspace library

The loop of `initInfnoise` reads until the health check holds. It looks at nothing else: what a call
of `readData` returns is dropped, and the rounds are compared with their bound after the loop.
-/

namespace Userspace

open Core Reference

attribute [local irreducible] keccakPermutation keccakAbsorb keccakExtract

/-! ### Calls of `readData` return -/

lemma inmClearEntropyLevel_inv {hc : HealthState} (hinv : hc.Inv) : (inmClearEntropyLevel hc).Inv where
  n_eq := hinv.n_eq
  table_lt even bit i := by
    have := hinv.table_lt even bit i
    cases even <;> cases bit <;> exact this
  prevBits_lt := hinv.prevBits_lt
  probability := hinv.probability

lemma extractBytes_returns {context : Context} (hinv : context.health.Inv) (bytes : ℕ → Byte)
    (length : ℕ) (inBuf : ℕ → Byte) :
    ∃ ok bytes' context', extractBytes context bytes length inBuf = some (ok, bytes', context') ∧
      context'.health.Inv := by
  have hbit : ∀ i j (s : Byte × HealthState), s.2.Inv →
      ∃ r, extractBit inBuf i j s = some r ∧ r.2.2.Inv := by
    intro i j s hs
    obtain ⟨⟨ok, hc⟩, hadd, hhc⟩ := inmHealthCheckAddBit_returns hs
      (((inBuf (i * 8 + j)) >>> comp2 &&& 1) == 1) (((inBuf (i * 8 + j)) >>> comp1 &&& 1) == 1)
      (j % 2 == 1)
    exact ⟨(ok, _, hc), by rw [extractBit, hadd]; rfl, hhc⟩
  have hbyte : ∀ i (s : (ℕ → Byte) × HealthState), s.2.Inv →
      ∃ r, extractByte inBuf i s = some r ∧ r.2.2.Inv := by
    intro i s hs
    obtain ⟨⟨ok, byte, hc⟩, hloop, hhc⟩ : ∃ r, forWhile 8 (extractBit inBuf i) (0, s.2) = some r ∧
        r.2.2.Inv := forWhile_returns (fun s => s.2.Inv) hs fun j _ s hs => hbit i j s hs
    exact ⟨(ok, _, hc), by rw [extractByte, hloop]; rfl, hhc⟩
  obtain ⟨⟨ok, bytes', hc⟩, hloop, hhc⟩ : ∃ r, forWhile length (extractByte inBuf)
      (bytes, inmClearEntropyLevel context.health) = some r ∧ r.2.2.Inv :=
    forWhile_returns (fun s => s.2.Inv) (inmClearEntropyLevel_inv hinv)
      fun i _ s hs => hbyte i s hs
  rw [extractBytes, hloop]
  cases ok
  · exact ⟨false, bytes', _, rfl, hhc⟩
  · exact ⟨true, bytes', _, rfl, hhc⟩

/-- Every call of `readData` returns, and leaves the invariant of the health checker. -/
theorem readData_returns {context : Context} (hinv : context.health.Inv) (script : UsbScript)
    (result : Option (ℕ → Byte)) (raw : Bool) (outputMultiplier : ℕ) :
    ∃ r, readData context script result raw outputMultiplier = some r ∧ r.context.health.Inv := by
  obtain ⟨ok, bytes, context', hextract, hinv'⟩ :=
    extractBytes_returns hinv (fun _ => 0) (buflen / 8) script.inBuf
  rw [readData]
  split_ifs
  · exact ⟨_, rfl, hinv⟩
  · exact ⟨_, rfl, hinv⟩
  · exact ⟨_, rfl, hinv⟩
  · rw [hextract]
    cases ok
    · exact ⟨_, rfl, hinv'⟩
    · rw [Option.map_some]
      dsimp only
      split_ifs
      · exact ⟨_, rfl, hinv'⟩
      · refine ⟨_, rfl, ?_⟩
        rw [Filled.toRead, (processBytes_keeps _ _ _ _ _).1]
        exact hinv'
  · exact ⟨_, rfl, hinv⟩

/-! ### The loop -/

/-- The context after the first `n` reads of a warm-up. -/
def warmupReads : ℕ → (ℕ → UsbScript) → Context → Option Context
  | 0, _, context => some context
  | n + 1, rounds, context =>
    (readData context (rounds 0) none true 1).bind fun r =>
      warmupReads n (fun i => rounds (i + 1)) r.context

/-- The loop stops after the first read that makes the health check hold. -/
lemma warmupLoop_eq_some {fuel : ℕ} {rounds : ℕ → UsbScript} {k k' : ℕ} {context context' : Context}
    (h : warmupLoop fuel rounds k context = some (k', context')) (hk : k < 4294967296) :
    ∃ n ≤ fuel, warmupReads n rounds context = some context' ∧ k' = u32 (k + n) ∧
      inmHealthCheckOkToUseData context'.health = true := by
  induction fuel generalizing rounds k context with
  | zero =>
    rw [warmupLoop] at h
    split_ifs at h with hok
    cases h
    exact ⟨0, le_rfl, rfl, (u32_of_lt hk).symm, hok⟩
  | succ fuel ih =>
    rw [warmupLoop] at h
    split_ifs at h with hok
    · cases h
      exact ⟨0, Nat.zero_le _, rfl, (u32_of_lt hk).symm, hok⟩
    · rcases hread : readData context (rounds 0) none true 1 with _ | r
      · rw [hread] at h
        cases h
      · rw [hread] at h
        obtain ⟨n, hn, hreads, hrounds, hok'⟩ := ih h (u32_lt _)
        refine ⟨n + 1, Nat.succ_le_succ hn, ?_, ?_, hok'⟩
        · rw [warmupReads, hread]
          exact hreads
        · rw [hrounds, u32, u32, u32, Nat.mod_add_mod, Nat.add_assoc, Nat.add_comm 1]

/-- It does stop once the health check holds. -/
lemma exists_warmupLoop {fuel n : ℕ} {rounds : ℕ → UsbScript} {k : ℕ} {context context' : Context}
    (hn : n ≤ fuel) (hreads : warmupReads n rounds context = some context')
    (hok : inmHealthCheckOkToUseData context'.health = true) (hk : k + n < 4294967296) :
    ∃ m ≤ n, ∃ context'', warmupLoop fuel rounds k context = some (k + m, context'') ∧
      inmHealthCheckOkToUseData context''.health = true := by
  induction n generalizing fuel rounds k context with
  | zero =>
    obtain rfl := Option.some.inj hreads
    refine ⟨0, le_rfl, context, ?_, hok⟩
    cases fuel <;> rw [warmupLoop, if_pos hok, Nat.add_zero]
  | succ n ih =>
    obtain ⟨fuel, rfl⟩ : ∃ m, fuel = m + 1 := ⟨fuel - 1, by omega⟩
    rw [warmupLoop]
    split_ifs with hnow
    · exact ⟨0, Nat.zero_le _, context, rfl, hnow⟩
    · obtain ⟨r, hread, hrest⟩ := Option.bind_eq_some_iff.mp hreads
      obtain ⟨m, hm, context'', hloop, hok'⟩ := ih (k := k + 1) (Nat.le_of_succ_le_succ hn) hrest
        (by omega)
      refine ⟨m + 1, Nat.succ_le_succ hm, context'', ?_, hok'⟩
      rw [hread, u32_of_lt (by omega)]
      exact hloop.trans (by rw [Nat.add_assoc, Nat.add_comm 1])

/-- What the rounds keep up while the check fails holds when the loop stops, and it stops in time if
in the last round the check has to hold. -/
lemma warmupLoop_keepsUp {P : ℕ → Context → Prop} {rounds : ℕ → UsbScript} {last : ℕ}
    (hlast : last < 4294967296)
    (hnext : ∀ j < last, ∀ context, P j context →
      inmHealthCheckOkToUseData context.health = false →
      ∃ r, readData context (rounds j) none true 1 = some r ∧ P (j + 1) r.context)
    (hdone : ∀ context, P last context → inmHealthCheckOkToUseData context.health = true) {n : ℕ} :
    ∀ {j fuel : ℕ} {context : Context}, P j context → j + n = last → n ≤ fuel →
      ∃ k context', k ≤ last ∧ P k context' ∧ inmHealthCheckOkToUseData context'.health = true ∧
        warmupLoop fuel (fun i => rounds (j + i)) j context = some (k, context') := by
  have hstop : ∀ {j fuel : ℕ} {context : Context}, P j context → j ≤ last →
      inmHealthCheckOkToUseData context.health = true →
      ∃ k context', k ≤ last ∧ P k context' ∧ inmHealthCheckOkToUseData context'.health = true ∧
        warmupLoop fuel (fun i => rounds (j + i)) j context = some (k, context') := by
    intro j fuel context h hj hok
    refine ⟨j, context, hj, h, hok, ?_⟩
    cases fuel <;> rw [warmupLoop, if_pos hok]
  induction n with
  | zero =>
    intro j fuel context h hj hfuel
    obtain rfl : j = last := hj
    exact hstop h le_rfl (hdone context h)
  | succ n ih =>
    intro j fuel context h hj hfuel
    rcases hok : inmHealthCheckOkToUseData context.health with _ | _
    · obtain ⟨fuel, rfl⟩ : ∃ m, fuel = m + 1 := ⟨fuel - 1, by omega⟩
      obtain ⟨r, hread, hr⟩ := hnext j (by omega) context h hok
      obtain ⟨k, context', hk, h', hok', hloop⟩ := ih hr (by omega : j + 1 + n = last)
        (by omega : n ≤ fuel)
      refine ⟨k, context', hk, h', hok', ?_⟩
      rw [warmupLoop, hok, if_neg Bool.false_ne_true]
      simp only [Nat.add_zero, hread, u32_of_lt (by omega : j + 1 < 4294967296)]
      rw [← hloop]
      congr 1
      funext i
      rw [Nat.add_comm i 1, Nat.add_assoc]
    · exact hstop h (by omega) hok

/-! ### Initialisation -/

/-- What `initInfnoise` does up to its loop: the context in which it returns `false`, or the one in
which it enters the loop. -/
def beforeWarmup (log : Float → Float) (context : Context) (serial : Option String)
    (keccak debug : Bool) (script : InitScript) : Except Context Context :=
  let context := { context with
    message := ""
    entropyThisTime := 0
    keccakBytesGiven := 0
    outBuf := prepareOutputBuffer context.outBuf }
  match inmHealthCheckStart log context.health predictionBits designK debug script.allocated with
  | (false, health) =>
    .error { context with health, message := "Can't initialize health checker" }
  | (true, health) =>
    let usb :=
      match initializeUSB script.usb context.message serial with
      | (true, message) => (true, message)
      | (false, message) => initializeUSB script.retry message serial
    match usb with
    | (false, message) => .error { context with health, message }
    | (true, message) =>
      let context := { context with health, message }
      .ok (if keccak then
          { context with
            tables := keccakInitialize context.tables, keccakState := keccakInitializeState }
        else context)

/-- What it does after its loop. -/
def afterWarmup (s : ℕ × Context) : Bool × Context :=
  if s.1 > maxWarmupRounds then
    (false, { s.2 with
      message := "Unable to collect enough entropy to initialize health checker." })
  else (true, s.2)

lemma initInfnoise_eq (log : Float → Float) (context : Context) (serial : Option String)
    (keccak debug : Bool) (script : InitScript) (fuel : ℕ) :
    initInfnoise log context serial keccak debug script fuel =
      match beforeWarmup log context serial keccak debug script with
      | .error context => some (false, context)
      | .ok context => (warmupLoop fuel script.rounds 0 context).map afterWarmup := by
  simp only [initInfnoise, beforeWarmup]
  rcases inmHealthCheckStart log context.health predictionBits designK debug script.allocated
    with ⟨_ | _, health⟩
  · rfl
  · rcases initializeUSB script.usb "" serial with ⟨_ | _, message⟩
    · rcases hretry : initializeUSB script.retry message serial with ⟨_ | _, message'⟩
      · simp only [hretry]
      · simp only [hretry]
        rfl
    · rfl

/-- A loop that ends in time makes `initInfnoise` succeed. -/
lemma initInfnoise_of_warmupLoop {log : Float → Float} {context context₁ context₂ : Context}
    {serial : Option String} {keccak debug : Bool} {script : InitScript} {fuel k : ℕ}
    (hbefore : beforeWarmup log context serial keccak debug script = .ok context₁)
    (hloop : warmupLoop fuel script.rounds 0 context₁ = some (k, context₂))
    (hk : k ≤ maxWarmupRounds) :
    initInfnoise log context serial keccak debug script fuel = some (true, context₂) := by
  rw [initInfnoise_eq, hbefore]
  refine (congrArg (Option.map afterWarmup) hloop).trans ?_
  rw [Option.map_some, afterWarmup, if_neg (not_lt.mpr hk)]

/-- The loop is entered with a started health checker and a cleared sponge, if there is to be one. -/
lemma beforeWarmup_cases {log : Float → Float} {context context' : Context}
    {serial : Option String} {keccak debug : Bool} {script : InitScript}
    (h : beforeWarmup log context serial keccak debug script = .ok context') :
    context'.health = (inmHealthCheckStart log context.health predictionBits designK debug
        script.allocated).2 ∧ context'.keccakBytesGiven = 0 ∧
      (keccak = true → context'.tables = keccakInitialize context.tables ∧
        context'.keccakState = keccakInitializeState) := by
  simp only [beforeWarmup] at h
  generalize inmHealthCheckStart log context.health predictionBits designK debug script.allocated
    = start at h ⊢
  rcases start with ⟨_ | _, health⟩
  · cases h
  · dsimp only at h
    split at h
    · cases h
    · cases h
      cases keccak
      · exact ⟨rfl, rfl, fun hfalse => by cases hfalse⟩
      · exact ⟨rfl, rfl, fun _ => ⟨rfl, rfl⟩⟩

/-- The reads of a warm-up leave the sponge alone. -/
lemma warmupReads_sponge {n : ℕ} {rounds : ℕ → UsbScript} {context context' : Context}
    (h : warmupReads n rounds context = some context') (hgiven : context.keccakBytesGiven = 0) :
    context'.keccakBytesGiven = 0 ∧ context'.tables = context.tables ∧
      context'.keccakState = context.keccakState := by
  induction n generalizing rounds context with
  | zero =>
    obtain rfl := Option.some.inj h
    exact ⟨hgiven, rfl, rfl⟩
  | succ n ih =>
    obtain ⟨r, hread, hrest⟩ := Option.bind_eq_some_iff.mp h
    have hstep := readData_step hread
    have hkeeps : r.context.tables = context.tables ∧
        r.context.keccakState = context.keccakState := by
      rcases hstep.idle_or with ⟨_, _, hidle⟩ | ⟨bytes, context₁, hblock, _, rfl⟩ | ⟨hpos, _⟩
      · exact ⟨hidle.tables_eq, hidle.keccakState_eq⟩
      · obtain ⟨_, health, _, rfl⟩ := hblock.cases
        rw [processBytes_raw, Filled.toRead, Context.capEntropy_eq]
        exact ⟨rfl, rfl⟩
      · exact absurd hgiven (Nat.ne_of_gt hpos)
    obtain ⟨hgiven', htables, hstate⟩ := ih hrest (hstep.given_of_unspent hgiven fun _ => rfl)
    exact ⟨hgiven', htables.trans hkeeps.1, hstate.trans hkeeps.2⟩

/-- An initialised context with a sponge: the tables are filled, and the state is cleared. -/
lemma initInfnoise_sponge {log : Float → Float} {context context' : Context}
    {serial : Option String} {debug : Bool} {script : InitScript} {fuel : ℕ}
    (h : initInfnoise log context serial true debug script fuel = some (true, context')) :
    context'.keccakBytesGiven = 0 ∧ context'.tables = keccakInitialize context.tables ∧
      context'.keccakState = keccakInitializeState := by
  rw [initInfnoise_eq] at h
  rcases hbefore : beforeWarmup log context serial true debug script with context₁ | context₁
  · rw [hbefore] at h
    cases h
  · rw [hbefore] at h
    obtain ⟨⟨k, context₂⟩, hloop, hafter⟩ := Option.map_eq_some_iff.mp h
    obtain ⟨n, _, hreads, _, _⟩ := warmupLoop_eq_some hloop (Nat.zero_lt_succ _)
    obtain ⟨_, hgiven, hsponge⟩ := beforeWarmup_cases hbefore
    obtain ⟨hgiven', htables, hstate⟩ := warmupReads_sponge hreads hgiven
    rw [afterWarmup] at hafter
    split_ifs at hafter
    · cases hafter
    · cases hafter
      obtain ⟨htables₁, hstate₁⟩ := hsponge rfl
      exact ⟨hgiven', htables.trans htables₁, hstate.trans hstate₁⟩

/-- The warm-up ends as it should: when the loop is entered at all, it is left after at most
`maxWarmupRounds + 1` reads, and `initInfnoise` tells whether the health check holds then, with a
message when it does not. -/
def WarmupEnds (log : Float → Float) (context : Context) (serial : Option String)
    (keccak debug : Bool) (script : InitScript) : Prop :=
  ∀ context', beforeWarmup log context serial keccak debug script = .ok context' →
    ∃ ok context'', initInfnoise log context serial keccak debug script (maxWarmupRounds + 1) =
        some (ok, context'') ∧
      ok = inmHealthCheckOkToUseData context''.health ∧ (ok = false → context''.message ≠ "")

/-- It does exactly on devices that make the health check hold within the bound. -/
theorem warmupEnds_iff (log : Float → Float) (context : Context) (serial : Option String)
    (keccak debug : Bool) (script : InitScript) :
    WarmupEnds log context serial keccak debug script ↔
      ∀ context', beforeWarmup log context serial keccak debug script = .ok context' →
        ∃ n ≤ maxWarmupRounds, ∃ context'', warmupReads n script.rounds context' = some context'' ∧
          inmHealthCheckOkToUseData context''.health = true := by
  rw [WarmupEnds]
  constructor
  · intro h context' hbefore
    obtain ⟨ok, context'', hinit, hverdict, _⟩ := h context' hbefore
    rw [initInfnoise_eq, hbefore] at hinit
    obtain ⟨⟨k, context₁⟩, hloop, hafter⟩ := Option.map_eq_some_iff.mp hinit
    obtain ⟨n, hn, hreads, hk, hok⟩ := warmupLoop_eq_some hloop (Nat.zero_lt_succ _)
    refine ⟨n, ?_, context₁, hreads, hok⟩
    -- the loop is left with the health check, so `initInfnoise` should not have failed
    by_contra hmany
    simp only [maxWarmupRounds] at hn hmany
    rw [Nat.zero_add, u32_of_lt (by omega)] at hk
    rw [afterWarmup, if_pos (by simp only [maxWarmupRounds]; omega)] at hafter
    cases hafter
    rw [hok] at hverdict
    cases hverdict
  · intro h context' hbefore
    obtain ⟨n, hn, context₁, hreads, hok⟩ := h context' hbefore
    simp only [maxWarmupRounds] at hn
    have hwarm := exists_warmupLoop (k := 0) (by omega : n ≤ 5000 + 1) hreads hok (by omega)
    obtain ⟨m, hm, context'', hloop, hok'⟩ := hwarm
    refine ⟨true, context'', ?_, hok'.symm, fun hfalse => (by cases hfalse)⟩
    exact initInfnoise_of_warmupLoop hbefore hloop (by simp only [maxWarmupRounds]; omega)

/-! ### A device that is unplugged -/

/-- No write gets through. -/
def unplugged : UsbScript where
  start := ⟨0, 0⟩
  write := -1
  read := -1
  inBuf := fun _ => 0
  stop := ⟨0, 0⟩

/-- A device that is found and configured, and then unplugged. -/
def unpluggedScript : InitScript where
  allocated := true
  usb := ⟨1, 0, 0, 0, 64, 64, true⟩
  retry := ⟨1, 0, 0, 0, 64, 64, true⟩
  rounds := fun _ => unplugged

/-- Memory that has been cleared. -/
def blankContext : Context where
  entropyThisTime := 0
  message := ""
  keccakBytesGiven := 0
  keccakState := keccakInitializeState
  outBuf := fun _ => 0
  health :=
    { n := 0
      k := 0.0
      expectedEntropyPerBit := 0.0
      debug := false
      onesEven := fun _ => 0
      zerosEven := fun _ => 0
      onesOdd := fun _ => 0
      zerosOdd := fun _ => 0
      prevBits := 0
      numBitsSampled := 0
      numBitsOfEntropy := 0
      currentProbability := 0.0
      totalBits := 0
      prevBit := false
      entropyLevel := 0
      numSequentialZeros := 0
      numSequentialOnes := 0
      totalOnes := 0
      totalZeros := 0
      evenMisfires := 0
      oddMisfires := 0
      prevEven := false
      prevOdd := false }
  tables := .zero

/-- Without a bit the health check never holds. -/
lemma warmupLoop_unplugged {fuel k : ℕ} {context : Context} (hgiven : context.keccakBytesGiven = 0)
    (hbits : context.health.totalBits = 0) :
    warmupLoop fuel (fun _ => unplugged) k context = none := by
  have hnot : inmHealthCheckOkToUseData context.health = false := by
    rw [inmHealthCheckOkToUseData, hbits]
    rfl
  induction fuel generalizing k context with
  | zero => rw [warmupLoop, hnot, if_neg (by decide)]
  | succ fuel ih =>
    have hread : readData context unplugged none true 1 =
        some (nothingRead (.error .usbWrite) none
          { context with message := "USB write failed" } none) := by
      rw [readData, if_pos hgiven, if_pos (by decide)]
    rw [warmupLoop, hnot, if_neg (by decide), hread]
    exact ih hgiven hbits hnot

/-- The warm-up of such a device never ends. -/
lemma initInfnoise_of_unplugged (log : Float → Float) (context : Context) (serial : Option String) :
    ∃ context', beforeWarmup log context serial true false unpluggedScript = .ok context' ∧
      ∀ fuel, initInfnoise log context serial true false unpluggedScript fuel = none := by
  obtain ⟨context', hbefore⟩ : ∃ context', beforeWarmup log context serial true false
      unpluggedScript = .ok context' := by
    simp only [beforeWarmup, inmHealthCheckStart, initializeUSB, unpluggedScript]
    exact ⟨_, rfl⟩
  obtain ⟨hhealth, hgiven, _⟩ := beforeWarmup_cases hbefore
  refine ⟨context', hbefore, fun fuel => ?_⟩
  rw [initInfnoise_eq, hbefore]
  have hloop : warmupLoop fuel (fun _ => unplugged) 0 context' = none :=
    warmupLoop_unplugged hgiven (by rw [hhealth]; rfl)
  exact congrArg (Option.map afterWarmup) hloop

/-- So it never returns, and has no error to report. -/
theorem initInfnoise_unplugged :
    (∀ fuel, initInfnoise tableLog blankContext none true false unpluggedScript fuel = none) ∧
      ¬ WarmupEnds tableLog blankContext none true false unpluggedScript := by
  obtain ⟨context', hbefore, hforever⟩ := initInfnoise_of_unplugged tableLog blankContext none
  refine ⟨hforever, fun hends => ?_⟩
  obtain ⟨_, _, hinit, _⟩ := hends context' hbefore
  rw [hforever] at hinit
  cases hinit

end Userspace
