import Infnoise.Userspace.Comparators

/-!
# What start-up leaves to chance

A context lives in memory with any content. `initInfnoise` and its three initialisers write what is
read later, except for the comparators of the last sample. `prevOdd` is read by the first sample,
which counts a misfire by it; `prevEven` is overwritten before it is read.

A session is a sequence of calls of `initInfnoise`, with a sponge, and of `readData`; it starts with
one of `initInfnoise`. Two sessions on the same device that start in different memory are compared.
-/

namespace Userspace

open Core Core.Meter Reference
open Core.ShiftRegister (bit)
open Kernel (KeccakState sampleAt)

attribute [local irreducible] keccakPermutation keccakAbsorb keccakExtract

/-! ### Two checkers that the library does not tell apart -/

/-- The library does the same on related checkers, and leaves them related. -/
structure Unseen (R : HealthState → HealthState → Prop) : Prop where
  ok_eq : ∀ hc hc', R hc hc' → inmHealthCheckOkToUseData hc' = inmHealthCheckOkToUseData hc
  expected_eq : ∀ hc hc', R hc hc' → hc'.expectedEntropyPerBit = hc.expectedEntropyPerBit
  extract : ∀ hc hc', R hc hc' → ∀ inBuf bytes ok bytes₁ hc₁,
    forWhile (buflen / 8) (extractByte inBuf) (bytes, inmClearEntropyLevel hc) =
      some (ok, bytes₁, hc₁) →
    ∃ hc₁', forWhile (buflen / 8) (extractByte inBuf) (bytes, inmClearEntropyLevel hc') =
        some (ok, bytes₁, hc₁') ∧ hc₁'.entropyLevel = hc₁.entropyLevel ∧ R hc₁ hc₁'

/-- Two contexts whose checkers are related and that are equal otherwise. The buffer of clock pulses
is not compared: it is filled before it is used. -/
def Context.Related (R : HealthState → HealthState → Prop) (c c' : Context) : Prop :=
  ∃ outBuf health, c' = { c with outBuf, health } ∧ R c.health health

namespace Unseen

variable {R : HealthState → HealthState → Prop} (hR : Unseen R) {c c' : Context}

include hR

lemma extractBytes (hrel : c.Related R c') {bytes bytes₁ inBuf : ℕ → Byte} {ok : Bool}
    {c₁ : Context} (h : extractBytes c bytes (buflen / 8) inBuf = some (ok, bytes₁, c₁)) :
    ∃ c₁', Userspace.extractBytes c' bytes (buflen / 8) inBuf = some (ok, bytes₁, c₁') ∧
      c₁.Related R c₁' := by
  obtain ⟨outBuf, health, rfl, hhealth⟩ := hrel
  rw [Userspace.extractBytes, Option.map_eq_some_iff] at h
  obtain ⟨⟨ok', bytes', hc₁⟩, hloop, heq⟩ := h
  obtain ⟨hc₁', hloop', hlevel, hhealth'⟩ := hR.extract _ _ hhealth _ _ _ _ _ hloop
  rw [Userspace.extractBytes, hloop', Option.map_some]
  cases ok'
  · cases heq
    exact ⟨_, rfl, outBuf, hc₁', rfl, hhealth'⟩
  · cases heq
    simp only [if_true, inmGetEntropyLevel, hlevel]
    exact ⟨_, rfl, outBuf, hc₁', rfl, hhealth'⟩

lemma ok (hrel : c.Related R c') :
    inmHealthCheckOkToUseData c'.health = inmHealthCheckOkToUseData c.health := by
  obtain ⟨outBuf, health, rfl, hhealth⟩ := hrel
  exact hR.ok_eq _ _ hhealth

lemma accepts (hrel : c.Related R c') : c'.accepts = c.accepts := by
  obtain ⟨outBuf, health, rfl, hhealth⟩ := hrel
  simp only [Context.accepts, inmEntropyOnTarget, hR.ok_eq _ _ hhealth, hR.expected_eq _ _ hhealth]

lemma capEntropy (hrel : c.Related R c') : c.capEntropy.Related R c'.capEntropy := by
  obtain ⟨outBuf, health, rfl, hhealth⟩ := hrel
  have hcap : entropyCap health = entropyCap c.health := by
    rw [entropyCap, entropyCap, hR.expected_eq _ _ hhealth]
  simp only [Context.capEntropy, hcap]
  split_ifs
  · exact ⟨outBuf, health, rfl, hhealth⟩
  · exact ⟨outBuf, health, rfl, hhealth⟩

lemma processBytes (hrel : c.Related R c') (bytes : ℕ → Byte) (result : Option (ℕ → Byte))
    (raw : Bool) (outputMultiplier : ℕ) :
    (processBytes c' bytes result raw outputMultiplier).count =
        (Userspace.processBytes c bytes result raw outputMultiplier).count ∧
      (Userspace.processBytes c' bytes result raw outputMultiplier).result =
        (Userspace.processBytes c bytes result raw outputMultiplier).result ∧
      (Userspace.processBytes c bytes result raw outputMultiplier).context.Related R
        (Userspace.processBytes c' bytes result raw outputMultiplier).context := by
  obtain ⟨outBuf, health, hcapped, hhealth⟩ := hR.capEntropy hrel
  have hgiven : ({ c.capEntropy with outBuf, health }.absorb bytes).keccakBytesGiven =
      (c.capEntropy.absorb bytes).keccakBytesGiven := rfl
  simp only [Userspace.processBytes]
  rw [hcapped, hgiven]
  split_ifs
  · exact ⟨rfl, rfl, outBuf, health, rfl, hhealth⟩
  · exact ⟨rfl, rfl, outBuf, health, rfl, hhealth⟩
  · exact ⟨rfl, rfl, outBuf, health, rfl, hhealth⟩
  · exact ⟨rfl, rfl, outBuf, health, rfl, hhealth⟩

/-- A read of the one context is a read of the other. -/
theorem readData (hrel : c.Related R c') {script : UsbScript} {result : Option (ℕ → Byte)}
    {raw : Bool} {outputMultiplier : ℕ} {r : ReadResult}
    (h : readData c script result raw outputMultiplier = some r) :
    ∃ r', Userspace.readData c' script result raw outputMultiplier = some r' ∧ r'.rc = r.rc ∧
      r'.result = r.result ∧ r.context.Related R r'.context := by
  have hgiven : c'.keccakBytesGiven = c.keccakBytesGiven := by
    obtain ⟨outBuf, health, rfl, -⟩ := hrel
    rfl
  rw [Userspace.readData] at h ⊢
  rw [hgiven]
  split_ifs at h ⊢
  · cases h
    obtain ⟨outBuf, health, rfl, hhealth⟩ := hrel
    exact ⟨_, rfl, rfl, rfl, outBuf, health, rfl, hhealth⟩
  · cases h
    obtain ⟨outBuf, health, rfl, hhealth⟩ := hrel
    exact ⟨_, rfl, rfl, rfl, outBuf, health, rfl, hhealth⟩
  · cases h
    exact ⟨_, rfl, rfl, rfl, hrel⟩
  · obtain ⟨⟨ok, bytes, c₁⟩, hextract, heq⟩ := Option.map_eq_some_iff.mp h
    obtain ⟨c₁', hextract', hrel'⟩ := hR.extractBytes hrel hextract
    rw [hextract', Option.map_some]
    cases ok
    · cases heq
      exact ⟨_, rfl, rfl, rfl, hrel'⟩
    · dsimp only at heq ⊢
      rw [hR.accepts hrel']
      split_ifs at heq ⊢
      · cases heq
        exact ⟨_, rfl, rfl, rfl, hrel'⟩
      · cases heq
        obtain ⟨hcount, hresult, hcontext⟩ := hR.processBytes hrel' bytes result raw
          outputMultiplier
        exact ⟨_, rfl, congrArg Except.ok hcount, hresult, hcontext⟩
  · cases h
    obtain ⟨outBuf, health, rfl, hhealth⟩ := hrel
    exact ⟨_, rfl, rfl, rfl, outBuf, health, rfl, hhealth⟩

/-- The warm-ups make the same number of rounds. -/
lemma warmupLoop {fuel : ℕ} {rounds : ℕ → UsbScript} {k k' : ℕ} {c₁ : Context}
    (hrel : c.Related R c') (h : warmupLoop fuel rounds k c = some (k', c₁)) :
    ∃ c₁', Userspace.warmupLoop fuel rounds k c' = some (k', c₁') ∧ c₁.Related R c₁' := by
  induction fuel generalizing rounds k c c' with
  | zero =>
    rw [Userspace.warmupLoop] at h ⊢
    rw [hR.ok hrel]
    split_ifs at h ⊢
    cases h
    exact ⟨c', rfl, hrel⟩
  | succ fuel ih =>
    rw [Userspace.warmupLoop] at h ⊢
    rw [hR.ok hrel]
    split_ifs at h ⊢
    · cases h
      exact ⟨c', rfl, hrel⟩
    · rcases hread : Userspace.readData c (rounds 0) none true 1 with _ | r
      · rw [hread] at h
        cases h
      · rw [hread] at h
        obtain ⟨r', hread', -, -, hrel'⟩ := hR.readData hrel hread
        rw [hread']
        exact ih hrel' h

end Unseen

/-! ### Two relations -/

/-- Checkers that differ in their misfires only. -/
def SameButMisfires (hc hc' : HealthState) : Prop := ∃ m, hc' = hc.withMisfires m

lemma extractBit_misfires (inBuf : ℕ → Byte) (i j : ℕ) (s t : Byte × HealthState) (ok : Bool)
    (s' : Byte × HealthState) (hst : t.1 = s.1 ∧ SameButMisfires s.2 t.2)
    (h : extractBit inBuf i j s = some (ok, s')) :
    ∃ t', extractBit inBuf i j t = some (ok, t') ∧ t'.1 = s'.1 ∧ SameButMisfires s'.2 t'.2 := by
  obtain ⟨byte, hc⟩ := s
  obtain ⟨byte', hc'⟩ := t
  obtain ⟨hbyte, m, hhealth⟩ := hst
  obtain rfl : byte' = byte := hbyte
  obtain rfl : hc' = hc.withMisfires m := hhealth
  rw [extractBit_eq, packBit, Option.map_eq_some_iff] at h
  obtain ⟨⟨ok', hc₁⟩, hadd, heq⟩ := h
  cases heq
  have hadd' := hc.addBit_withMisfires m (x := sampleAt inBuf (i * 8 + j)) rfl rfl
  rw [hadd, Option.map_some] at hadd'
  rw [extractBit_eq, packBit, hadd', Option.map_some]
  exact ⟨_, rfl, rfl, _, rfl⟩

lemma extractByte_misfires (inBuf : ℕ → Byte) (i : ℕ) (s t : (ℕ → Byte) × HealthState) (ok : Bool)
    (s' : (ℕ → Byte) × HealthState) (hst : t.1 = s.1 ∧ SameButMisfires s.2 t.2)
    (h : extractByte inBuf i s = some (ok, s')) :
    ∃ t', extractByte inBuf i t = some (ok, t') ∧ t'.1 = s'.1 ∧ SameButMisfires s'.2 t'.2 := by
  obtain ⟨hbytes, hhealth⟩ := hst
  rw [extractByte, Option.map_eq_some_iff] at h
  obtain ⟨⟨ok', byte, hc₁⟩, hloop, heq⟩ := h
  cases heq
  obtain ⟨⟨byte', hc₁'⟩, hloop', hbyte, hhealth'⟩ := forWhile_sim
    (R := fun s t : Byte × HealthState => t.1 = s.1 ∧ SameButMisfires s.2 t.2)
    (s := (0, s.2)) (t := (0, t.2)) (fun j _ => extractBit_misfires inBuf i j) ⟨rfl, hhealth⟩ hloop
  obtain rfl : byte' = byte := hbyte
  rw [extractByte, hloop', Option.map_some, hbytes]
  exact ⟨_, rfl, rfl, hhealth'⟩

lemma unseen_misfires : Unseen SameButMisfires where
  ok_eq := by
    rintro hc _ ⟨m, rfl⟩
    rfl
  expected_eq := by
    rintro hc _ ⟨m, rfl⟩
    rfl
  extract := by
    rintro hc _ ⟨m, rfl⟩ inBuf bytes ok bytes₁ hc₁ hloop
    obtain ⟨⟨bytes₁', hc₁'⟩, hloop', hbytes, m', hhealth⟩ := forWhile_sim
      (R := fun s t : (ℕ → Byte) × HealthState => t.1 = s.1 ∧ SameButMisfires s.2 t.2)
      (s := (bytes, inmClearEntropyLevel hc))
      (t := (bytes, inmClearEntropyLevel (hc.withMisfires m)))
      (fun i _ => extractByte_misfires inBuf i) ⟨rfl, m, rfl⟩ hloop
    obtain rfl : bytes₁' = bytes₁ := hbytes
    obtain rfl : hc₁' = hc₁.withMisfires m' := hhealth
    exact ⟨_, hloop', rfl, m', rfl⟩

/-- Checkers that differ in `prevEven` only, and are equal once there has been a sample. -/
def SameOnceSampled (hc hc' : HealthState) : Prop :=
  ∃ prevEven, hc' = { hc with prevEven } ∧ (prevEven = hc.prevEven ∨ hc.totalBits = 0)

lemma SameOnceSampled.refl (hc : HealthState) : SameOnceSampled hc hc :=
  ⟨hc.prevEven, rfl, .inl rfl⟩

/-- The first sample is one of the odd comparator, and writes `prevEven`. -/
lemma extract_prevEven (hc : HealthState) (prevEven : Bool) (inBuf bytes : ℕ → Byte) :
    forWhile (buflen / 8) (extractByte inBuf) (bytes, { hc with prevEven }) =
      forWhile (buflen / 8) (extractByte inBuf) (bytes, hc) := by
  apply forWhile_congr_first (by decide)
  rw [extractByte, extractByte]
  exact congrArg _ (forWhile_congr_first (by decide) rfl)

lemma unseen_onceSampled : Unseen SameOnceSampled where
  ok_eq := by
    rintro hc _ ⟨e, rfl, -⟩
    rfl
  expected_eq := by
    rintro hc _ ⟨e, rfl, -⟩
    rfl
  extract := by
    rintro hc _ ⟨e, rfl, -⟩ inBuf bytes ok bytes₁ hc₁ hloop
    refine ⟨hc₁, ?_, rfl, .refl hc₁⟩
    rw [← hloop]
    exact extract_prevEven (inmClearEntropyLevel hc) e inBuf bytes

lemma unseen_eq : Unseen Eq where
  ok_eq _ _ h := h ▸ rfl
  expected_eq _ _ h := h ▸ rfl
  extract := by
    rintro hc _ rfl inBuf bytes ok bytes₁ hc₁ hloop
    exact ⟨hc₁, hloop, rfl, rfl⟩

/-! ### Initialisation -/

/-- The two attempts to initialise the device. -/
def InitScript.usbResult (script : InitScript) (serial : Option String) : Bool × String :=
  match initializeUSB script.usb "" serial with
  | (true, message) => (true, message)
  | (false, message) => initializeUSB script.retry message serial

/-- The tables are allocated, and one of the two attempts succeeds. -/
def InitScript.comesUp (script : InitScript) (serial : Option String) : Bool :=
  script.allocated && (script.usbResult serial).1

/-- What is written before the loop, apart from the sponge. -/
def Context.reset (log : Float → Float) (c : Context) (debug : Bool) (message : String) : Context :=
  { c with
    message
    entropyThisTime := 0
    keccakBytesGiven := 0
    outBuf := prepareOutputBuffer c.outBuf
    health := (inmHealthCheckStart log c.health predictionBits designK debug true).2 }

/-- The loop is entered just if the device comes up, with the same message whatever was in
memory. -/
lemma beforeWarmup_eq (log : Float → Float) (serial : Option String) (debug : Bool)
    (script : InitScript) :
    ∃ message, ∀ c, beforeWarmup log c serial true debug script =
      match script.comesUp serial with
      | true => .ok { c.reset log debug message with
          tables := keccakInitialize c.tables, keccakState := keccakInitializeState }
      | false => .error (c.reset log debug message) := by
  rcases hallocated : script.allocated with _ | _
  · refine ⟨"Can't initialize health checker", fun c => ?_⟩
    simp only [beforeWarmup, InitScript.comesUp, hallocated]
    rfl
  · refine ⟨(script.usbResult serial).2, fun c => ?_⟩
    simp only [beforeWarmup, InitScript.comesUp, InitScript.usbResult, hallocated]
    rcases initializeUSB script.usb "" serial with ⟨_ | _, message⟩
    · dsimp only
      rcases initializeUSB script.retry message serial with ⟨_ | _, message'⟩
      · rfl
      · rfl
    · rfl

lemma Context.Related.afterWarmup {R : HealthState → HealthState → Prop} {c c' : Context}
    (hrel : c.Related R c') (k : ℕ) :
    (afterWarmup (k, c')).1 = (Userspace.afterWarmup (k, c)).1 ∧
      (Userspace.afterWarmup (k, c)).2.Related R (Userspace.afterWarmup (k, c')).2 := by
  obtain ⟨outBuf, health, rfl, hhealth⟩ := hrel
  simp only [Userspace.afterWarmup]
  split_ifs
  · exact ⟨rfl, outBuf, health, rfl, hhealth⟩
  · exact ⟨rfl, outBuf, health, rfl, hhealth⟩

lemma totalBits_pos_of_ok {hc : HealthState} (hok : inmHealthCheckOkToUseData hc = true) :
    hc.totalBits ≠ 0 := by
  intro h
  simp [inmHealthCheckOkToUseData, h] at hok

/-- Once the warm-up is over, there have been samples. -/
lemma Context.Related.eq_of_ok {c c' : Context} (hrel : c.Related SameOnceSampled c')
    (hok : inmHealthCheckOkToUseData c.health = true) : c.Related Eq c' := by
  obtain ⟨outBuf, _, rfl, e, rfl, he⟩ := hrel
  refine ⟨outBuf, _, rfl, ?_⟩
  rw [he.resolve_right (totalBits_pos_of_ok hok)]

/-- `initInfnoise` does the same on any two memories, if the tables of the sponge are the same. If
the device does not come up it leaves the comparators and the sponge as they were. If it comes up,
the contexts differ in the misfires only, and not at all if `prevOdd` was the same. -/
lemma initInfnoise_pair {log : Float → Float} {c c' c₁ : Context} {serial : Option String}
    {debug ok : Bool} {script : InitScript} {fuel : ℕ} (htables : c'.tables = c.tables)
    (h : initInfnoise log c serial true debug script fuel = some (ok, c₁)) :
    ∃ c₁', initInfnoise log c' serial true debug script fuel = some (ok, c₁') ∧
      (script.comesUp serial = true → c₁.Related SameButMisfires c₁' ∧
        (c'.health.prevOdd = c.health.prevOdd → c₁.Related Eq c₁')) ∧
      (script.comesUp serial = false → ok = false ∧
        ∃ message, c₁ = c.reset log debug message ∧ c₁' = c'.reset log debug message) := by
  obtain ⟨message, hbefore⟩ := beforeWarmup_eq log serial debug script
  rw [initInfnoise_eq, hbefore] at h
  rw [initInfnoise_eq, hbefore]
  cases hup : script.comesUp serial
  · rw [hup] at h
    cases h
    refine ⟨_, rfl, ?_, fun _ => ⟨rfl, message, rfl, rfl⟩⟩
    intro hf
    cases hf
  · rw [hup] at h
    obtain ⟨⟨k, c₂⟩, hloop, hafter⟩ := Option.map_eq_some_iff.mp h
    obtain ⟨-, -, -, -, hok⟩ := warmupLoop_eq_some hloop (Nat.zero_lt_succ _)
    have hmisfires : Context.Related SameButMisfires
        { c.reset log debug message with
          tables := keccakInitialize c.tables, keccakState := keccakInitializeState }
        { c'.reset log debug message with
          tables := keccakInitialize c'.tables, keccakState := keccakInitializeState } := by
      rw [htables]
      exact ⟨_, _, rfl, ⟨0, 0, c'.health.prevEven, c'.health.prevOdd⟩, rfl⟩
    obtain ⟨c₂', hloop', hrel⟩ := unseen_misfires.warmupLoop hmisfires hloop
    dsimp only
    rw [hloop', Option.map_some]
    obtain ⟨hret, hrel'⟩ := hrel.afterWarmup k
    rw [hafter] at hret hrel'
    refine ⟨(afterWarmup (k, c₂')).2, congrArg some (Prod.ext hret rfl), fun _ => ⟨hrel', ?_⟩,
      fun hf => (by cases hf)⟩
    intro hodd
    have honce : Context.Related SameOnceSampled
        { c.reset log debug message with
          tables := keccakInitialize c.tables, keccakState := keccakInitializeState }
        { c'.reset log debug message with
          tables := keccakInitialize c'.tables, keccakState := keccakInitializeState } := by
      rw [htables]
      refine ⟨_, _, rfl, c'.health.prevEven, ?_, .inr rfl⟩
      simp only [Context.reset, inmHealthCheckStart, hodd]
      rfl
    obtain ⟨c₃, hloop₃, hrel₃⟩ := unseen_onceSampled.warmupLoop honce hloop
    rw [hloop'] at hloop₃
    cases hloop₃
    have := ((hrel₃.eq_of_ok hok).afterWarmup k).2
    rwa [hafter] at this

/-! ### Sessions -/

/-- A context, and whether `initInfnoise` has been called on it. -/
structure Session where
  context : Context
  begun : Bool

/-- The calls of a session, with what the system and the device answer to them. -/
inductive LibraryCall where
  | init (serial : Option String) (debug : Bool) (script : InitScript) (fuel : ℕ)
  | read (script : UsbScript) (result : Option (ℕ → Byte)) (raw : Bool) (outputMultiplier : ℕ)

/-- What a call returns, with the buffer it fills. -/
inductive Reply where
  | started (ok : Bool)
  | filled (rc : Except InfnoiseError ℕ) (result : Option (ℕ → Byte))

def LibraryCall.comesUp : LibraryCall → Bool
  | init serial _ script _ => script.comesUp serial
  | read .. => false

/-- A call of a session; nothing is read before the first `initInfnoise`. -/
def Session.step (log : Float → Float) (s : Session) : LibraryCall → Option (Reply × Session)
  | .init serial debug script fuel =>
    (initInfnoise log s.context serial true debug script fuel).map fun (ok, context) =>
      (.started ok, ⟨context, true⟩)
  | .read script result raw outputMultiplier =>
    if s.begun then
      (readData s.context script result raw outputMultiplier).map fun r =>
        (.filled r.rc r.result, ⟨r.context, true⟩)
    else none

/-- What is read is read after a call that has brought the device up. -/
def ReadsOnceUp : Bool → List LibraryCall → Prop
  | _, [] => True
  | up, .init serial _ script _ :: calls => ReadsOnceUp (up || script.comesUp serial) calls
  | up, .read .. :: calls => up = true ∧ ReadsOnceUp up calls

/-- Equal contents of what matters to a reader: the health checker with its tables, the sponge, and
the two counts. -/
structure SameState (c c' : Context) : Prop where
  health_eq : c'.health = c.health
  keccakState_eq : c'.keccakState = c.keccakState
  keccakBytesGiven_eq : c'.keccakBytesGiven = c.keccakBytesGiven
  entropyThisTime_eq : c'.entropyThisTime = c.entropyThisTime

lemma Context.Related.sameState {c c' : Context} (hrel : c.Related Eq c') : SameState c c' := by
  obtain ⟨outBuf, _, rfl, rfl⟩ := hrel
  exact ⟨rfl, rfl, rfl, rfl⟩

/-- Two contexts on which `initInfnoise` has been called and the device has not come up. -/
def Down (log : Float → Float) (m m' c c' : Context) : Prop :=
  ∃ tables outBuf outBuf' debug message,
    c = { ({ m with tables } : Context).reset log debug message with outBuf } ∧
      c' = { ({ m' with tables } : Context).reset log debug message with outBuf := outBuf' }

lemma Down.reset {log : Float → Float} {m m' c c' : Context} (h : Down log m m' c c')
    (debug : Bool) (message : String) :
    Down log m m' (c.reset log debug message) (c'.reset log debug message) := by
  obtain ⟨tables, outBuf, outBuf', _, _, rfl, rfl⟩ := h
  exact ⟨tables, prepareOutputBuffer outBuf, prepareOutputBuffer outBuf', debug, message, rfl, rfl⟩

/-- They still hold the comparators and the sponge of the memory they were made in. -/
lemma Down.sameState_iff {log : Float → Float} {m m' c c' : Context} (h : Down log m m' c c') :
    SameState c c' ↔ m'.health.prevEven = m.health.prevEven ∧
      m'.health.prevOdd = m.health.prevOdd ∧ m'.keccakState = m.keccakState := by
  obtain ⟨tables, outBuf, outBuf', debug, message, rfl, rfl⟩ := h
  constructor
  · intro hsame
    have heven := congrArg HealthState.prevEven hsame.health_eq
    have hodd := congrArg HealthState.prevOdd hsame.health_eq
    exact ⟨heven, hodd, hsame.keccakState_eq⟩
  · rintro ⟨heven, hodd, hsponge⟩
    refine ⟨?_, hsponge, rfl, rfl⟩
    simp only [Context.reset, inmHealthCheckStart, heven, hodd]
    rfl

/-- If the memories agree on both, nothing tells them apart. -/
lemma Down.related {log : Float → Float} {m m' c c' : Context} (h : Down log m m' c c')
    (heven : m'.health.prevEven = m.health.prevEven)
    (hodd : m'.health.prevOdd = m.health.prevOdd) (hsponge : m'.keccakState = m.keccakState) :
    c.Related Eq c' := by
  have hhealth := (h.sameState_iff.mpr ⟨heven, hodd, hsponge⟩).health_eq
  obtain ⟨tables, outBuf, outBuf', debug, message, rfl, rfl⟩ := h
  refine ⟨outBuf', _, ?_, hhealth.symm⟩
  simp only [Context.reset, hsponge]

lemma Context.Related.reset {log : Float → Float} {c c' : Context}
    (hrel : c.Related SameButMisfires c') (debug : Bool) (message : String) :
    (c.reset log debug message).Related SameButMisfires (c'.reset log debug message) := by
  obtain ⟨outBuf, _, rfl, m, rfl⟩ := hrel
  exact ⟨prepareOutputBuffer outBuf, _, rfl, ⟨0, 0, m.prevEven, m.prevOdd⟩, rfl⟩

/-! ### The same memory, as far as it is read -/

/-- The calls on related contexts return the same and leave them related. -/
lemma Session.step_related {log : Float → Float} {s s' s₁ : Session} {call : LibraryCall}
    {reply : Reply} (hrel : s.context.Related Eq s'.context) (hbegun : s'.begun = s.begun)
    (hstep : s.step log call = some (reply, s₁)) :
    ∃ s₁', s'.step log call = some (reply, s₁') ∧ s₁.context.Related Eq s₁'.context ∧
      s₁'.begun = s₁.begun := by
  cases call with
  | init serial debug script fuel =>
    rw [Session.step, Option.map_eq_some_iff] at hstep
    obtain ⟨⟨ok, c₁⟩, hinit, heq⟩ := hstep
    cases heq
    obtain ⟨outBuf, _, hcontext, rfl⟩ := hrel
    have htables : s'.context.tables = s.context.tables := by rw [hcontext]
    obtain ⟨c₁', hinit', hisUp, hisDown⟩ := initInfnoise_pair htables hinit
    refine ⟨⟨c₁', true⟩, by rw [Session.step, hinit']; rfl, ?_, rfl⟩
    cases hcomes : script.comesUp serial
    · obtain ⟨-, message, rfl, rfl⟩ := hisDown hcomes
      rw [hcontext]
      exact ⟨prepareOutputBuffer outBuf, _, rfl, rfl⟩
    · exact (hisUp hcomes).2 (by rw [hcontext])
  | read script result raw outputMultiplier =>
    rw [Session.step] at hstep ⊢
    rw [hbegun]
    split_ifs at hstep ⊢
    obtain ⟨r, hread, heq⟩ := Option.map_eq_some_iff.mp hstep
    cases heq
    obtain ⟨r', hread', hrc, hresult, hrel'⟩ := unseen_eq.readData hrel hread
    rw [hread', Option.map_some, hrc, hresult]
    exact ⟨_, rfl, hrel', rfl⟩

lemma Session.run_related {log : Float → Float} {s s' t : Session}
    {cs : List (Call Session LibraryCall Reply)} (hrun : Run (Session.step log) s cs t)
    (hrel : s.context.Related Eq s'.context) (hbegun : s'.begun = s.begun) :
    ∃ ds t', Run (Session.step log) s' ds t' ∧ ds.map Call.input = cs.map Call.input ∧
      ds.map Call.output = cs.map Call.output ∧ t.context.Related Eq t'.context ∧
      t'.begun = t.begun := by
  apply Run.follow (R := fun s s' : Session => s.context.Related Eq s'.context ∧
    s'.begun = s.begun) _ hrun ⟨hrel, hbegun⟩
  intro s s' call reply s₁ h hstep
  exact Session.step_related h.1 h.2 hstep

/-! ### Any two memories -/

/-- Two sessions in memories `m` and `m'`, after a call of `initInfnoise`. -/
structure Session.Twin (log : Float → Float) (m m' : Context) (up : Bool) (s s' : Session) :
    Prop where
  begun_eq : s'.begun = s.begun
  tables_eq : s'.context.tables = s.context.tables
  misfires : up = true → s.context.Related SameButMisfires s'.context
  of_up : up = true → m'.health.prevOdd = m.health.prevOdd → s.context.Related Eq s'.context
  of_down : up = false → Down log m m' s.context s'.context

namespace Session.Twin

variable {log : Float → Float} {m m' : Context} {up : Bool}

/-- The first call of a session. -/
lemma of_first {c₁ : Context} {serial : Option String} {debug ok : Bool} {script : InitScript}
    {fuel : ℕ} (htables : m'.tables = m.tables)
    (h : initInfnoise log m serial true debug script fuel = some (ok, c₁)) :
    ∃ c₁', initInfnoise log m' serial true debug script fuel = some (ok, c₁') ∧
      Twin log m m' (script.comesUp serial) ⟨c₁, true⟩ ⟨c₁', true⟩ := by
  obtain ⟨c₁', hinit, hisUp, hisDown⟩ := initInfnoise_pair htables h
  refine ⟨c₁', hinit, ?_⟩
  cases hcomes : script.comesUp serial
  · obtain ⟨-, message, rfl, rfl⟩ := hisDown hcomes
    have hm' : ({ m' with tables := m.tables } : Context) = m' := by rw [← htables]
    refine ⟨rfl, htables, fun hf => (by cases hf), fun hf => (by cases hf), fun _ => ?_⟩
    refine ⟨m.tables, _, prepareOutputBuffer m'.outBuf, debug, message, rfl, ?_⟩
    rw [hm']
    rfl
  · obtain ⟨hmisfires, hexact⟩ := hisUp hcomes
    refine ⟨rfl, ?_, fun _ => hmisfires, fun _ => hexact, fun hf => (by cases hf)⟩
    obtain ⟨_, _, rfl, -⟩ := hmisfires
    rfl

lemma prevOdd_eq {s s' : Session} (h : Twin log m m' up s s')
    (hodd : m'.health.prevOdd = m.health.prevOdd) :
    s'.context.health.prevOdd = s.context.health.prevOdd := by
  cases up
  · obtain ⟨_, _, _, _, _, heq, heq'⟩ := h.of_down rfl
    rw [heq, heq']
    exact hodd
  · obtain ⟨_, _, heq, hhealth⟩ := h.of_up rfl hodd
    rw [heq, hhealth]

/-- A later call of `initInfnoise`. -/
lemma of_init {s s' : Session} {c₁ : Context} {serial : Option String} {debug ok : Bool}
    {script : InitScript} {fuel : ℕ} (h : Twin log m m' up s s')
    (hinit : initInfnoise log s.context serial true debug script fuel = some (ok, c₁)) :
    ∃ c₁', initInfnoise log s'.context serial true debug script fuel = some (ok, c₁') ∧
      Twin log m m' (up || script.comesUp serial) ⟨c₁, true⟩ ⟨c₁', true⟩ := by
  obtain ⟨c₁', hinit', hisUp, hisDown⟩ := initInfnoise_pair h.tables_eq hinit
  refine ⟨c₁', hinit', ?_⟩
  cases hcomes : script.comesUp serial
  · obtain ⟨-, message, rfl, rfl⟩ := hisDown hcomes
    rw [Bool.or_false]
    refine ⟨rfl, h.tables_eq, fun hup => (h.misfires hup).reset debug message, ?_,
      fun hdown => (h.of_down hdown).reset debug message⟩
    intro hup hodd
    obtain ⟨outBuf, _, heq, rfl⟩ := h.of_up hup hodd
    rw [heq]
    exact ⟨prepareOutputBuffer outBuf, _, rfl, rfl⟩
  · obtain ⟨hmisfires, hexact⟩ := hisUp hcomes
    rw [Bool.or_true]
    refine ⟨rfl, ?_, fun _ => hmisfires, fun _ hodd => hexact (h.prevOdd_eq hodd),
      fun hf => (by cases hf)⟩
    obtain ⟨_, _, rfl, -⟩ := hmisfires
    rfl

/-- The calls of twins return the same and make twins, if nothing is read too early. -/
lemma step {s s' s₁ : Session} {call : LibraryCall} {calls : List LibraryCall} {reply : Reply}
    (h : Twin log m m' up s s') (honce : ReadsOnceUp up (call :: calls))
    (hstep : s.step log call = some (reply, s₁)) :
    ∃ s₁', s'.step log call = some (reply, s₁') ∧ Twin log m m' (up || call.comesUp) s₁ s₁' ∧
      ReadsOnceUp (up || call.comesUp) calls := by
  cases call with
  | init serial debug script fuel =>
    rw [Session.step, Option.map_eq_some_iff] at hstep
    obtain ⟨⟨ok, c₁⟩, hinit, heq⟩ := hstep
    cases heq
    obtain ⟨c₁', hinit', htwin⟩ := h.of_init hinit
    exact ⟨_, by rw [Session.step, hinit']; rfl, htwin, honce⟩
  | read script result raw outputMultiplier =>
    obtain ⟨rfl, honce⟩ := honce
    rw [Session.step] at hstep ⊢
    rw [h.begun_eq]
    split_ifs at hstep ⊢
    obtain ⟨r, hread, heq⟩ := Option.map_eq_some_iff.mp hstep
    cases heq
    obtain ⟨r', hread', hrc, hresult, hrel⟩ := unseen_misfires.readData (h.misfires rfl) hread
    rw [hread', Option.map_some, hrc, hresult]
    refine ⟨_, rfl, ⟨rfl, ?_, fun _ => hrel, ?_, fun hf => (by cases hf)⟩, honce⟩
    · obtain ⟨_, _, heq, -⟩ := hrel
      rw [heq]
    · intro _ hodd
      obtain ⟨r'', hread'', -, -, hexact⟩ := unseen_eq.readData (h.of_up rfl hodd) hread
      rw [hread'] at hread''
      cases hread''
      exact hexact

/-- A session on one memory can be followed on the other. -/
lemma run {s s' t : Session} {cs : List (Call Session LibraryCall Reply)}
    (hrun : Run (Session.step log) s cs t) (h : Twin log m m' up s s')
    (honce : ReadsOnceUp up (cs.map Call.input)) :
    ∃ ds t', Run (Session.step log) s' ds t' ∧ ds.map Call.input = cs.map Call.input ∧
      ds.map Call.output = cs.map Call.output ∧
      Twin log m m' (up || cs.any fun c => c.input.comesUp) t t' := by
  induction hrun generalizing s' up with
  | nil s => exact ⟨[], s', .nil s', rfl, rfl, by simpa using h⟩
  | cons hstep _ ih =>
    obtain ⟨s₁', hstep', htwin, honce'⟩ := h.step honce hstep
    rw [List.any_cons, ← Bool.or_assoc]
    exact Run.follow_cons hstep' (ih htwin honce')

/-- If the memories agree on all that is not written, so do the contexts. -/
lemma related {s s' : Session} (h : Twin log m m' up s s')
    (heven : m'.health.prevEven = m.health.prevEven)
    (hodd : m'.health.prevOdd = m.health.prevOdd) (hsponge : m'.keccakState = m.keccakState) :
    s.context.Related Eq s'.context := by
  cases up
  · exact (h.of_down rfl).related heven hodd hsponge
  · exact h.of_up rfl hodd

end Session.Twin

/-- A session starts with a call of `initInfnoise`, which makes twins. -/
lemma Session.exists_twin {log : Float → Float} {m m' : Context} {s : Session}
    {cs : List (Call Session LibraryCall Reply)} (htables : m'.tables = m.tables) (hcs : cs ≠ [])
    (h : Run (Session.step log) ⟨m, false⟩ cs s) :
    ∃ (c : Call Session LibraryCall Reply) (cs₁ : List (Call Session LibraryCall Reply))
      (s₁ s₁' : Session), cs = c :: cs₁ ∧ Run (Session.step log) s₁ cs₁ s ∧
      Session.step log ⟨m', false⟩ c.input = some (c.output, s₁') ∧
      Session.Twin log m m' c.input.comesUp s₁ s₁' ∧
      (ReadsOnceUp false (cs.map Call.input) →
        ReadsOnceUp c.input.comesUp (cs₁.map Call.input)) := by
  cases h with
  | nil => cases hcs rfl
  | @cons _ s₁ _ call reply cs hstep hrun =>
    cases call with
    | read => cases hstep
    | init serial debug script fuel =>
      rw [Session.step, Option.map_eq_some_iff] at hstep
      obtain ⟨⟨ok, c₁⟩, hinit, heq⟩ := hstep
      cases heq
      obtain ⟨c₁', hinit', htwin⟩ := Session.Twin.of_first htables hinit
      refine ⟨_, cs, ⟨c₁, true⟩, ⟨c₁', true⟩, rfl, hrun, ?_, htwin, fun honce => ?_⟩
      · rw [Session.step, hinit']
        rfl
      · exact honce

/-! ### A device that is not there -/

def absentScript : InitScript where
  allocated := true
  usb := ⟨-1, 0, 0, 0, 0, 0, false⟩
  retry := ⟨-1, 0, 0, 0, 0, 0, false⟩
  rounds := fun _ => unplugged

/-- A session of one call, which finds no device. -/
def absentCall (c : Context) : Call Session LibraryCall Reply where
  before := ⟨c, false⟩
  input := .init none false absentScript 0
  output := .started false
  after := ⟨c.reset tableLog false "Can't find Infinite Noise Multiplier", true⟩

lemma run_absent (c : Context) :
    Run (Session.step tableLog) ⟨c, false⟩ [absentCall c] (absentCall c).after := by
  refine .cons ?_ (.nil _)
  rfl

/-- Whatever was in memory, a session on the same device returns the same and fills its buffers with
the same bytes, if nothing is read before the device has come up. If it has come up, the session
also ends with equal contents when `prevOdd` was the same. If it never has, it does so just when
both comparators and the sponge were the same. When all three were the same, any session returns the
same and ends with equal contents. -/
theorem startup_determined {log : Float → Float} {m : Context} (m' : Context)
    {cs : List (Call Session LibraryCall Reply)} {s : Session} (htables : m'.tables = m.tables)
    (hcs : cs ≠ []) (h : Run (Session.step log) ⟨m, false⟩ cs s) :
    (ReadsOnceUp false (cs.map Call.input) →
      ∃ ds s', Run (Session.step log) ⟨m', false⟩ ds s' ∧
        ds.map Call.input = cs.map Call.input ∧ ds.map Call.output = cs.map Call.output ∧
        ((∃ c ∈ cs, c.input.comesUp = true) → m'.health.prevOdd = m.health.prevOdd →
          SameState s.context s'.context) ∧
        ((∀ c ∈ cs, c.input.comesUp = false) →
          (SameState s.context s'.context ↔ m'.health.prevEven = m.health.prevEven ∧
            m'.health.prevOdd = m.health.prevOdd ∧ m'.keccakState = m.keccakState))) ∧
    (m'.health.prevEven = m.health.prevEven → m'.health.prevOdd = m.health.prevOdd →
      m'.keccakState = m.keccakState →
      ∃ ds s', Run (Session.step log) ⟨m', false⟩ ds s' ∧
        ds.map Call.input = cs.map Call.input ∧ ds.map Call.output = cs.map Call.output ∧
        SameState s.context s'.context) := by
  obtain ⟨c, cs₁, s₁, s₁', rfl, hrun, hstep', htwin, honce⟩ := Session.exists_twin htables hcs h
  constructor
  · intro hreads
    obtain ⟨ds, s', hds, hin, hout, htwin'⟩ := htwin.run hrun (honce hreads)
    refine Run.follow_cons hstep' ⟨ds, s', hds, hin, hout, ?_, ?_⟩
    · intro hup hodd
      refine (htwin'.of_up ?_ hodd).sameState
      simpa using hup
    · intro hdown
      refine (htwin'.of_down ?_).sameState_iff
      simpa using hdown
  · intro heven hodd hsponge
    obtain ⟨ds, s', hds, hin, hout, hrel, -⟩ :=
      Session.run_related hrun (htwin.related heven hodd hsponge) htwin.begun_eq
    exact Run.follow_cons hstep' ⟨ds, s', hds, hin, hout, hrel.sameState⟩

/-- Memory that agrees with cleared memory on `prevOdd` and on the tables of the sponge, which are
static. -/
def scrambledContext : Context :=
  { blankContext with
    entropyThisTime := 7
    message := "garbage"
    keccakBytesGiven := 99
    keccakState := .replicate 200 0xa5
    outBuf := fun _ => 0xa5
    health :=
      { blankContext.health with
        n := 3
        k := 2.0
        expectedEntropyPerBit := 2.0
        onesEven := fun _ => 5
        zerosEven := fun _ => 6
        onesOdd := fun _ => 7
        zerosOdd := fun _ => 8
        prevBits := 9
        numBitsSampled := 10
        numBitsOfEntropy := 11
        currentProbability := 0.25
        totalBits := 100000
        prevBit := true
        entropyLevel := 12
        numSequentialZeros := 13
        numSequentialOnes := 14
        totalOnes := 15
        totalZeros := 16
        evenMisfires := 17
        oddMisfires := 18
        prevEven := true } }

/-- A device is plugged in after a first start has not found it, and read from. -/
theorem startup_determined_scrambled :
    ∃ (cs ds : List (Call Session LibraryCall Reply)) (s s' : Session) (script : UsbScript)
      (result : Option (ℕ → Byte)),
      Run (Session.step tableLog) ⟨blankContext, false⟩ cs s ∧
      Run (Session.step tableLog) ⟨scrambledContext, false⟩ ds s' ∧
      ¬ SameState blankContext scrambledContext ∧
      cs.map Call.input = [.init none false absentScript 0, .init none false registerScript 371,
        .read script (some fun _ => 0) false 3] ∧
      ds.map Call.input = cs.map Call.input ∧
      cs.map Call.output = [.started false, .started true, .filled (.ok 96) result] ∧
      ds.map Call.output = cs.map Call.output ∧ SameState s.context s'.context := by
  let down : Context := blankContext.reset tableLog false "Can't find Infinite Noise Multiplier"
  obtain ⟨q, j, context, h157, h372, hwarming, hok, hinit⟩ :=
    exists_initInfnoise tableLog_accurate down rfl rfl none true false (le_refl 371)
  obtain ⟨bytes, hblock⟩ := exists_block hwarming.fed (by omega) hwarming.given_eq
  have hread := hblock.readData (hwarming.accepts h157 h372 hok) (some fun _ => 0) false 3
  obtain ⟨r, hr⟩ : ∃ r, (processBytes (context.extract (512 * j)) bytes (some fun _ => 0) false
      3).toRead (some (registerRound (512 * j)).inBuf) = r := ⟨_, rfl⟩
  rw [hr] at hread
  have hrc : r.rc = .ok 96 := by
    rw [← hr]
    simp only [Filled.toRead, processBytes_multiplier _ _ _ (by decide : 3 ≠ 0) hblock.given_after,
      squeezeChunk_count, chunkSize, Context.fund_keccakBytesGiven, bytesOfMultiplier_eq]
    rfl
  have hstarts : Session.step tableLog ⟨down, true⟩ (.init none false registerScript 371) =
      some (.started true, ⟨context, true⟩) := by
    rw [Session.step, hinit]
    rfl
  have hreads : Session.step tableLog ⟨context, true⟩
      (.read (registerRound (512 * j)) (some fun _ => 0) false 3) =
        some (.filled (.ok 96) r.result, ⟨r.context, true⟩) := by
    rw [Session.step, if_pos rfl, hread, Option.map_some, hrc]
  have hrun := (run_absent blankContext).append (.cons hstarts (.single hreads))
  obtain ⟨ds, s', hds, hin, hout, hup, -⟩ := (startup_determined (m := blankContext)
    scrambledContext rfl (List.cons_ne_nil _ _) hrun).1 ⟨rfl, trivial⟩
  refine ⟨_, ds, _, s', registerRound (512 * j), r.result, hrun, hds, ?_, rfl, hin, rfl, hout,
    hup ⟨_, List.mem_cons_of_mem _ List.mem_cons_self, rfl⟩ rfl⟩
  intro hsame
  exact absurd (congrArg HealthState.prevEven hsame.health_eq) (by decide)

/-! ### A device that misfires -/

/-- A sample of the two comparators. -/
def comparators (evenBit oddBit : Bool) : Byte :=
  (if evenBit then 16 else 0) ||| (if oddBit then 2 else 0)

lemma evenBitOf_comparators (evenBit oddBit : Bool) :
    Kernel.evenBitOf (comparators evenBit oddBit) = evenBit := by
  cases evenBit <;> cases oddBit <;> decide

lemma oddBitOf_comparators (evenBit oddBit : Bool) :
    Kernel.oddBitOf (comparators evenBit oddBit) = oddBit := by
  cases evenBit <;> cases oddBit <;> decide

lemma sampleAt_comparators {byte : ℕ → Byte} {n : ℕ} {evenBit oddBit : Bool}
    (h : byte n = comparators evenBit oddBit) :
    sampleAt byte n = ⟨evenBit, oddBit, n % 2 == 1⟩ := by
  rw [sampleAt, h, evenBitOf_comparators, oddBitOf_comparators]

/-- The odd comparator changes before it is selected, but for the samples 2, 4, .., 14. -/
def misfiringByte (n : ℕ) : Byte :=
  if n % 2 = 1 then comparators (bit n) (bit (n + 1) != decide (n < 14))
  else comparators false (bit n)

lemma sampleAt_misfiringByte (n : ℕ) :
    sampleAt misfiringByte n =
      if n % 2 = 1 then ⟨bit n, bit (n + 1) != decide (n < 14), true⟩
      else ⟨false, bit n, false⟩ := by
  split_ifs with h
  · rw [sampleAt_comparators (if_pos h), h]
    rfl
  · rw [sampleAt_comparators (if_neg h), Nat.mod_two_ne_one.mp h]
    rfl

lemma follows_misfiringByte : Follows misfiringByte := by
  intro n
  rw [sampleAt_misfiringByte]
  split_ifs
  · rfl
  · rfl

lemma misfiresAfter_succ (byte : ℕ → Byte) (m : Misfires) (n : ℕ) :
    misfiresAfter byte m (n + 1) =
      if samples n + 1 = 80000 then ((misfiresAfter byte m n).observe (sampleAt byte n)).halve
      else (misfiresAfter byte m n).observe (sampleAt byte n) := by
  have hlt := samples_lt n
  rw [misfiresAfter, Misfires.after, u32_of_lt (by omega)]
  simp only [true_and]
  rfl

lemma misfiresAfter_prevOdd (byte : ℕ → Byte) (m : Misfires) (n : ℕ) :
    (misfiresAfter byte m (n + 1)).prevOdd = (sampleAt byte n).oddBit := by
  rw [misfiresAfter_succ]
  split_ifs
  · rfl
  · rfl

/-- The counts are halved when the window is full, which it is from sample 80000 on every 40000
samples. -/
lemma misfiresAfter_oddMisfires {byte : ℕ → Byte} {m : Misfires} {n count : ℕ}
    (h : ((misfiresAfter byte m n).observe (sampleAt byte n)).oddMisfires =
      count >>> ((n - 40000) / 40000)) :
    (misfiresAfter byte m (n + 1)).oddMisfires = count >>> ((n + 1 - 40000) / 40000) := by
  rw [misfiresAfter_succ, samples]
  split_ifs with hlt hfull hfull
  · have hsucc : (n + 1 - 40000) / 40000 = (n - 40000) / 40000 + 1 := by omega
    rw [Misfires.halve, h, hsucc, Nat.shiftRight_add]
  · have hsame : (n + 1 - 40000) / 40000 = (n - 40000) / 40000 := by omega
    rw [h, hsame]
  · have hsucc : (n + 1 - 40000) / 40000 = (n - 40000) / 40000 + 1 := by omega
    rw [Misfires.halve, h, hsucc, Nat.shiftRight_add]
  · have hsame : (n + 1 - 40000) / 40000 = (n - 40000) / 40000 := by omega
    rw [h, hsame]

/-- It misfires seven times, and once more if the first sample is not what was in memory. -/
lemma misfiresAfter_misfiringByte (prevEven prevOdd : Bool) (n : ℕ) :
    (misfiresAfter misfiringByte ⟨0, 0, prevEven, prevOdd⟩ (n + 1)).oddMisfires =
        (min 7 (n / 2) + (bit 0 != prevOdd).toNat) >>> ((n + 1 - 40000) / 40000) := by
  induction n with
  | zero =>
    apply misfiresAfter_oddMisfires
    rw [sampleAt_misfiringByte]
    cases bit 0 <;> cases prevOdd <;> rfl
  | succ n ih =>
    have hprev := misfiresAfter_prevOdd misfiringByte ⟨0, 0, prevEven, prevOdd⟩ n
    have hc := Bool.toNat_le (bit 0 != prevOdd)
    apply misfiresAfter_oddMisfires
    rw [Misfires.observe, ih, hprev, sampleAt_misfiringByte, sampleAt_misfiringByte]
    rcases Nat.mod_two_eq_zero_or_one n with heven | hodd
    · -- a sample of the even comparator
      rw [if_pos (by omega : (n + 1) % 2 = 1)]
      dsimp only
      rw [if_pos rfl, (by omega : (n + 1) / 2 = n / 2)]
    · rw [if_neg (by omega : ¬ (n + 1) % 2 = 1), if_pos hodd]
      dsimp only
      rw [if_neg Bool.false_ne_true]
      have hmisfire : (bit (n + 1) != (bit (n + 1) != decide (n < 14))) = decide (n < 14) := by
        cases bit (n + 1) <;> cases decide (n < 14) <;> rfl
      rw [hmisfire]
      by_cases hn : n < 14
      · -- too early for a halving
        have hzero : (n + 1 - 40000) / 40000 = 0 := by omega
        rw [hzero, Nat.shiftRight_zero, Nat.shiftRight_zero, decide_eq_true hn, Bool.toNat_true,
          u32_of_lt (by omega)]
        omega
      · have hle := Nat.shiftRight_le (min 7 (n / 2) + (bit 0 != prevOdd).toNat)
          ((n + 1 - 40000) / 40000)
        rw [decide_eq_false hn, Bool.toNat_false, Nat.add_zero, u32_of_lt (by omega),
          (by omega : min 7 ((n + 1) / 2) = min 7 (n / 2))]

/-- Before 200000 samples the halvings do not cancel what was in memory. -/
lemma misfiresAfter_misfiringByte_ne {t : ℕ} (hlow : 15 ≤ t) (hhigh : t < 200000) :
    (misfiresAfter misfiringByte ⟨0, 0, false, true⟩ t).oddMisfires ≠
      (misfiresAfter misfiringByte ⟨0, 0, false, false⟩ t).oddMisfires := by
  obtain ⟨n, rfl⟩ : ∃ n, t = n + 1 := ⟨t - 1, by omega⟩
  rw [misfiresAfter_misfiringByte, misfiresAfter_misfiringByte,
    Nat.min_eq_left (by omega : 7 ≤ n / 2)]
  have hhalvings : (n + 1 - 40000) / 40000 ≤ 3 := by omega
  generalize (n + 1 - 40000) / 40000 = halvings at hhalvings
  interval_cases halvings <;> cases bit 0 <;> decide

/-- Memory that is cleared but for `prevOdd`. -/
def dirtyContext : Context :=
  { blankContext with health := { blankContext.health with prevOdd := true } }

/-- How often the odd comparator has misfired when `initInfnoise` has succeeded on this device tells
what `prevOdd` was in memory. -/
theorem startup_miscounts :
    ∃ (cs ds : List (Call Session LibraryCall Reply)) (s s' : Session),
      Run (Session.step tableLog) ⟨blankContext, false⟩ cs s ∧
      Run (Session.step tableLog) ⟨dirtyContext, false⟩ ds s' ∧
      cs.map Call.input = [.init none false (followingScript misfiringByte) 371] ∧
      ds.map Call.input = cs.map Call.input ∧ cs.map Call.output = [.started true] ∧
      ds.map Call.output = [.started true] ∧
      s'.context.health.oddMisfires ≠ s.context.health.oddMisfires ∧
      ¬ SameState s.context s'.context := by
  obtain ⟨_, j, c, h157, h372, hwarm, hinit⟩ := exists_initInfnoise_following tableLog_accurate
    follows_misfiringByte blankContext none true false le_rfl
  obtain ⟨_, j', c', -, -, hwarm', hinit'⟩ := exists_initInfnoise_following tableLog_accurate
    follows_misfiringByte dirtyContext none true false le_rfl
  -- both starts take the same number of rounds
  obtain rfl : j' = j := by
    have htables : dirtyContext.tables = blankContext.tables := rfl
    obtain ⟨c₁, hpair, hisUp, -⟩ := initInfnoise_pair htables hinit
    rw [hinit'] at hpair
    cases hpair
    obtain ⟨⟨_, _, heq, _, rfl⟩, -⟩ := hisUp rfl
    have htotal : c'.health.totalBits = c.health.totalBits :=
      congrArg (fun context => context.health.totalBits) heq
    rw [hwarm.fed.totalBits_eq, hwarm'.fed.totalBits_eq] at htotal
    omega
  have hne := misfiresAfter_misfiringByte_ne (t := 512 * j') (by omega) (by omega)
  refine ⟨_, _, ⟨c.withMisfires _, true⟩, ⟨c'.withMisfires _, true⟩, .cons ?_ (.nil _),
    .cons ?_ (.nil _), rfl, rfl, rfl, rfl, hne, ?_⟩
  · rw [Session.step, hinit]
    rfl
  · rw [Session.step, hinit']
    rfl
  · intro hsame
    exact hne (congrArg HealthState.oddMisfires hsame.health_eq)

end Userspace
