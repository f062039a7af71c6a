import Infnoise.Core.Machine
import Infnoise.Kernel.Device
import Infnoise.Kernel.Framing

/-!
# Phase alignment

The chip in synchronous bit-bang mode is a queue: every clock byte it accepts queues one sample,
a read takes the oldest samples, and a purge empties the queue. Here a sample is the clock byte
that produced it, and the samples of an attempt are the payload bytes it reads, in order.
-/

namespace Kernel

open Core

/-- The queued samples, the oldest first. -/
abbrev Fifo := List Byte

/-- What a bulk-in request brings: the payload sizes of the packets delivered, and the error it
ends with, if any. -/
structure FifoRead where
  payloads : List (Fin 63)
  error : Option Errno

/-- How the chip answers an attempt: the clock bytes it takes, the error of the write, if any,
and the reads. -/
structure FifoAttempt where
  accepted : ℕ
  writeError : Option Errno
  reads : List FifoRead

/-- What the write returns. -/
def FifoAttempt.write (a : FifoAttempt) : Except Errno ℕ :=
  match a.writeError with
  | some e => .error e
  | none => .ok a.accepted

/-- The samples a request takes out of the queue, whether or not it ends with an error. -/
def FifoRead.size (r : FifoRead) : ℕ := (r.payloads.map Fin.val).sum

/-- The bytes of the packets; `none` is a status byte. -/
def packetBytes : Fifo → List (Fin 63) → List (Option Byte)
  | _, [] => []
  | q, n :: ns => [none, none] ++ (q.take n).map some ++ packetBytes (q.drop n) ns

/-- The completions the driver sees. -/
def deliver : Fifo → List FifoRead → List (BulkIn (Option Byte))
  | _, [] => []
  | q, r :: rest =>
    (match r.error with
      | some e => .error e
      | none => .ok (packetBytes q r.payloads)) :: deliver (q.drop r.size) rest

/-- The samples the read loop takes when it has `totalRead` bytes, and the queue it leaves;
`none` when a request brings more samples than are queued. -/
def readQueue : ℕ → Fifo → List FifoRead → Option (List Byte × Fifo)
  | _, q, [] => some ([], q)
  | totalRead, q, r :: rest =>
    if totalRead < infnoiseUsbReadSize then
      if q.length < r.size then none
      else if r.error.isSome || r.payloads.isEmpty then some ([], q.drop r.size)
      else
        (readQueue (totalRead + (packetBytes q r.payloads).length) (q.drop r.size) rest).map
          fun (samples, q') => (q.take r.size ++ samples, q')
    else some ([], q)

/-- An attempt: the 512 samples it hands to `infnoise_extract_bytes` when it gets there, and the
queue it leaves. -/
def fifoAttempt (clockBuf : ℕ → Byte) (q : Fifo) (a : FifoAttempt) :
    Option (Option (List Byte) × Fifo) :=
  if infnoiseBuflen < a.accepted then none
  else
    let q := q ++ (List.range a.accepted).map clockBuf
    if a.writeError.isSome || a.accepted != infnoiseBuflen then some (none, q)
    else
      (readQueue 0 q a.reads).map fun (samples, q') =>
        let reached := (receiveSamples a.write (deliver q a.reads) (fun _ => none) fun _ => none).1
        (if reached.isNone ∧ infnoiseBuflen ≤ samples.length then
          some (samples.take infnoiseBuflen) else none, q')

/-- What happens on the bus. -/
inductive PhaseAction where
  /-- `infnoise_test_transfer`: of its 64 zero bytes the chip takes `accepted`, and the read, for
  64 bytes, brings one packet with `n` samples. -/
  | testTransfer (accepted : Fin 65) (n : Fin 63)
  | attempt (a : FifoAttempt)
  | recovery (script : RecoveryScript)

/-- One action: the samples handed over by an attempt that succeeds, and the queue left. -/
def phaseStep (clockBuf : ℕ → Byte) (q : Fifo) : PhaseAction → Option (Option (List Byte) × Fifo)
  | .testTransfer accepted n =>
    let q := q ++ .replicate accepted 0
    if q.length < n then none else some (none, q.drop n)
  | .attempt a => fifoAttempt clockBuf q a
  | .recovery script =>
    let requests := (recoveryRequests script).1
    some (none, if .purgeRx ∈ requests ∨ .purgeTx ∈ requests then [] else q)

/-- Sample `k` was produced by a clock byte of the phase of `clock_buf[k]`. -/
def InPhase (clockBuf : ℕ → Byte) (samples : List Byte) : Prop :=
  ∀ k < infnoiseBuflen, samples[k]? = some (clockBuf k)

/-- A call in a run on the bus. -/
abbrev PhaseRecord := Call Fifo PhaseAction (Option (List Byte))

/-- If the call is an attempt that succeeds, what it hands over is in phase. -/
def SuccessInPhase (clockBuf : ℕ → Byte) (c : PhaseRecord) : Prop :=
  ∀ samples, c.output = some samples → InPhase clockBuf samples

/-! ### Traffic -/

/-- How many samples the chip brings before the read loop stops, when the loop has `totalRead`
bytes. -/
def samplesBrought : ℕ → List FifoRead → ℕ
  | _, [] => 0
  | totalRead, r :: rest =>
    if totalRead < infnoiseUsbReadSize then
      if r.error.isSome || r.payloads.isEmpty then r.size
      else r.size + samplesBrought (totalRead + (2 * r.payloads.length + r.size)) rest
    else 0

/-- How many samples an attempt brings: none when its write fails or is short. -/
def FifoAttempt.brought (a : FifoAttempt) : ℕ :=
  if a.writeError.isSome || a.accepted != infnoiseBuflen then 0 else samplesBrought 0 a.reads

/-- Even traffic: an attempt, whether it fails or not, has an even number of clock bytes accepted
and of samples brought, or brings all that is queued. Of the test transfer all samples are
brought, unless no byte of it is accepted. -/
def EvenTraffic (c : PhaseRecord) : Prop :=
  match c.input with
  | .testTransfer accepted n =>
    n.val = c.before.length + accepted.val ∨ accepted.val = 0 ∧ n.val % 2 = 0
  | .attempt a =>
    a.brought = c.before.length + a.accepted ∨ a.accepted % 2 = 0 ∧ a.brought % 2 = 0
  | .recovery _ => True

/-- The clock bytes in turn: SWEN1 at even places, SWEN2 at odd ones. -/
def phaseByte (k : ℕ) : Byte := if k % 2 = 0 then 4 else 1

/-- The samples alternate, from SWEN1 on. -/
def InTurn (q : Fifo) : Prop := ∀ k b, q[k]? = some b → b = phaseByte k

/-- The queue can stand before the samples of an attempt: they alternate, and are even in
number. -/
def Alternates (q : Fifo) : Prop := q.length % 2 = 0 ∧ InTurn q

lemma alternates_nil : Alternates [] := ⟨rfl, fun k b hb => by cases hb⟩

lemma phaseByte_add (n k : ℕ) : phaseByte (n + k) = phaseByte k ↔ n % 2 = 0 := by
  have hk : n % 2 = 0 ↔ ((n + k) % 2 = 0 ↔ k % 2 = 0) := by omega
  rw [hk]
  by_cases h : (n + k) % 2 = 0 <;> by_cases h' : k % 2 = 0 <;> simp [phaseByte, h, h']

lemma phaseByte_ne_zero (k : ℕ) : phaseByte k ≠ 0 := by
  rw [phaseByte]
  split <;> decide

/-! ### The clock buffer -/

lemma infnoisePrepareClockBuffer_eq (buf : ℕ → Byte) {k : ℕ} (hk : k < infnoiseBuflen) :
    infnoisePrepareClockBuffer buf k = phaseByte k := by
  unfold infnoisePrepareClockBuffer
  refine forLoop_invariant
    (fun i (clockBuf : ℕ → Byte) => ∀ k < 2 * i, clockBuf k = phaseByte k)
    (fun k hk => by omega) ?_ k hk
  intro i _ clockBuf ih k hk
  by_cases hodd : k = 2 * i + 1
  · subst hodd
    rw [Function.update_self, phaseByte, if_neg (by omega)]
    rfl
  · rw [Function.update_of_ne hodd]
    by_cases heven : k = 2 * i
    · subst heven
      rw [Function.update_self, phaseByte, if_pos (by omega)]
      rfl
    · rw [Function.update_of_ne heven]
      exact ih k (by omega)

/-- A buffer with the two clock bytes in turn. -/
def Clocked (clockBuf : ℕ → Byte) : Prop :=
  ∀ k < infnoiseBuflen, clockBuf k = phaseByte k

lemma infnoisePrepareClockBuffer_clocked (buf : ℕ → Byte) :
    Clocked (infnoisePrepareClockBuffer buf) :=
  fun _ hk => infnoisePrepareClockBuffer_eq buf hk

/-! ### One attempt -/

lemma packetBytes_length {q : Fifo} {ns : List (Fin 63)} (h : (ns.map Fin.val).sum ≤ q.length) :
    (packetBytes q ns).length = 2 * ns.length + (ns.map Fin.val).sum := by
  induction ns generalizing q with
  | nil => rfl
  | cons n ns ih =>
    rw [List.map_cons, List.sum_cons] at h
    have htail := ih (q := q.drop n) (by rw [List.length_drop]; omega)
    simp only [packetBytes, List.length_append, List.length_map, List.length_take, htail,
      List.length_cons, List.length_nil, List.map_cons, List.sum_cons]
    omega

/-- The read loop takes samples from the front of the queue; what a request takes before it fails
is lost. -/
lemma readQueue_eq {totalRead : ℕ} {q q' : Fifo} {reads : List FifoRead} {samples : List Byte}
    (h : readQueue totalRead q reads = some (samples, q')) :
    (∃ n, samples = q.take n) ∧ q' = q.drop (samplesBrought totalRead reads) ∧
      samplesBrought totalRead reads ≤ q.length := by
  induction reads generalizing totalRead q q' samples with
  | nil =>
    cases h
    exact ⟨⟨0, rfl⟩, rfl, Nat.zero_le _⟩
  | cons r rest ih =>
    rw [readQueue] at h
    rw [samplesBrought]
    split at h
    · rename_i hread
      rw [if_pos hread]
      split at h
      · cases h
      · rename_i hqueued
        rw [not_lt] at hqueued
        split at h
        · rename_i hlast
          cases h
          rw [if_pos hlast]
          exact ⟨⟨0, rfl⟩, rfl, hqueued⟩
        · rename_i hmore
          have hlen : (packetBytes q r.payloads).length = 2 * r.payloads.length + r.size :=
            packetBytes_length hqueued
          rw [if_neg hmore]
          rw [hlen, Option.map_eq_some_iff] at h
          obtain ⟨⟨samples', q''⟩, hrest, heq⟩ := h
          cases heq
          obtain ⟨⟨n, hn⟩, hq'', hle⟩ := ih hrest
          rw [List.length_drop] at hle
          refine ⟨⟨r.size + n, by rw [hn, List.take_add]⟩, by rw [hq'', List.drop_drop], ?_⟩
          omega
    · rename_i hdone
      cases h
      rw [if_neg hdone]
      exact ⟨⟨0, rfl⟩, rfl, Nat.zero_le _⟩

/-- An attempt queues the samples of the clock bytes accepted and takes those it brings. -/
lemma fifoAttempt_queue {clockBuf : ℕ → Byte} {q q' : Fifo} {a : FifoAttempt}
    {samples : Option (List Byte)} (h : fifoAttempt clockBuf q a = some (samples, q')) :
    a.accepted ≤ infnoiseBuflen ∧ a.brought ≤ q.length + a.accepted ∧
      q' = (q ++ (List.range a.accepted).map clockBuf).drop a.brought := by
  rw [fifoAttempt] at h
  split at h
  · cases h
  · rename_i hle
    refine ⟨not_lt.mp hle, ?_⟩
    split at h
    · rename_i hwrite
      cases h
      rw [FifoAttempt.brought, if_pos hwrite]
      exact ⟨Nat.zero_le _, rfl⟩
    · rename_i hwrite
      rw [Option.map_eq_some_iff] at h
      obtain ⟨⟨read, q''⟩, hread, heq⟩ := h
      obtain ⟨_, rfl⟩ := Prod.mk.inj heq
      obtain ⟨_, hq'', hbrought⟩ := readQueue_eq hread
      rw [List.length_append, List.length_map, List.length_range] at hbrought
      rw [FifoAttempt.brought, if_neg hwrite]
      exact ⟨hbrought, hq''⟩

/-- An attempt that succeeds hands over the front of the queue, with all clock bytes behind what
was queued before. -/
lemma fifoAttempt_success {clockBuf : ℕ → Byte} {q q' : Fifo} {a : FifoAttempt}
    {samples : List Byte} (h : fifoAttempt clockBuf q a = some (some samples, q')) :
    samples = (q ++ (List.range infnoiseBuflen).map clockBuf).take infnoiseBuflen := by
  rw [fifoAttempt] at h
  split at h
  · cases h
  · split at h
    · cases h
    · rename_i hwrite
      rw [Bool.or_eq_true, not_or, bne_iff_ne, not_not] at hwrite
      rw [Option.map_eq_some_iff] at h
      obtain ⟨⟨read, q''⟩, hread, heq⟩ := h
      dsimp only at heq
      split at heq
      · rename_i hreached
        obtain ⟨⟨n, hn⟩, _⟩ := readQueue_eq hread
        cases heq
        rw [hwrite.2] at hn
        have hlen := hreached.2
        rw [hn, List.length_take] at hlen
        rw [hn, List.take_take, min_eq_left (hlen.trans (min_le_left _ _))]
      · cases heq

/-! ### One step -/

/-- What is left of samples in turn is in turn and even in number when nothing is left, or when an
even number is taken from an even number. -/
lemma InTurn.alternates_drop_iff {q : Fifo} (h : InTurn q) {n : ℕ} (hn : n ≤ q.length) :
    Alternates (q.drop n) ↔ n = q.length ∨ q.length % 2 = 0 ∧ n % 2 = 0 := by
  constructor
  · rintro ⟨hlen, hdrop⟩
    rw [List.length_drop] at hlen
    rcases hn.eq_or_lt with hall | hlt
    · exact .inl hall
    · -- the first sample left is in turn at its place before and at its place now
      have hhead : q[n]? = some q[n] := List.getElem?_eq_getElem hlt
      have hbefore := h n _ hhead
      have hnow := hdrop 0 q[n] (by rw [List.getElem?_drop, Nat.add_zero, hhead])
      have heven := (phaseByte_add n 0).mp (hbefore.symm.trans hnow)
      exact .inr ⟨by omega, heven⟩
  · rintro (rfl | ⟨hlen, heven⟩)
    · rw [List.drop_length]
      exact alternates_nil
    · refine ⟨by rw [List.length_drop]; omega, fun k b hb => ?_⟩
      rw [List.getElem?_drop] at hb
      rw [h _ b hb]
      exact (phaseByte_add n k).mpr heven

lemma Alternates.inTurn_append {clockBuf : ℕ → Byte} (hclock : Clocked clockBuf) {q : Fifo}
    (h : Alternates q) {n : ℕ} (hle : n ≤ infnoiseBuflen) :
    InTurn (q ++ (List.range n).map clockBuf) := by
  intro k b hb
  rcases Nat.lt_or_ge k q.length with hk | hk
  · rw [List.getElem?_append_left hk] at hb
    exact h.2 k b hb
  · rw [List.getElem?_append_right hk, List.getElem?_map, Option.map_eq_some_iff] at hb
    obtain ⟨j, hj, rfl⟩ := hb
    obtain ⟨hjn, rfl⟩ := List.getElem?_eq_some_iff.mp hj
    rw [List.length_range] at hjn
    rw [List.getElem_range, hclock _ (by omega)]
    have hshift := (phaseByte_add q.length (k - q.length)).mpr h.1
    rw [← hshift, Nat.add_sub_cancel' hk]

/-- A zero byte has no phase, so none of the test transfer may stay. -/
lemma Alternates.zeros_drop_iff {q : Fifo} (h : Alternates q) {w n : ℕ} (hn : n ≤ q.length + w) :
    Alternates ((q ++ .replicate w 0).drop n) ↔ n = q.length + w ∨ w = 0 ∧ n % 2 = 0 := by
  rcases Nat.eq_zero_or_pos w with rfl | hw
  · rw [List.replicate_zero, List.append_nil, h.2.alternates_drop_iff hn]
    simp only [h.1, true_and, Nat.add_zero]
  · have hlen : (q ++ .replicate w (0 : Byte)).length = q.length + w := by
      rw [List.length_append, List.length_replicate]
    constructor
    · rintro ⟨-, hdrop⟩
      by_contra hleft
      have hlast : (q ++ .replicate w (0 : Byte))[q.length + (w - 1)]? = some 0 := by
        rw [List.getElem?_append_right (Nat.le_add_right _ _), Nat.add_sub_cancel_left,
          List.getElem?_replicate, if_pos (by omega)]
      have hturn := hdrop (q.length + (w - 1) - n) 0 (by
        rw [List.getElem?_drop, Nat.add_sub_cancel' (by omega), hlast])
      exact phaseByte_ne_zero _ hturn.symm
    · rintro (rfl | ⟨rfl, -⟩)
      · rw [List.drop_eq_nil_of_le hlen.le]
        exact alternates_nil
      · exact absurd hw (lt_irrefl 0)

/-- A step keeps the queue in phase exactly when its traffic is even, whatever fails in it. -/
lemma phaseStep_alternates_iff {clockBuf : ℕ → Byte} (hclock : Clocked clockBuf) {c : PhaseRecord}
    (hstep : phaseStep clockBuf c.before c.input = some (c.output, c.after))
    (h : Alternates c.before) : Alternates c.after ↔ EvenTraffic c := by
  obtain ⟨q, ⟨accepted, n⟩ | a | script, out, q'⟩ := c
  · simp only [phaseStep] at hstep
    split at hstep
    · cases hstep
    · rename_i hqueued
      cases hstep
      rw [List.length_append, List.length_replicate, not_lt] at hqueued
      exact h.zeros_drop_iff hqueued
  · simp only [phaseStep] at hstep
    obtain ⟨hle, hbrought, rfl⟩ := fifoAttempt_queue hstep
    have hlen : (q ++ (List.range a.accepted).map clockBuf).length = q.length + a.accepted := by
      rw [List.length_append, List.length_map, List.length_range]
    have hq : q.length % 2 = 0 := h.1
    have hsum : (q.length + a.accepted) % 2 = 0 ↔ a.accepted % 2 = 0 := by omega
    dsimp only
    rw [(h.inTurn_append hclock hle).alternates_drop_iff (hbrought.trans hlen.ge), hlen, hsum]
    exact Iff.rfl
  · simp only [phaseStep] at hstep
    cases hstep
    refine iff_of_true ?_ trivial
    dsimp only
    split
    · exact alternates_nil
    · exact h

/-! ### Attempts that succeed -/

/-- A completion with the samples of an attempt, in eight full packets and a ninth with `n`
samples, then status packets until the driver has its 576 bytes. -/
def sampleReads (n : Fin 63) (statusPackets : ℕ) : List FifoRead :=
  ⟨.replicate 8 (.last 62) ++ [n], none⟩ :: .replicate statusPackets ⟨[⟨0, by decide⟩], none⟩

def plainAttempt (n : Fin 63) (statusPackets : ℕ) : FifoAttempt :=
  ⟨512, none, sampleReads n statusPackets⟩

lemma readQueue_status (n totalRead : ℕ) (q : Fifo) :
    readQueue totalRead q (.replicate n ⟨[⟨0, by decide⟩], none⟩) = some ([], q) := by
  have hsize : FifoRead.size ⟨[⟨0, by decide⟩], none⟩ = 0 := rfl
  induction n generalizing totalRead with
  | zero => rfl
  | succ n ih =>
    rw [List.replicate_succ, readQueue]
    split
    · rw [hsize, if_neg (Nat.not_lt_zero _), if_neg (by simp), List.drop_zero, List.take_zero, ih]
      rfl
    · rfl

/-- The read loop of the attempt brings the first 512 samples queued. -/
lemma readQueue_sampleReads {q : Fifo} (hq : infnoiseBuflen ≤ q.length) :
    readQueue 0 q (sampleReads 16 23) = some (q.take infnoiseBuflen, q.drop infnoiseBuflen) := by
  have hsize : FifoRead.size ⟨.replicate 8 (.last 62) ++ [16], none⟩ = infnoiseBuflen := by decide
  rw [sampleReads, readQueue, if_pos (by decide), hsize, if_neg (not_lt.mpr hq),
    if_neg (by decide), readQueue_status, Option.map_some]
  dsimp only
  rw [List.append_nil]

/-- The completions with the bytes left out. -/
def sizes (reads : List FifoRead) : List (BulkIn Unit) :=
  reads.map fun r => match r.error with
    | some e => .error e
    | none => .ok (.replicate (2 * r.payloads.length + r.size) ())

lemma deliver_sizes {q : Fifo} {reads : List FifoRead}
    (hq : (reads.map FifoRead.size).sum ≤ q.length) :
    (deliver q reads).map (Except.map (List.map fun _ => ())) = sizes reads := by
  induction reads generalizing q with
  | nil => rfl
  | cons r rest ih =>
    rw [List.map_cons, List.sum_cons] at hq
    have hrest := ih (q := q.drop r.size) (by rw [List.length_drop]; omega)
    rw [deliver, List.map_cons, hrest]
    refine congrArg (· :: sizes rest) ?_
    dsimp only
    cases r.error with
    | some e => rfl
    | none =>
      have hlen : (packetBytes q r.payloads).length = 2 * r.payloads.length + r.size :=
        packetBytes_length ((Nat.le_add_right _ _).trans hq)
      change Except.ok ((packetBytes q r.payloads).map fun _ => ()) = _
      rw [List.map_const', hlen]

/-- From any queue, an attempt that writes all clock bytes and reads 512 samples succeeds. -/
lemma phaseStep_plainAttempt (clockBuf : ℕ → Byte) (q : Fifo) :
    phaseStep clockBuf q (.attempt (plainAttempt 16 23)) =
      some (some ((q ++ (List.range infnoiseBuflen).map clockBuf).take infnoiseBuflen),
        (q ++ (List.range infnoiseBuflen).map clockBuf).drop infnoiseBuflen) := by
  set s := q ++ (List.range infnoiseBuflen).map clockBuf with hs
  have hlen : infnoiseBuflen ≤ s.length := by
    rw [hs, List.length_append, List.length_map, List.length_range]
    exact Nat.le_add_left _ _
  have hdeliver : (deliver s (sampleReads 16 23)).map (Except.map (List.map fun _ => ())) =
      sizes (sampleReads 16 23) := deliver_sizes ((by decide : _ = infnoiseBuflen).trans_le hlen)
  -- whether the attempt gets to the samples does not depend on the bytes
  have hreached : (receiveSamples (.ok 512) (deliver s (sampleReads 16 23)) (fun _ => none)
      fun _ => none).1 = none := by
    have hmap := receiveSamples_map (fun _ : Option Byte => ()) (.ok 512)
      (deliver s (sampleReads 16 23)) (fun _ => none) fun _ => none
    rw [hdeliver] at hmap
    exact (congrArg Prod.fst hmap).symm.trans (by decide +kernel)
  have htake : infnoiseBuflen ≤ (s.take infnoiseBuflen).length := by
    rw [List.length_take, min_eq_left hlen]
  have hwrite : (plainAttempt 16 23).write = .ok 512 := rfl
  rw [phaseStep, fifoAttempt, if_neg (by decide), if_neg (by decide)]
  change Option.map _ (readQueue 0 s (sampleReads 16 23)) = _
  rw [readQueue_sampleReads hlen, Option.map_some, hwrite]
  dsimp only
  rw [if_pos ⟨Option.isNone_iff_eq_none.mpr hreached, htake⟩, List.take_take, min_self]

/-- What an attempt hands over from a queue that alternates is in phase. -/
lemma phaseStep_successInPhase {clockBuf : ℕ → Byte} (hclock : Clocked clockBuf) {c : PhaseRecord}
    (hstep : phaseStep clockBuf c.before c.input = some (c.output, c.after))
    (h : Alternates c.before) : SuccessInPhase clockBuf c := by
  intro samples hout k hk
  rw [hout] at hstep
  rcases hin : c.input with ⟨accepted, n⟩ | a | script
  · rw [hin, phaseStep] at hstep
    split at hstep <;> cases hstep
  · rw [hin, phaseStep] at hstep
    rw [fifoAttempt_success hstep, List.getElem?_take_of_lt hk, hclock k hk]
    have hlt : k < (c.before ++ (List.range infnoiseBuflen).map clockBuf).length := by
      rw [List.length_append, List.length_map, List.length_range]
      exact Nat.lt_add_left _ hk
    have hsample := List.getElem?_eq_getElem hlt
    rw [hsample, h.inTurn_append hclock le_rfl k _ hsample]
  · rw [hin, phaseStep] at hstep
    cases hstep

/-- When the samples queued and the next clock bytes do not alternate, they are out of turn at a
sample of the queue, or at the first clock byte behind it. -/
lemma exists_out_of_turn {clockBuf : ℕ → Byte} (hclock : Clocked clockBuf) {q : Fifo}
    (h : ¬ Alternates q) : ∃ k ≤ q.length,
      (q ++ (List.range infnoiseBuflen).map clockBuf)[k]? ≠ some (phaseByte k) := by
  by_contra! hturn
  refine h ⟨?_, fun k b hb => ?_⟩
  · have hfirst := hturn q.length le_rfl
    rw [List.getElem?_append_right le_rfl, Nat.sub_self, List.getElem?_map,
      List.getElem?_range (by decide), Option.map_some, Option.some.injEq,
      hclock 0 (by decide)] at hfirst
    exact (phaseByte_add q.length 0).mp hfirst.symm
  · have hk : k < q.length := (List.getElem?_eq_some_iff.mp hb).1
    have hsample := hturn k hk.le
    rw [List.getElem?_append_left hk, hb] at hsample
    exact Option.some.inj hsample

/-- A sample out of turn is handed over sooner or later, by attempts that succeed and whose traffic
is even. -/
lemma exists_success_out_of_turn {clockBuf : ℕ → Byte} (hclock : Clocked clockBuf) {q : Fifo}
    {k : ℕ} (hk : k ≤ q.length)
    (hout : (q ++ (List.range infnoiseBuflen).map clockBuf)[k]? ≠ some (phaseByte k)) :
    ∃ ds q', Run (phaseStep clockBuf) q ds q' ∧ (∀ d ∈ ds, EvenTraffic d) ∧
      ∃ d ∈ ds, ¬ SuccessInPhase clockBuf d := by
  induction k using Nat.strong_induction_on generalizing q with
  | _ k ih =>
    have hstep := phaseStep_plainAttempt clockBuf q
    have heven : ∀ c : PhaseRecord, c.input = .attempt (plainAttempt 16 23) → EvenTraffic c := by
      intro c hc
      rw [EvenTraffic, hc]
      exact .inr (by decide)
    rcases Nat.lt_or_ge k infnoiseBuflen with hnow | hlater
    · refine ⟨_, _, .single hstep, ?_, _, List.mem_singleton_self _, ?_⟩
      · intro d hd
        rw [List.mem_singleton.mp hd]
        exact heven _ rfl
      · intro hphase
        have hsample := hphase _ rfl k hnow
        rw [List.getElem?_take_of_lt hnow, hclock k hnow] at hsample
        exact hout hsample
    · -- the attempt moves the sample 512 places to the front and keeps its phase
      set s := q ++ (List.range infnoiseBuflen).map clockBuf with hs
      have hlen : (s.drop infnoiseBuflen).length = q.length := by
        rw [hs, List.length_drop, List.length_append, List.length_map, List.length_range,
          Nat.add_sub_cancel]
      have hphase : phaseByte (k - infnoiseBuflen) = phaseByte k := by
        have := (phaseByte_add infnoiseBuflen (k - infnoiseBuflen)).mpr (by decide)
        rw [← this, Nat.add_sub_cancel' hlater]
      have hmoved : (s.drop infnoiseBuflen ++ (List.range infnoiseBuflen).map clockBuf)[
          k - infnoiseBuflen]? ≠ some (phaseByte (k - infnoiseBuflen)) := by
        rw [List.getElem?_append_left (by rw [hlen]; simp only [infnoiseBuflen] at *; omega),
          List.getElem?_drop, Nat.add_sub_cancel' hlater, hphase]
        exact hout
      obtain ⟨ds, q', hds, hdeven, d, hd, hdout⟩ := ih (k - infnoiseBuflen)
        (by simp only [infnoiseBuflen] at *; omega) (hlen ▸ (Nat.sub_le _ _).trans hk) hmoved
      refine ⟨_, q', .cons hstep hds, ?_, d, List.mem_cons_of_mem _ hd, hdout⟩
      intro c hc
      rcases List.mem_cons.mp hc with rfl | hc
      · exact heven _ rfl
      · exact hdeven c hc

/-! ### Runs -/

/-- With even traffic every attempt that succeeds hands over samples in phase. -/
lemma successInPhase_of_evenTraffic {clockBuf : ℕ → Byte} (hclock : Clocked clockBuf) {q q' : Fifo}
    {cs : List PhaseRecord} (h : Run (phaseStep clockBuf) q cs q') (hq : Alternates q)
    (heven : ∀ c ∈ cs, EvenTraffic c) : ∀ c ∈ cs, SuccessInPhase clockBuf c := by
  have hkept := h.invariant_of (I := Alternates) (P := EvenTraffic)
    (fun c hstep hc halt => (phaseStep_alternates_iff hclock hstep halt).mpr hc) heven hq
  exact fun c hc => phaseStep_successInPhase hclock (h.step_of_mem hc) (hkept.1 c hc).1

/-- Along every run that starts with the clock buffer of the driver and a queue that alternates,
such as the purged one: the attempts that succeed hand over samples in phase, whatever even traffic
comes after any of the calls, exactly when the traffic of the run is even. -/
theorem attempts_inPhase_iff_evenTraffic {buf : ℕ → Byte} {q q' : Fifo} {cs : List PhaseRecord}
    (h : Run (phaseStep (infnoisePrepareClockBuffer buf)) q cs q') (hq : Alternates q) :
    (∀ c ∈ cs, SuccessInPhase (infnoisePrepareClockBuffer buf) c ∧
        ∀ ds q'', Run (phaseStep (infnoisePrepareClockBuffer buf)) c.after ds q'' →
          (∀ d ∈ ds, EvenTraffic d) → ∀ d ∈ ds,
            SuccessInPhase (infnoisePrepareClockBuffer buf) d) ↔
      ∀ c ∈ cs, EvenTraffic c := by
  have hclock := infnoisePrepareClockBuffer_clocked buf
  have hiff : (∀ c ∈ cs, Alternates c.after) ↔ ∀ c ∈ cs, EvenTraffic c :=
    h.forall_after_iff (I := fun _ => True)
      (fun c hstep _ halt => ⟨trivial, phaseStep_alternates_iff hclock hstep halt⟩) trivial hq
  constructor
  · intro hphase
    rw [← hiff]
    intro c hc
    by_contra hafter
    obtain ⟨k, hk, hout⟩ := exists_out_of_turn hclock hafter
    obtain ⟨ds, q'', hds, heven, d, hd, hdout⟩ := exists_success_out_of_turn hclock hk hout
    exact hdout ((hphase c hc).2 ds q'' hds heven d hd)
  · intro heven c hc
    refine ⟨successInPhase_of_evenTraffic hclock h hq heven c hc, fun ds q'' hds hdeven => ?_⟩
    exact successInPhase_of_evenTraffic hclock hds (hiff.mpr heven c hc) hdeven

/-- A write of which the chip takes only a part. -/
def shortAttempt : FifoAttempt := ⟨100, none, []⟩

/-- A read that brings two full packets and runs into its timeout. -/
def partialAttempt : FifoAttempt :=
  ⟨512, none, [⟨[.last 62, .last 62], none⟩, ⟨[], some .etimedout⟩]⟩

lemma phaseStep_partialAttempt (clockBuf : ℕ → Byte) (q : Fifo) :
    phaseStep clockBuf q (.attempt partialAttempt) =
      some (none, (q ++ (List.range infnoiseBuflen).map clockBuf).drop 124) := by
  set s := q ++ (List.range infnoiseBuflen).map clockBuf with hs
  have hlen : 512 ≤ s.length := by
    rw [hs, List.length_append, List.length_map, List.length_range]
    exact Nat.le_add_left _ _
  have hread : readQueue 0 s partialAttempt.reads = some (s.take 124, s.drop 124) := by
    have hsize : FifoRead.size ⟨[.last 62, .last 62], none⟩ = 124 := by decide
    have hbytes : (packetBytes s [.last 62, .last 62]).length = 128 :=
      packetBytes_length ((by decide : _ ≤ 512).trans hlen)
    have hnone : FifoRead.size ⟨[], some .etimedout⟩ = 0 := rfl
    rw [partialAttempt, readQueue, hsize, hbytes, if_pos (by decide),
      if_neg (by omega), if_neg (by decide), readQueue, if_pos (by decide), hnone,
      if_neg (Nat.not_lt_zero _), if_pos (by decide), Option.map_some, List.drop_zero]
    dsimp only
    rw [List.append_nil]
  have hshort : ¬ infnoiseBuflen ≤ (s.take 124).length := by
    rw [List.length_take]
    simp only [infnoiseBuflen]
    omega
  rw [phaseStep, fifoAttempt, if_neg (by decide), if_neg (by decide)]
  change Option.map _ (readQueue 0 s partialAttempt.reads) = _
  rw [hread, Option.map_some]
  dsimp only
  rw [if_neg fun h => hshort h.2]

/-- A recovery in which every control request is carried out. -/
def purge : RecoveryScript := ⟨fun _ => none, none, fun _ => none⟩

/-- A short write and a partial read fail, and the attempt after them hands over what they leave
queued; the next attempt comes after a recovery. -/
theorem attempts_inPhase_retries :
    ∃ cs q', Run (phaseStep (infnoisePrepareClockBuffer fun _ => 0)) [] cs q' ∧
      cs.map Call.input = [.testTransfer 62 62, .attempt shortAttempt, .attempt partialAttempt,
        .attempt (plainAttempt 16 23), .recovery purge, .attempt (plainAttempt 16 23)] ∧
      cs.map (fun c => (c.before.length, c.output.isSome)) =
        [(0, false), (0, false), (100, false), (488, true), (488, false), (0, true)] ∧
      ∀ c ∈ cs, SuccessInPhase (infnoisePrepareClockBuffer fun _ => 0) c := by
  have htest : phaseStep (infnoisePrepareClockBuffer fun _ => 0) [] (.testTransfer 62 62) =
      some (none, []) := by decide +kernel
  have hshort : ∀ q, phaseStep (infnoisePrepareClockBuffer fun _ => 0) q (.attempt shortAttempt) =
      some (none, q ++ (List.range 100).map (infnoisePrepareClockBuffer fun _ => 0)) :=
    fun _ => rfl
  have hpurge : ∀ q, phaseStep (infnoisePrepareClockBuffer fun _ => 0) q (.recovery purge) =
      some (none, []) := fun _ => rfl
  have hrun := Run.cons htest <| .cons (hshort _) <| .cons (phaseStep_partialAttempt _ _) <|
    .cons (phaseStep_plainAttempt _ _) <| .cons (hpurge _) <|
    .single (phaseStep_plainAttempt _ [])
  refine ⟨_, _, hrun, rfl, ?_, ?_⟩
  · simp
  · intro c hc
    refine ((attempts_inPhase_iff_evenTraffic hrun alternates_nil).mpr ?_ c hc).1
    simp only [List.forall_mem_cons]
    exact ⟨.inl rfl, .inr (by decide), .inr (by decide), .inr (by decide), trivial,
      .inr (by decide), fun c hc => by cases hc⟩

lemma plainAttempt_stale :
    ∃ r, phaseStep (infnoisePrepareClockBuffer fun _ => 0) [0, 0]
        (.attempt (plainAttempt 18 22)) = some r ∧
      (r.1.any fun samples => samples[0]? == some 0) = true :=
  (Option.any_eq_true _ _).mp (by decide +kernel)

/-- The test transfer as the driver makes it writes 64 bytes and reads one packet of at most 62
samples back. The two samples that stay queued are the first the next attempt hands over, and no
clock byte of either phase produced them. -/
theorem attempts_outOfPhase_testTransfer :
    ∃ cs q', Run (phaseStep (infnoisePrepareClockBuffer fun _ => 0)) [] cs q' ∧
      cs.map Call.input = [.testTransfer 64 62, .attempt (plainAttempt 18 22)] ∧
      ∃ c ∈ cs, ∃ samples, c.output = some samples ∧ samples[0]? = some 0 ∧
        ¬ InPhase (infnoisePrepareClockBuffer fun _ => 0) samples := by
  have htest : phaseStep (infnoisePrepareClockBuffer fun _ => 0) [] (.testTransfer 64 62) =
      some (none, [0, 0]) := by decide +kernel
  obtain ⟨⟨out, q'⟩, hattempt, hout⟩ := plainAttempt_stale
  obtain ⟨samples, rfl, hhead⟩ := (Option.any_eq_true _ _).mp hout
  have hzero : samples[0]? = some 0 := by simpa using hhead
  refine ⟨_, _, (Run.single htest).append (Run.single hattempt), rfl, _,
    List.mem_append_right _ (List.mem_singleton_self _), samples, rfl, hzero, ?_⟩
  intro hphase
  have hfirst := hphase 0 (by decide)
  rw [hzero, infnoisePrepareClockBuffer_eq _ (by decide)] at hfirst
  exact absurd hfirst (by decide)

end Kernel
