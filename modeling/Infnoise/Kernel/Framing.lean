import Infnoise.Kernel.Usb

/-!
# FTDI framing

The chip puts two status bytes before the payload of every packet. The stripper takes packets to
start at the multiples of 64, which is where they start exactly when every packet before the
last samples is full.
-/

namespace Kernel

open Core

variable {α β : Type*}

/-! ### The stripper -/

/-- Where the stripper looks for sample `k` in `usb_buf`. -/
def sampleIndex (k : ℕ) : ℕ := 64 * (k / 62) + 2 + k % 62

lemma sampleIndex_of_add {i j : ℕ} (hj : j < 62) : sampleIndex (62 * i + j) = 64 * i + 2 + j := by
  have hdiv : (62 * i + j) / 62 = i := by omega
  have hmod : (62 * i + j) % 62 = j := by omega
  rw [sampleIndex, hdiv, hmod]

/-- How many samples the stripper finds in `usb_bytes` bytes. -/
def strippedSize (usbBytes : ℕ) : ℕ := min 512 (62 * (usbBytes / 64) + (usbBytes % 64 - 2))

/-- Copying the start of packet `n` behind the samples of the packets before it. -/
lemma memcpy_samples (usbBuf readBuf : ℕ → α) {n d len : ℕ} (hd : len = 0 ∨ d = 62 * n)
    (hlen : len ≤ 62) :
    memcpy (fun k => if k < d then usbBuf (sampleIndex k) else readBuf k) d
        (fun k => usbBuf (n * ftdiPacketSize + ftdiStatusSize + k)) len =
      fun k => if k < d + len then usbBuf (sampleIndex k) else readBuf k := by
  funext k
  simp only [memcpy, ftdiPacketSize, ftdiStatusSize]
  by_cases hk : d ≤ k ∧ k < d + len
  · have hidx : sampleIndex k = n * 64 + 2 + (k - d) := by
      rw [show k = 62 * n + (k - d) by omega, sampleIndex_of_add (by omega)]
      omega
    rw [if_pos hk, if_pos hk.2, hidx]
  · rw [if_neg hk]
    by_cases hk' : k < d
    · rw [if_pos hk', if_pos (by omega)]
    · rw [if_neg hk', if_neg (by omega)]

/-- The loop over whole packets: after `n` of them the first `62 * n` samples are in place. -/
lemma stripPackets_eq (usbBuf readBuf : ℕ → α) (n : ℕ) :
    forLoop n (fun i (s : ℕ × (ℕ → α)) =>
      if min ftdiDataPerPacket (infnoiseBuflen - s.1) > 0 then
        (s.1 + min ftdiDataPerPacket (infnoiseBuflen - s.1),
          memcpy s.2 s.1 (fun k => usbBuf (i * ftdiPacketSize + ftdiStatusSize + k))
            (min ftdiDataPerPacket (infnoiseBuflen - s.1)))
      else (s.1, s.2)) (0, readBuf) =
    (min 512 (62 * n), fun k => if k < min 512 (62 * n) then usbBuf (sampleIndex k)
      else readBuf k) := by
  induction n with
  | zero => simp
  | succ n ih =>
    have hnext : min 512 (62 * n) + min ftdiDataPerPacket (infnoiseBuflen - min 512 (62 * n)) =
        min 512 (62 * (n + 1)) := by
      simp only [ftdiDataPerPacket, ftdiPacketSize, ftdiStatusSize, infnoiseBuflen]
      omega
    rw [forLoop_succ, ih]
    dsimp only
    rw [memcpy_samples usbBuf readBuf, hnext]
    · split
      · rfl
      · rename_i hpos
        rw [show min 512 (62 * (n + 1)) = min 512 (62 * n) by omega]
    · simp only [infnoiseBuflen]
      omega
    · exact min_le_left _ _

/-- What the stripper returns and leaves in `read_buf`, for any number of bytes. -/
lemma infnoiseStripFtdiStatus_eq (usbBuf readBuf : ℕ → α) (usbBytes : ℕ) :
    infnoiseStripFtdiStatus usbBuf readBuf usbBytes =
      (strippedSize usbBytes, fun k =>
        if k < strippedSize usbBytes then usbBuf (sampleIndex k) else readBuf k) := by
  have hloop := stripPackets_eq usbBuf readBuf (usbBytes / ftdiPacketSize)
  simp only [infnoiseStripFtdiStatus, hloop]
  rw [memcpy_samples usbBuf readBuf]
  · split
    · rename_i hpart
      have hsize : strippedSize usbBytes = min 512 (62 * (usbBytes / ftdiPacketSize)) +
          min (usbBytes % ftdiPacketSize - ftdiStatusSize)
            (infnoiseBuflen - min 512 (62 * (usbBytes / ftdiPacketSize))) := by
        simp only [strippedSize, infnoiseBuflen, ftdiPacketSize, ftdiStatusSize]
        omega
      rw [hsize]
    · rename_i hpart
      have hsize : strippedSize usbBytes = min 512 (62 * (usbBytes / ftdiPacketSize)) := by
        simp only [strippedSize, infnoiseBuflen, ftdiPacketSize, ftdiStatusSize] at hpart ⊢
        omega
      rw [hsize]
  · simp only [infnoiseBuflen, ftdiPacketSize]
    omega
  · simp only [ftdiPacketSize, ftdiStatusSize]
    omega

/-! ### Packets -/

/-- An FTDI packet: two status bytes and at most 62 payload bytes. -/
structure Packet where
  status : Byte × Byte
  payload : List Byte
  payload_le : payload.length ≤ 62

/-- A completion made of whole packets, in which a packet shorter than 64 bytes is the last. -/
structure Completion where
  packets : List Packet
  full : ∀ p ∈ packets.dropLast, p.payload.length = 62

def Packet.bytes (p : Packet) : List Byte := [p.status.1, p.status.2] ++ p.payload

def Completion.bytes (c : Completion) : List Byte := c.packets.flatMap Packet.bytes

/-- The payload of a list of packets, in the order received. -/
def payload (packets : List Packet) : List Byte := packets.flatMap Packet.payload

/-- The bulk-in results of the completions. -/
def bulkIns (completions : List (Except Errno Completion)) : List (BulkIn Byte) :=
  completions.map (Except.map Completion.bytes)

/-- No completion is longer than what the driver asks for when it has `totalRead` bytes. -/
def WithinRequest : ℕ → List (Except Errno Completion) → Prop
  | totalRead, .ok c :: rest =>
    totalRead < infnoiseUsbReadSize →
      c.bytes.length ≤ infnoiseUsbReadSize - totalRead ∧
        WithinRequest (totalRead + c.bytes.length) rest
  | _, _ => True

/-- The packets the read loop takes when it has `totalRead` bytes. -/
def received : ℕ → List (Except Errno Completion) → List Packet
  | totalRead, .ok c :: rest =>
    if totalRead < infnoiseUsbReadSize then
      c.packets ++ received (totalRead + c.bytes.length) rest
    else []
  | _, _ => []

/-- The packets that carry samples are full: the first eight have 62 payload bytes, and the
ninth has the sixteen that are still wanted. -/
def FullPackets (packets : List Packet) : Prop :=
  ∀ i p, packets[i]? = some p →
    (i < 8 → p.payload.length = 62) ∧ (i = 8 → 16 ≤ p.payload.length)

/-! ### Where a sample comes from -/

/-- The origin of a received byte: a status byte, or the `k`-th payload byte. -/
inductive Origin where
  | status
  | payload (k : ℕ)
  deriving DecidableEq

/-- The bytes of a packet with their origins, when `k` payload bytes came before. -/
def Packet.origins (k : ℕ) (p : Packet) : List (Byte × Origin) :=
  [(p.status.1, .status), (p.status.2, .status)] ++
    p.payload.mapIdx fun i b => (b, .payload (k + i))

def origins : ℕ → List Packet → List (Byte × Origin)
  | _, [] => []
  | k, p :: ps => p.origins k ++ origins (k + p.payload.length) ps

/-- The completions with the origin of every byte. -/
def originBulkIns : ℕ → List (Except Errno Completion) → List (BulkIn (Byte × Origin))
  | _, [] => []
  | k, .error e :: rest => .error e :: originBulkIns k rest
  | k, .ok c :: rest =>
    .ok (origins k c.packets) :: originBulkIns (k + (payload c.packets).length) rest

/-- What an attempt receives from the completions, every byte with its origin. -/
def receiveOrigins (write : Except Errno ℕ) (completions : List (Except Errno Completion))
    (usbBuf readBuf : ℕ → Byte) : Option Errno × (ℕ → Byte × Origin) × (ℕ → Byte × Origin) :=
  receiveSamples write (originBulkIns 0 completions) (fun i => (usbBuf i, .status))
    (fun i => (readBuf i, .status))

/-- `read_buf` holds exactly the first 512 payload bytes in the order received: sample `k` has
the value of payload byte `k`, and is that byte. -/
def SamplesExact (write : Except Errno ℕ) (completions : List (Except Errno Completion))
    (usbBuf readBuf : ℕ → Byte) : Prop :=
  ∀ k < infnoiseBuflen,
    (payload (received 0 completions))[k]? =
        some ((receiveSamples write (bulkIns completions) usbBuf readBuf).2.2 k) ∧
      ((receiveOrigins write completions usbBuf readBuf).2.2 k).2 = .payload k

/-! ### The code does not look at the bytes it moves -/

lemma memcpyList_map (f : α → β) (dst : ℕ → α) (off : ℕ) (src : List α) :
    memcpyList (f ∘ dst) off (src.map f) = f ∘ memcpyList dst off src := by
  funext i
  simp only [memcpyList, Function.comp_apply, List.getElem?_map]
  split
  · exact (Option.getD_map f (dst i) _)
  · rfl

lemma readLoop_map (f : α → β) (cs : List (BulkIn α)) (usbBuf : ℕ → α) (totalRead : ℕ) :
    readLoop (cs.map (Except.map (List.map f))) (f ∘ usbBuf) totalRead =
      ((readLoop cs usbBuf totalRead).1, f ∘ (readLoop cs usbBuf totalRead).2) := by
  induction cs generalizing usbBuf totalRead with
  | nil =>
    simp only [List.map_nil, readLoop]
    split <;> rfl
  | cons c cs ih =>
    simp only [List.map_cons, readLoop]
    split
    · rcases c with e | (_ | ⟨b, bytes⟩)
      · rfl
      · rfl
      · have := ih (memcpyList usbBuf totalRead (b :: bytes)) (totalRead + (b :: bytes).length)
        rw [← memcpyList_map] at this
        simpa only [Except.map, List.map_cons, List.length_cons, List.length_map] using this
    · rfl

lemma receiveSamples_map (f : α → β) (write : Except Errno ℕ) (reads : List (BulkIn α))
    (usbBuf readBuf : ℕ → α) :
    receiveSamples write (reads.map (Except.map (List.map f))) (f ∘ usbBuf) (f ∘ readBuf) =
      ((receiveSamples write reads usbBuf readBuf).1,
        f ∘ (receiveSamples write reads usbBuf readBuf).2.1,
        f ∘ (receiveSamples write reads usbBuf readBuf).2.2) := by
  rcases write with e | actual
  · rfl
  · simp only [receiveSamples, readLoop_map, infnoiseStripFtdiStatus_eq]
    split
    · rfl
    · rcases readLoop reads usbBuf 0 with ⟨e | totalRead, buf⟩
      · rfl
      · have hbuf : (fun k => if k < strippedSize totalRead then (f ∘ buf) (sampleIndex k)
            else (f ∘ readBuf) k) = f ∘ fun k =>
              if k < strippedSize totalRead then buf (sampleIndex k) else readBuf k := by
          funext k
          simp only [Function.comp_apply, apply_ite f]
        simp only [hbuf]
        split <;> rfl

/-! ### What the read loop puts together -/

lemma Packet.origins_length (k : ℕ) (p : Packet) :
    (p.origins k).length = 2 + p.payload.length := by
  simp only [Packet.origins, List.length_append, List.length_cons, List.length_nil,
    List.length_mapIdx]

lemma Packet.origins_map_fst (k : ℕ) (p : Packet) : (p.origins k).map Prod.fst = p.bytes := by
  simp only [Packet.origins, Packet.bytes, List.map_append, List.map_cons, List.map_nil]
  congr 1
  apply List.ext_getElem?
  intro i
  simp [Option.map_map, Function.comp_def]

lemma origins_map_fst (k : ℕ) (ps : List Packet) :
    (origins k ps).map Prod.fst = ps.flatMap Packet.bytes := by
  induction ps generalizing k with
  | nil => rfl
  | cons p ps ih =>
    rw [origins, List.map_append, Packet.origins_map_fst, ih, List.flatMap_cons]

lemma origins_append (k : ℕ) (ps qs : List Packet) :
    origins k (ps ++ qs) = origins k ps ++ origins (k + (payload ps).length) qs := by
  induction ps generalizing k with
  | nil => rfl
  | cons p ps ih =>
    simp only [List.cons_append, origins, ih, List.append_assoc, payload, List.flatMap_cons,
      List.length_append, Nat.add_assoc]

lemma originBulkIns_map_fst (k : ℕ) (completions : List (Except Errno Completion)) :
    (originBulkIns k completions).map (Except.map (List.map Prod.fst)) = bulkIns completions := by
  induction completions generalizing k with
  | nil => rfl
  | cons c cs ih =>
    rcases c with e | c
    · simp only [originBulkIns, bulkIns, List.map_cons, ih]
      rfl
    · simp only [originBulkIns, bulkIns, List.map_cons, ih]
      rw [Except.map, origins_map_fst]
      rfl

/-- The bytes the driver works with are those of the run with origins. -/
lemma receiveSamples_eq (write : Except Errno ℕ) (completions : List (Except Errno Completion))
    (usbBuf readBuf : ℕ → Byte) :
    receiveSamples write (bulkIns completions) usbBuf readBuf =
      ((receiveOrigins write completions usbBuf readBuf).1,
        Prod.fst ∘ (receiveOrigins write completions usbBuf readBuf).2.1,
        Prod.fst ∘ (receiveOrigins write completions usbBuf readBuf).2.2) := by
  rw [← originBulkIns_map_fst 0 completions, receiveOrigins, ← receiveSamples_map]
  rfl

/-- When the loop ends well, it has put the received packets one behind the other, and has as
many bytes as it wanted. -/
lemma readLoop_origins {k totalRead total : ℕ} {completions : List (Except Errno Completion)}
    {usbBuf usbBuf' : ℕ → Byte × Origin} (hreq : WithinRequest totalRead completions)
    (hle : totalRead ≤ infnoiseUsbReadSize)
    (h : readLoop (originBulkIns k completions) usbBuf totalRead = (.ok total, usbBuf')) :
    usbBuf' = memcpyList usbBuf totalRead (origins k (received totalRead completions)) ∧
      total = totalRead + (origins k (received totalRead completions)).length ∧
      total = infnoiseUsbReadSize := by
  induction completions generalizing k totalRead usbBuf with
  | nil =>
    simp only [originBulkIns, readLoop] at h
    split at h
    · simp at h
    · cases h
      refine ⟨?_, ?_, by omega⟩
      · funext i
        simp [received, origins, memcpyList]
      · simp [received, origins]
  | cons c cs ih =>
    rcases c with e | c
    · simp only [originBulkIns, readLoop] at h
      split at h
      · simp at h
      · cases h
        refine ⟨?_, ?_, by omega⟩
        · funext i
          simp [received, origins, memcpyList]
        · simp [received, origins]
    · simp only [originBulkIns, readLoop] at h
      simp only [received]
      split at h
      · rename_i hlt
        obtain ⟨hlen, hreq'⟩ := hreq hlt
        have hbytes : (origins k c.packets).length = c.bytes.length := by
          rw [Completion.bytes, ← origins_map_fst k, List.length_map]
        rw [if_pos hlt]
        rcases hcase : origins k c.packets with _ | ⟨b, bytes⟩
        · rw [hcase] at h
          simp at h
        · rw [hcase] at h
          simp only at h
          rw [← hcase, hbytes] at h
          obtain ⟨hbuf, htotal, hsize⟩ := ih hreq' (by omega) h
          refine ⟨?_, ?_, hsize⟩
          · rw [hbuf, origins_append, ← memcpyList_append, hbytes]
          · rw [htotal, origins_append, List.length_append, hbytes, Nat.add_assoc]
      · rename_i hlt
        cases h
        rw [if_neg hlt]
        refine ⟨?_, ?_, by omega⟩
        · funext i
          simp [origins, memcpyList]
        · simp [origins]

/-- An attempt that reaches the extraction has received 576 bytes, and sample `k` is the byte at
the place where the stripper looks for it. -/
lemma receiveOrigins_eq {write : Except Errno ℕ} {completions : List (Except Errno Completion)}
    {usbBuf readBuf : ℕ → Byte} (hreq : WithinRequest 0 completions)
    (hreach : (receiveSamples write (bulkIns completions) usbBuf readBuf).1 = none) :
    (origins 0 (received 0 completions)).length = 576 ∧
      ∀ k < 512, (origins 0 (received 0 completions))[sampleIndex k]? =
        some ((receiveOrigins write completions usbBuf readBuf).2.2 k) := by
  rw [receiveSamples_eq] at hreach
  simp only [receiveOrigins, receiveSamples] at hreach ⊢
  rcases write with e | actual
  · simp at hreach
  · simp only at hreach ⊢
    split
    · rename_i hshort
      rw [if_pos hshort] at hreach
      simp at hreach
    · rename_i hshort
      rw [if_neg hshort] at hreach
      rcases hloop : readLoop (originBulkIns 0 completions) (fun i => (usbBuf i, Origin.status)) 0
        with ⟨e | total, buf⟩
      · simp [hloop] at hreach
      · obtain ⟨hbuf, htotal, hsize⟩ := readLoop_origins hreq (Nat.zero_le _) hloop
        have h576 : total = 576 := hsize
        subst h576
        rw [Nat.zero_add] at htotal
        refine ⟨htotal.symm, fun k hk => ?_⟩
        have hstrip : strippedSize 576 = 512 := rfl
        have hidx : sampleIndex k < 576 := by
          simp only [sampleIndex]
          omega
        simp only [infnoiseStripFtdiStatus_eq, hstrip, infnoiseBuflen, lt_irrefl, if_false,
          if_pos hk, hbuf, memcpyList, Nat.zero_le, if_true, Nat.sub_zero]
        rw [List.getElem?_eq_getElem (by omega), Option.getD_some]

/-! ### Alignment -/

lemma Packet.origins_getElem? (k : ℕ) (p : Packet) (j : ℕ) :
    (p.origins k)[2 + j]? = p.payload[j]?.map fun b => (b, .payload (k + j)) := by
  rw [Packet.origins, List.getElem?_append_right (by simp)]
  simp [List.getElem?_mapIdx]

/-- A byte that claims to be payload byte `j` is payload byte `j`. -/
lemma origins_payload {k i j : ℕ} {b : Byte} {ps : List Packet}
    (h : (origins k ps)[i]? = some (b, .payload j)) :
    k ≤ j ∧ (payload ps)[j - k]? = some b := by
  induction ps generalizing k i with
  | nil => simp [origins] at h
  | cons p ps ih =>
    rw [origins] at h
    by_cases hi : i < (p.origins k).length
    · rw [List.getElem?_append_left hi] at h
      rw [Packet.origins_length] at hi
      match i with
      | 0 => simp [Packet.origins] at h
      | 1 => simp [Packet.origins] at h
      | i + 2 =>
        rw [Nat.add_comm i 2, Packet.origins_getElem?, Option.map_eq_some_iff] at h
        obtain ⟨b', hb', heq⟩ := h
        rw [Prod.mk.injEq, Origin.payload.injEq] at heq
        obtain ⟨rfl, rfl⟩ := heq
        refine ⟨Nat.le_add_right k i, ?_⟩
        rw [payload, List.flatMap_cons, List.getElem?_append_left (by omega),
          Nat.add_sub_cancel_left, hb']
    · rw [List.getElem?_append_right (by omega)] at h
      obtain ⟨hkj, hb⟩ := ih h
      refine ⟨by omega, ?_⟩
      rw [payload, List.flatMap_cons, List.getElem?_append_right (by omega), ← Nat.sub_add_eq]
      exact hb

/-- The payload of the first packet, where its full length lets the stripper find it. -/
lemma origins_cons_payload (k : ℕ) (p : Packet) (ps : List Packet) {j : ℕ}
    (hj : j < p.payload.length) :
    ∃ b, (origins k (p :: ps))[2 + j]? = some (b, .payload (k + j)) := by
  rw [origins, List.getElem?_append_left (by rw [Packet.origins_length]; omega),
    Packet.origins_getElem?, List.getElem?_eq_getElem hj]
  exact ⟨_, rfl⟩

/-- Behind a packet comes a status byte, or nothing. -/
lemma origins_cons_behind (k j : ℕ) (p : Packet) (ps : List Packet) (b : Byte) :
    (origins k (p :: ps))[2 + p.payload.length]? ≠ some (b, .payload j) := by
  rw [origins, List.getElem?_append_right (by rw [Packet.origins_length]),
    Packet.origins_length, Nat.sub_self]
  rcases ps with _ | ⟨q, ps⟩
  · simp [origins]
  · simp [origins, Packet.origins]

/-- Every sample from the `i`-th packet on is the payload byte it should be. -/
def Aligned (i : ℕ) (ps : List Packet) : Prop :=
  ∀ k, 62 * i + k < 512 →
    ∃ b, (origins (62 * i) ps)[sampleIndex k]? = some (b, .payload (62 * i + k))

lemma sampleIndex_of_lt {k : ℕ} (hk : k < 62) : sampleIndex k = 2 + k := by
  simpa using sampleIndex_of_add (i := 0) hk

/-- A full packet passes the alignment on to the next one. -/
lemma aligned_cons {i : ℕ} {p : Packet} {ps : List Packet} (hfull : p.payload.length = 62) :
    Aligned i (p :: ps) ↔ Aligned (i + 1) ps := by
  have hrest : ∀ k, (origins (62 * i) (p :: ps))[sampleIndex (62 + k)]? =
      (origins (62 * (i + 1)) ps)[sampleIndex k]? := by
    intro k
    have hshift : sampleIndex (62 + k) = 64 + sampleIndex k := by
      simp only [sampleIndex]
      omega
    rw [origins, List.getElem?_append_right (by rw [Packet.origins_length]; omega),
      Packet.origins_length, hfull, hshift, Nat.add_sub_cancel_left,
      show 62 * i + 62 = 62 * (i + 1) by omega]
  constructor
  · intro h k hk
    have := h (62 + k) (by omega)
    rw [hrest, show 62 * i + (62 + k) = 62 * (i + 1) + k by omega] at this
    exact this
  · intro h k hk
    rcases Nat.lt_or_ge k 62 with hk62 | hk62
    · rw [sampleIndex_of_lt hk62]
      exact origins_cons_payload _ p ps (by omega)
    · have := h (k - 62) (by omega)
      rw [← hrest, show 62 + (k - 62) = k by omega,
        show 62 * (i + 1) + (k - 62) = 62 * i + k by omega] at this
      exact this

/-- If the packets from the `i`-th on have the bytes that are still wanted, the stripper finds
the samples that are still wanted exactly when these packets are full. -/
lemma aligned_iff {i : ℕ} (hi : i ≤ 8) {ps : List Packet}
    (hlen : (origins (62 * i) ps).length = 576 - 64 * i) :
    Aligned i ps ↔ ∀ j p, ps[j]? = some p →
      (i + j < 8 → p.payload.length = 62) ∧ (i + j = 8 → 16 ≤ p.payload.length) := by
  induction ps generalizing i with
  | nil =>
    simp only [origins, List.length_nil] at hlen
    omega
  | cons p ps ih =>
    have hle := p.payload_le
    -- a packet that is too short puts a status byte where a sample should be
    have hshort : Aligned i (p :: ps) → 62 * i + p.payload.length < 512 →
        p.payload.length = 62 := by
      intro h hlt
      by_contra hne
      obtain ⟨b, hb⟩ := h p.payload.length hlt
      rw [sampleIndex_of_lt (by omega)] at hb
      exact origins_cons_behind _ _ p ps b hb
    rcases Nat.lt_or_ge i 8 with hi8 | hi8
    · constructor
      · intro h
        have hfull := hshort h (by omega)
        have hrest := (ih (i := i + 1) (by omega) (by
          rw [origins, List.length_append, Packet.origins_length, hfull,
            show 62 * i + 62 = 62 * (i + 1) by omega] at hlen
          omega)).mp ((aligned_cons hfull).mp h)
        rintro (_ | j) q hq
        · cases hq
          exact ⟨fun _ => hfull, fun _ => by omega⟩
        · rw [show i + (j + 1) = i + 1 + j by omega]
          exact hrest j q hq
      · intro h
        have hfull := (h 0 p rfl).1 hi8
        rw [aligned_cons hfull, ih (by omega) (by
          rw [origins, List.length_append, Packet.origins_length, hfull,
            show 62 * i + 62 = 62 * (i + 1) by omega] at hlen
          omega)]
        intro j q hq
        rw [show i + 1 + j = i + (j + 1) by omega]
        exact h (j + 1) q hq
    · obtain rfl : i = 8 := by omega
      constructor
      · rintro h (_ | j) q hq
        · cases hq
          refine ⟨fun hlt => absurd hlt (by omega), fun _ => ?_⟩
          by_contra hlt
          have := hshort h (by omega)
          omega
        · exact ⟨fun hlt => absurd hlt (by omega), fun heq => absurd heq (by omega)⟩
      · intro h k hk
        have hlong := (h 0 p rfl).2 rfl
        rw [sampleIndex_of_lt (by omega)]
        exact origins_cons_payload _ p ps (by omega)

/-- For every sequence of completions within the driver's requests with which an attempt reaches
the extraction: the samples are the first 512 payload bytes in order, none of them a status
byte, exactly when the packets that carry them are full. -/
theorem samplesExact_iff {write : Except Errno ℕ} {completions : List (Except Errno Completion)}
    {usbBuf readBuf : ℕ → Byte} (hreq : WithinRequest 0 completions)
    (hreach : (receiveSamples write (bulkIns completions) usbBuf readBuf).1 = none) :
    SamplesExact write completions usbBuf readBuf ↔ FullPackets (received 0 completions) := by
  obtain ⟨hlen, hsample⟩ := receiveOrigins_eq hreq hreach
  have halign := aligned_iff (i := 0) (Nat.zero_le 8) hlen
  simp only [Aligned, Nat.mul_zero, Nat.zero_add] at halign
  rw [FullPackets, ← halign]
  constructor
  · intro h k hk
    refine ⟨((receiveOrigins write completions usbBuf readBuf).2.2 k).1, ?_⟩
    rw [hsample k hk, ← (h k hk).2]
  · intro h k hk
    obtain ⟨b, hb⟩ := h k hk
    have hval := origins_payload hb
    rw [hsample k hk, Option.some.injEq] at hb
    rw [receiveSamples_eq]
    refine ⟨?_, by rw [hb]⟩
    simp only [Function.comp_apply, hb]
    simpa using hval.2

/-- A packet with `n` payload bytes. -/
def Packet.zeros (n : Fin 63) : Packet where
  status := (1, 96)
  payload := .replicate n 0
  payload_le := by
    rw [List.length_replicate]
    omega

/-- One completion of nine full packets. -/
def fullCompletions : List (Except Errno Completion) :=
  [.ok ⟨.replicate 9 (.zeros 62), by decide⟩]

theorem samplesExact_fullCompletions :
    SamplesExact (.ok 512) fullCompletions (fun _ => 0) (fun _ => 0) :=
  (samplesExact_iff
    (by simp only [fullCompletions, WithinRequest]; decide +kernel) (by decide +kernel)).mpr
    (fun i p h => by
      have hp : p ∈ List.replicate 9 (Packet.zeros 62) := List.mem_of_getElem? h
      rw [List.eq_of_mem_replicate hp]
      exact ⟨fun _ => rfl, fun _ => by decide⟩)

/-- A completion of one packet with 60 payload bytes, then one of eight full packets and a packet
without payload: 576 bytes in all. -/
def shortCompletions : List (Except Errno Completion) :=
  [.ok ⟨[.zeros 60], by decide⟩,
    .ok ⟨.replicate 8 (.zeros 62) ++ [.zeros 0], by decide⟩]

/-- After a short packet the driver takes a status byte for sample 60. -/
theorem samplesExact_shortCompletions :
    WithinRequest 0 shortCompletions ∧
      (receiveSamples (.ok 512) (bulkIns shortCompletions) (fun _ => 0) (fun _ => 0)).1 = none ∧
      (receiveSamples (.ok 512) (bulkIns shortCompletions) (fun _ => 0) (fun _ => 0)).2.2 60 = 1 ∧
      ((receiveOrigins (.ok 512) shortCompletions (fun _ => 0) (fun _ => 0)).2.2 60).2 = .status ∧
      ¬ SamplesExact (.ok 512) shortCompletions (fun _ => 0) (fun _ => 0) := by
  have hstatus : ((receiveOrigins (.ok 512) shortCompletions (fun _ => 0)
      (fun _ => 0)).2.2 60).2 = .status := by decide +kernel
  refine ⟨by simp only [shortCompletions, WithinRequest]; decide +kernel, by decide +kernel,
    by decide +kernel, hstatus, ?_⟩
  intro h
  have horigin := (h 60 (by decide)).2
  rw [hstatus] at horigin
  exact absurd horigin (by decide)

end Kernel
