import Infnoise.Kernel.Framing

/-!
# Stripping undoes the framing

The stripper touches the buffers only through `memcpy`. Its calls of `memcpy` are listed here in
the order in which it makes them, so that what it reads can be stated apart from what it returns.
-/

namespace Kernel

open Core

variable {α : Type*}

/-! ### The copies of the stripper -/

/-- A call of `memcpy` that moves `len` bytes from `usb_buf + src` to `read_buf + dst`. -/
structure Copy where
  dst : ℕ
  src : ℕ
  len : ℕ
  deriving DecidableEq, Repr

def Copy.run (usbBuf readBuf : ℕ → α) (c : Copy) : ℕ → α :=
  memcpy readBuf c.dst (fun k => usbBuf (c.src + k)) c.len

/-- The copy of whole packet `i`, behind those that are already made. -/
def stripPacket (i : ℕ) (s : ℕ × List Copy) : ℕ × List Copy :=
  let (dataBytes, copies) := s
  let copyLen := min ftdiDataPerPacket (infnoiseBuflen - dataBytes)
  if copyLen > 0 then
    (dataBytes + copyLen, copies ++ [⟨dataBytes, i * ftdiPacketSize + ftdiStatusSize, copyLen⟩])
  else (dataBytes, copies)

/-- What `infnoise_strip_ftdi_status` counts, and the copies that it makes. -/
def stripCopies (usbBytes : ℕ) : ℕ × List Copy :=
  let packets := usbBytes / ftdiPacketSize
  let leftover := usbBytes % ftdiPacketSize
  let (dataBytes, copies) := forLoop packets stripPacket (0, [])
  if leftover > ftdiStatusSize ∧ dataBytes < infnoiseBuflen then
    let copyLen := min (leftover - ftdiStatusSize) (infnoiseBuflen - dataBytes)
    (dataBytes + copyLen,
      copies ++ [⟨dataBytes, packets * ftdiPacketSize + ftdiStatusSize, copyLen⟩])
  else (dataBytes, copies)

/-- The loop of the stripper is the loop of its copies. -/
lemma stripPackets_copies (usbBuf readBuf : ℕ → α) (n : ℕ) :
    forLoop n (fun i (s : ℕ × (ℕ → α)) =>
      if min ftdiDataPerPacket (infnoiseBuflen - s.1) > 0 then
        (s.1 + min ftdiDataPerPacket (infnoiseBuflen - s.1),
          memcpy s.2 s.1 (fun k => usbBuf (i * ftdiPacketSize + ftdiStatusSize + k))
            (min ftdiDataPerPacket (infnoiseBuflen - s.1)))
      else (s.1, s.2)) (0, readBuf) =
    ((forLoop n stripPacket (0, [])).1,
      (forLoop n stripPacket (0, [])).2.foldl (Copy.run usbBuf) readBuf) := by
  induction n with
  | zero => rfl
  | succ n ih =>
    rw [forLoop_succ, ih, forLoop_succ]
    simp only [stripPacket]
    split
    · rw [List.foldl_append]
      rfl
    · rfl

/-- The stripper does nothing else to the buffers than the copies of the list. -/
lemma infnoiseStripFtdiStatus_copies (usbBuf readBuf : ℕ → α) (usbBytes : ℕ) :
    infnoiseStripFtdiStatus usbBuf readBuf usbBytes =
      ((stripCopies usbBytes).1, (stripCopies usbBytes).2.foldl (Copy.run usbBuf) readBuf) := by
  have hloop := stripPackets_copies usbBuf readBuf (usbBytes / ftdiPacketSize)
  simp only [infnoiseStripFtdiStatus, stripCopies, hloop]
  split
  · rw [List.foldl_append]
    rfl
  · rfl

/-! ### Bounds of the copies -/

/-- The copies read below `limit` in `usb_buf`, and write below 512 in `read_buf`. -/
def CopiesWithin (limit : ℕ) (copies : List Copy) : Prop :=
  ∀ c ∈ copies, c.src + c.len ≤ limit ∧ c.dst + c.len ≤ infnoiseBuflen

lemma CopiesWithin.nil (limit : ℕ) : CopiesWithin limit [] := by
  intro c hc
  simp at hc

lemma CopiesWithin.append {m n : ℕ} {copies : List Copy} {c : Copy} (h : CopiesWithin m copies)
    (hmn : m ≤ n) (hsrc : c.src + c.len ≤ n) (hdst : c.dst + c.len ≤ infnoiseBuflen) :
    CopiesWithin n (copies ++ [c]) := by
  intro b hb
  rcases List.mem_append.mp hb with hb | hb
  · exact ⟨(h b hb).1.trans hmn, (h b hb).2⟩
  · rw [List.mem_singleton.mp hb]
    exact ⟨hsrc, hdst⟩

lemma CopiesWithin.mono {m n : ℕ} {copies : List Copy} (h : CopiesWithin m copies) (hmn : m ≤ n) :
    CopiesWithin n copies := by
  intro c hc
  exact ⟨(h c hc).1.trans hmn, (h c hc).2⟩

/-- A packet is copied from its own 64 bytes, and not beyond the 512 that are wanted. -/
lemma stripPacket_within {i : ℕ} {s : ℕ × List Copy} (hdata : s.1 ≤ infnoiseBuflen)
    (h : CopiesWithin (i * ftdiPacketSize) s.2) :
    (stripPacket i s).1 ≤ infnoiseBuflen ∧
      CopiesWithin ((i + 1) * ftdiPacketSize) (stripPacket i s).2 := by
  have hnext : i * ftdiPacketSize ≤ (i + 1) * ftdiPacketSize :=
    Nat.mul_le_mul_right ftdiPacketSize (Nat.le_succ i)
  have hlen : ftdiStatusSize + min ftdiDataPerPacket (infnoiseBuflen - s.1) ≤ ftdiPacketSize :=
    Nat.add_le_of_le_sub' (by decide) (min_le_left _ _)
  have hroom : s.1 + min ftdiDataPerPacket (infnoiseBuflen - s.1) ≤ infnoiseBuflen :=
    Nat.add_le_of_le_sub' hdata (min_le_right _ _)
  rw [stripPacket]
  split
  · refine ⟨hroom, h.append hnext ?_ hroom⟩
    rw [Nat.succ_mul, Nat.add_assoc]
    exact Nat.add_le_add_left hlen _
  · exact ⟨hdata, h.mono hnext⟩

/-- Every copy reads below `usb_bytes`. -/
lemma stripCopies_within (usbBytes : ℕ) : CopiesWithin usbBytes (stripCopies usbBytes).2 := by
  obtain ⟨hdata, hwithin⟩ := forLoop_invariant (n := usbBytes / ftdiPacketSize)
    (s := ((0 : ℕ), ([] : List Copy)))
    (fun i (s : ℕ × List Copy) => s.1 ≤ infnoiseBuflen ∧ CopiesWithin (i * ftdiPacketSize) s.2)
    ⟨Nat.zero_le _, CopiesWithin.nil _⟩ fun i _ s ⟨hdata, h⟩ => stripPacket_within hdata h
  have hparts : usbBytes / ftdiPacketSize * ftdiPacketSize + usbBytes % ftdiPacketSize = usbBytes :=
    Nat.div_add_mod' usbBytes ftdiPacketSize
  simp only [stripCopies]
  split
  · rename_i hpart
    apply hwithin.append (Nat.div_mul_le_self _ _)
    · dsimp only
      omega
    · exact Nat.add_le_of_le_sub' hdata (min_le_right _ _)
  · exact hwithin.mono (Nat.div_mul_le_self _ _)

/-! ### The round trip -/

@[simp] lemma Packet.length_bytes (p : Packet) : p.bytes.length = 2 + p.payload.length := by
  simp only [Packet.bytes, List.length_append, List.length_cons, List.length_nil]

lemma Packet.bytes_getElem? (p : Packet) (k : ℕ) : p.bytes[2 + k]? = p.payload[k]? := by
  rw [Packet.bytes, List.getElem?_append_right (by simp)]
  simp

/-- In front of another packet a packet is full. -/
lemma payload_length_of_cons {p q : Packet} {ps : List Packet}
    (hfull : ∀ r ∈ (p :: q :: ps).dropLast, r.payload.length = 62) : p.payload.length = 62 := by
  apply hfull
  rw [List.dropLast_cons_cons]
  exact List.mem_cons_self

lemma full_of_cons {p : Packet} {ps : List Packet}
    (hfull : ∀ r ∈ (p :: ps).dropLast, r.payload.length = 62) :
    ∀ r ∈ ps.dropLast, r.payload.length = 62 := by
  intro r hr
  apply hfull
  rcases ps with _ | ⟨q, ps⟩
  · simp at hr
  · rw [List.dropLast_cons_cons]
    exact List.mem_cons_of_mem p hr

/-- The stripper counts the payload bytes of the packets. -/
lemma strippedSize_flatMap_bytes {packets : List Packet}
    (hfull : ∀ p ∈ packets.dropLast, p.payload.length = 62) :
    strippedSize (packets.flatMap Packet.bytes).length = min 512 (payload packets).length := by
  have hsize : 62 * ((packets.flatMap Packet.bytes).length / 64) +
      ((packets.flatMap Packet.bytes).length % 64 - 2) = (payload packets).length := by
    induction packets with
    | nil => rfl
    | cons p ps ih =>
      have hle := p.payload_le
      have hrest := ih (full_of_cons hfull)
      rw [List.flatMap_cons, payload, List.flatMap_cons, List.length_append, List.length_append,
        Packet.length_bytes]
      rcases ps with _ | ⟨q, ps⟩
      · simp only [List.flatMap_nil, List.length_nil]
        omega
      · rw [payload] at hrest
        have hp := payload_length_of_cons hfull
        omega
  rw [strippedSize, hsize]

/-- The stripper finds every payload byte of the packets where it looks for it. -/
lemma flatMap_bytes_sampleIndex {packets : List Packet}
    (hfull : ∀ p ∈ packets.dropLast, p.payload.length = 62) {k : ℕ}
    (hk : k < (payload packets).length) :
    (packets.flatMap Packet.bytes)[sampleIndex k]? = (payload packets)[k]? := by
  induction packets generalizing k with
  | nil => simp [payload] at hk
  | cons p ps ih =>
    have hle := p.payload_le
    rw [payload, List.flatMap_cons, List.length_append] at hk
    rw [payload, List.flatMap_cons, List.flatMap_cons]
    by_cases hkp : k < p.payload.length
    · rw [sampleIndex_of_lt (by omega), List.getElem?_append_left (by rw [p.length_bytes]; omega),
        List.getElem?_append_left hkp, Packet.bytes_getElem?]
    · rcases ps with _ | ⟨q, ps⟩
      · simp only [List.flatMap_nil, List.length_nil] at hk
        omega
      · have hp := payload_length_of_cons hfull
        have hshift : sampleIndex k = 64 + sampleIndex (k - 62) := by
          simp only [sampleIndex]
          omega
        have hrest := ih (k := k - 62) (full_of_cons hfull) (by rw [payload]; omega)
        rw [List.getElem?_append_right (by rw [p.length_bytes]; omega),
          List.getElem?_append_right (by omega), p.length_bytes, hp, hshift,
          Nat.add_sub_cancel_left, hrest, payload]

/-- For every payload cut into packets with two status bytes and 62 payload bytes, the last of
them with what is left: the stripper gives back the first 512 bytes of the payload. -/
lemma infnoiseStripFtdiStatus_completion (c : Completion) (usbBuf readBuf : ℕ → Byte) :
    let stripped := infnoiseStripFtdiStatus (memcpyList usbBuf 0 c.bytes) readBuf c.bytes.length
    stripped.1 = min 512 (payload c.packets).length ∧
      (List.range stripped.1).map stripped.2 = (payload c.packets).take 512 := by
  have hsize : strippedSize c.bytes.length = min 512 (payload c.packets).length :=
    strippedSize_flatMap_bytes c.full
  rw [infnoiseStripFtdiStatus_eq, hsize]
  refine ⟨rfl, ?_⟩
  apply List.ext_getElem
  · simp
  · intro k hk _
    have hk' : k < min 512 (payload c.packets).length := by simpa using hk
    have hbyte : c.bytes[sampleIndex k]? = some (payload c.packets)[k] := by
      rw [← List.getElem?_eq_getElem (by omega)]
      exact flatMap_bytes_sampleIndex c.full (by omega)
    rw [List.getElem_map, List.getElem_range, List.getElem_take]
    dsimp only
    rw [if_pos hk']
    simp [memcpyList, hbyte]

/-- The stripper undoes the framing. For every number of bytes up to the size of `usb_buf`, its
result, the new `read_buf` and the bytes that it reads; and what it gives back of a payload of at
most 558 bytes. -/
theorem infnoiseStripFtdiStatus_undoes_framing :
    (∀ usbBytes ≤ infnoiseUsbReadSize, ∀ usbBuf readBuf : ℕ → Byte,
      let stripped := infnoiseStripFtdiStatus usbBuf readBuf usbBytes
      stripped.1 = min 512 (62 * (usbBytes / 64) + (usbBytes % 64 - 2)) ∧
        (∀ k < stripped.1, stripped.2 k = usbBuf (64 * (k / 62) + 2 + k % 62)) ∧
        (∀ k, stripped.1 ≤ k → stripped.2 k = readBuf k) ∧
        stripped.2 = (stripCopies usbBytes).2.foldl (Copy.run usbBuf) readBuf ∧
        ∀ c ∈ (stripCopies usbBytes).2, c.src + c.len ≤ usbBytes) ∧
      ∀ c : Completion, (payload c.packets).length ≤ 558 → ∀ usbBuf readBuf : ℕ → Byte,
        let stripped :=
          infnoiseStripFtdiStatus (memcpyList usbBuf 0 c.bytes) readBuf c.bytes.length
        (List.range stripped.1).map stripped.2 = (payload c.packets).take 512 := by
  constructor
  · intro usbBytes _ usbBuf readBuf
    have hcopies := infnoiseStripFtdiStatus_copies usbBuf readBuf usbBytes
    have heq := infnoiseStripFtdiStatus_eq usbBuf readBuf usbBytes
    refine ⟨by rw [heq, strippedSize], ?_, ?_, by rw [hcopies], ?_⟩
    · intro k hk
      rw [heq] at hk ⊢
      exact if_pos hk
    · intro k hk
      rw [heq] at hk ⊢
      exact if_neg (Nat.not_lt.mpr hk)
    · intro c hc
      exact (stripCopies_within usbBytes c hc).1
  · intro c _ usbBuf readBuf
    exact (infnoiseStripFtdiStatus_completion c usbBuf readBuf).2

end Kernel
