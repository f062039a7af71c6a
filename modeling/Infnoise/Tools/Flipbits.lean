import Infnoise.Core.Bits

/-!
# Reversing groups of bits

Model of `flipbits.c`. The reader and the writer each keep a byte of which some bits are pending.
Before the first byte is read, the mask of the reader is computed with a shift by -1, which is
undefined; what it is then is an argument.
-/

namespace Tools

open Core

/-! ### The code -/

/-- The static variables, what is left of the standard input, and the standard output. -/
structure Flip where
  availableInBits : ℕ
  availableOutBits : ℕ
  currentInByte : Byte
  currentOutByte : Byte
  input : List Byte
  output : List Byte

/-- Read a byte if no bit of the last one is left; `none` at the end of the input. -/
def Flip.refill (mask : Byte) (s : Flip) : Option (Byte × Flip) :=
  if s.availableInBits = 0 then
    match s.input with
    | [] => none
    | c :: input =>
      some ((1 : Byte) <<< 7, { s with currentInByte := c, availableInBits := 8, input })
  else some (mask, s)

/-- The loop of `readVal`: the value, whether the input has ended, and the state. -/
def readLoop : ℕ → Byte → ℕ → Flip → ℕ × Bool × Flip
  | 0, _, value, s => (value, false, s)
  | width + 1, mask, value, s =>
    let value := u64 (value <<< 1)
    match s.refill mask with
    | none => (value, true, s)
    | some (mask, s) =>
      let value := if s.currentInByte &&& mask ≠ 0 then value ||| 1 else value
      readLoop width (mask >>> 1) value { s with availableInBits := s.availableInBits - 1 }

def readVal (undefinedMask : Byte) (width : ℕ) (s : Flip) : ℕ × Bool × Flip :=
  readLoop width
    (if s.availableInBits = 0 then undefinedMask else (1 : Byte) <<< (s.availableInBits - 1)) 0 s

def writeValReverse (value : ℕ) : ℕ → Flip → Flip
  | 0, s => s
  | width + 1, s =>
    let out := (s.currentOutByte <<< 1) ||| BitVec.ofNat 8 (value &&& 1)
    let s :=
      if s.availableOutBits + 1 = 8 then
        { s with currentOutByte := out, availableOutBits := 0, output := s.output ++ [out] }
      else { s with currentOutByte := out, availableOutBits := s.availableOutBits + 1 }
    writeValReverse (value >>> 1) width s

/-- The loop of `main`, for at most `fuel` groups; `none` when it goes on after them. -/
def flipLoop (undefinedMask : Byte) (width : ℕ) : ℕ → Flip → Option Flip
  | 0, _ => none
  | fuel + 1, s =>
    match readVal undefinedMask width s with
    | (_, true, s) => some s
    | (value, false, s) => flipLoop undefinedMask width fuel (writeValReverse value width s)

/-- The output for an input. Each group takes at least one bit. -/
def flipbits (undefinedMask : Byte) (width : ℕ) (input : List Byte) : Option (List Byte) :=
  (flipLoop undefinedMask width (8 * input.length + 1) ⟨0, 0, 0, 0, input, []⟩).map Flip.output

/-! ### Bits -/

/-- The bits that have not been read. -/
def Flip.pending (s : Flip) : List Bool :=
  lowBits s.currentInByte s.availableInBits ++ bitsOf s.input

/-- The bits that have been written. -/
def Flip.written (s : Flip) : List Bool :=
  bitsOf s.output ++ lowBits s.currentOutByte s.availableOutBits

/-- Cut bits into groups of `w`, and reverse each of them. -/
def reverseGroups (w : ℕ) (l : List Bool) : List Bool := ((chunks w l).map List.reverse).flatten

/-! ### The reader -/

/-- The mask selects the first of the bits that are left. -/
def MaskFits (mask : Byte) (s : Flip) : Prop :=
  s.availableInBits = 0 ∨ mask = (1 : Byte) <<< (s.availableInBits - 1)

lemma mask_shift {a : ℕ} (ha : a < 8) :
    a = 0 ∨ ((1 : Byte) <<< a) >>> 1 = (1 : Byte) <<< (a - 1) := by
  have hall : ∀ a : ℕ, a < 8 →
      a = 0 ∨ ((1 : Byte) <<< a) >>> 1 = (1 : Byte) <<< (a - 1) := by decide
  exact hall a ha

lemma refill_none (mask : Byte) {s : Flip} (hend : s.pending = []) : s.refill mask = none := by
  rw [Flip.pending, List.append_eq_nil_iff] at hend
  have havail : s.availableInBits = 0 := by
    rw [← length_lowBits s.currentInByte s.availableInBits, hend.1, List.length_nil]
  have hinput : s.input = [] := by
    have hlen := length_bitsOf s.input
    rw [hend.2, List.length_nil] at hlen
    exact List.length_eq_zero_iff.mp (by omega)
  rw [Flip.refill, if_pos havail, hinput]

/-- The next bit, with what is left after it. -/
lemma refill_some {mask : Byte} {s : Flip} (hmask : MaskFits mask s) (h8 : s.availableInBits ≤ 8)
    {bit : Bool} {rest : List Bool} (hpending : s.pending = bit :: rest) :
    ∃ a c i, s.refill mask = some ((1 : Byte) <<< a,
          { s with availableInBits := a + 1, currentInByte := c, input := i }) ∧
      a < 8 ∧ c.getLsbD a = bit ∧ lowBits c a ++ bitsOf i = rest := by
  rw [Flip.pending] at hpending
  rcases havail : s.availableInBits with _ | a
  · rw [Flip.refill, if_pos havail]
    rw [havail, lowBits_zero, List.nil_append] at hpending
    rcases hinput : s.input with _ | ⟨c, input⟩
    · rw [hinput] at hpending
      cases hpending
    · rw [hinput, bitsOf_cons, byteBits, lowBits_succ, List.cons_append,
        List.cons.injEq] at hpending
      exact ⟨7, c, input, rfl, by decide, hpending.1, hpending.2⟩
  · rw [Flip.refill, if_neg (by omega)]
    rw [havail, lowBits_succ, List.cons_append, List.cons.injEq] at hpending
    have hmask' : mask = (1 : Byte) <<< a := by
      rcases hmask with h | h
      · omega
      · rw [h, havail, Nat.add_sub_cancel]
    refine ⟨a, s.currentInByte, s.input, ?_, by omega, hpending.1, hpending.2⟩
    rw [hmask', ← havail]

lemma shift_bit {l : List Bool} (bit : Bool) (hl : l.length < 64) :
    u64 (bitsValue l <<< 1) ||| bit.toNat = bitsValue (l ++ [bit]) := by
  have hlt := bitsValue_lt l
  have hpow : 2 ^ l.length ≤ 2 ^ 63 := Nat.pow_le_pow_right (by decide) (by omega)
  rw [u64_shiftLeft_or (by omega), bitsValue_concat]

/-- What reading leaves: the bits from a place on, and nothing new in the output. -/
def ReadTo (s : Flip) (rest : List Bool) (s' : Flip) : Prop :=
  ∃ a c i, s' = { s with availableInBits := a, currentInByte := c, input := i } ∧ a ≤ 8 ∧
    s'.pending = rest

/-- The loop reads a group if there are bits enough. -/
lemma readLoop_spec {width : ℕ} {mask : Byte} {s : Flip} {l : List Bool}
    (hmask : MaskFits mask s) (h8 : s.availableInBits ≤ 8) (h64 : l.length + width ≤ 64) :
    (width ≤ s.pending.length → ∃ s', readLoop width mask (bitsValue l) s =
        (bitsValue (l ++ s.pending.take width), false, s') ∧
      ReadTo s (s.pending.drop width) s') ∧
    (s.pending.length < width → ∃ value s', readLoop width mask (bitsValue l) s =
        (value, true, s') ∧ ReadTo s [] s') := by
  induction width generalizing mask s l with
  | zero =>
    refine ⟨fun _ => ⟨s, ?_, _, _, _, rfl, h8, rfl⟩, fun hf => absurd hf (Nat.not_lt_zero _)⟩
    rw [readLoop, List.take_zero, List.append_nil]
  | succ width ih =>
    rcases hpending : s.pending with _ | ⟨bit, rest⟩
    · constructor
      · intro hf
        simp at hf
      · intro _
        refine ⟨u64 (bitsValue l <<< 1), s, ?_, _, _, _, rfl, h8, hpending⟩
        rw [readLoop, refill_none mask hpending]
    · obtain ⟨a, c, i, hrefill, ha, hbit, hrest⟩ := refill_some hmask h8 hpending
      have hvalue : (if c &&& ((1 : Byte) <<< a) ≠ 0 then u64 (bitsValue l <<< 1) ||| 1
          else u64 (bitsValue l <<< 1)) = bitsValue (l ++ [bit]) := by
        rw [← shift_bit bit (by omega : l.length < 64)]
        have htest := Buffer.and_mask_ne_zero c ha
        rw [hbit] at htest
        cases bit
        · rw [if_neg (fun hf => by cases htest.mp hf), Bool.toNat_false, Nat.or_zero]
        · rw [if_pos (htest.mpr rfl), Bool.toNat_true]
      have hstep : readLoop (width + 1) mask (bitsValue l) s =
          readLoop width (((1 : Byte) <<< a) >>> 1) (bitsValue (l ++ [bit]))
            { s with availableInBits := a, currentInByte := c, input := i } := by
        rw [readLoop, hrefill, ← hvalue]
        rfl
      have hpending' : ({ s with availableInBits := a, currentInByte := c, input := i } :
          Flip).pending = rest := hrest
      obtain ⟨hle, hlt⟩ := @ih (((1 : Byte) <<< a) >>> 1)
        { s with availableInBits := a, currentInByte := c, input := i } (l ++ [bit])
        (mask_shift ha) ha.le (by simp; omega)
      rw [hpending'] at hle hlt
      rw [hstep]
      constructor
      · intro hlen
        obtain ⟨s', heq, a', c', i', hs', ha', hrest'⟩ := hle (by simpa using hlen)
        refine ⟨s', ?_, a', c', i', hs', ha', hrest'⟩
        rw [heq, List.take_succ_cons, List.append_assoc, List.singleton_append]
      · intro hlen
        obtain ⟨value, s', heq, a', c', i', hs', ha', hrest'⟩ := hlt (by simpa using hlen)
        exact ⟨value, s', heq, a', c', i', hs', ha', hrest'⟩

/-- `readVal` takes the next group, or comes to the end of the input. -/
lemma readVal_spec (undefinedMask : Byte) {width : ℕ} {s : Flip} (h8 : s.availableInBits ≤ 8)
    (h64 : width ≤ 64) :
    (width ≤ s.pending.length → ∃ s', readVal undefinedMask width s =
        (bitsValue (s.pending.take width), false, s') ∧ ReadTo s (s.pending.drop width) s') ∧
    (s.pending.length < width → ∃ value s', readVal undefinedMask width s = (value, true, s') ∧
      ReadTo s [] s') := by
  have hmask : MaskFits (if s.availableInBits = 0 then undefinedMask
      else (1 : Byte) <<< (s.availableInBits - 1)) s := by
    by_cases havail : s.availableInBits = 0
    · exact .inl havail
    · exact .inr (if_neg havail)
  exact readLoop_spec (l := []) hmask h8 (by simpa using h64)

/-! ### The writer -/

/-- What writing does: these bits are behind those written before, and nothing has been read. -/
def WroteTo (s : Flip) (l : List Bool) (s' : Flip) : Prop :=
  ∃ a c o, s' = { s with availableOutBits := a, currentOutByte := c, output := o } ∧ a < 8 ∧
    s'.written = s.written ++ l

/-- A bit is written. -/
def Flip.writeBit (bit : Bool) (s : Flip) : Flip :=
  let out := (s.currentOutByte <<< 1) ||| (if bit then 1 else 0)
  if s.availableOutBits + 1 = 8 then
    { s with currentOutByte := out, availableOutBits := 0, output := s.output ++ [out] }
  else { s with currentOutByte := out, availableOutBits := s.availableOutBits + 1 }

/-- The last bit of the value is written first. -/
lemma writeValReverse_concat (l : List Bool) (bit : Bool) (width : ℕ) (s : Flip) :
    writeValReverse (bitsValue (l ++ [bit])) (width + 1) s =
      writeValReverse (bitsValue l) width (s.writeBit bit) := by
  have hlt := Bool.toNat_lt bit
  have hlast : (bitsValue l * 2 + bit.toNat) &&& 1 = bit.toNat := by
    rw [Nat.and_one_is_mod]
    omega
  have hrest : (bitsValue l * 2 + bit.toNat) >>> 1 = bitsValue l := by
    rw [Nat.shiftRight_eq_div_pow]
    omega
  have hbit : BitVec.ofNat 8 bit.toNat = if bit then 1 else 0 := by
    cases bit <;> rfl
  rw [bitsValue_concat, writeValReverse, hlast, hrest, hbit]
  rfl

lemma writeBit_spec {s : Flip} (h8 : s.availableOutBits < 8) (bit : Bool) :
    WroteTo s [bit] (s.writeBit bit) := by
  have hlow := lowBits_shiftIn s.currentOutByte bit h8
  unfold Flip.writeBit
  dsimp only
  by_cases hfull : s.availableOutBits + 1 = 8
  · rw [hfull] at hlow
    rw [if_pos hfull]
    refine ⟨_, _, _, rfl, by decide, ?_⟩
    simp only [Flip.written, bitsOf_append, bitsOf_cons, bitsOf_nil, lowBits_zero, List.append_nil,
      List.append_assoc]
    exact congrArg _ hlow
  · rw [if_neg hfull]
    refine ⟨_, _, _, rfl, by omega, ?_⟩
    simp only [Flip.written, List.append_assoc]
    exact congrArg _ hlow

lemma writeValReverse_spec {l : List Bool} {s : Flip} (h8 : s.availableOutBits < 8) :
    WroteTo s l.reverse (writeValReverse (bitsValue l) l.length s) := by
  induction l using List.reverseRecOn generalizing s with
  | nil => exact ⟨_, _, _, rfl, h8, by simp [writeValReverse]⟩
  | append_singleton l bit ih =>
    obtain ⟨a, c, o, hs', ha, hwritten⟩ := writeBit_spec h8 bit
    have h8' : (s.writeBit bit).availableOutBits < 8 := by
      rw [hs']
      exact ha
    obtain ⟨a', c', o', hs'', ha', hwritten'⟩ := ih h8'
    rw [List.length_append, List.length_singleton, writeValReverse_concat]
    refine ⟨a', c', o', ?_, ha', ?_⟩
    · rw [hs'', hs']
    · rw [hwritten', hwritten]
      simp

/-! ### The whole input -/

lemma reverseGroups_of_lt {w : ℕ} {l : List Bool} (h : l.length < w) : reverseGroups w l = [] := by
  rw [reverseGroups, chunks_of_lt h]
  rfl

lemma reverseGroups_of_le {w : ℕ} {l : List Bool} (hw : 0 < w) (h : w ≤ l.length) :
    reverseGroups w l = (l.take w).reverse ++ reverseGroups w (l.drop w) := by
  rw [reverseGroups, chunks_of_le hw h]
  rfl

lemma flipLoop_spec (undefinedMask : Byte) {w fuel : ℕ} {s : Flip} (h1 : 1 ≤ w) (h64 : w ≤ 64)
    (hin : s.availableInBits ≤ 8) (hout : s.availableOutBits < 8)
    (hfuel : s.pending.length < fuel) :
    ∃ s', flipLoop undefinedMask w fuel s = some s' ∧ s'.availableOutBits < 8 ∧
      s'.written = s.written ++ reverseGroups w s.pending := by
  induction fuel generalizing s with
  | zero => exact absurd hfuel (Nat.not_lt_zero _)
  | succ fuel ih =>
    obtain ⟨hle, hlt⟩ := readVal_spec undefinedMask hin h64
    by_cases hlen : w ≤ s.pending.length
    · obtain ⟨s₁, hread, a, c, i, hs₁, ha, hpending⟩ := hle hlen
      have htake : (s.pending.take w).length = w := List.length_take_of_le hlen
      have hout₁ : s₁.availableOutBits < 8 := by
        rw [hs₁]
        exact hout
      obtain ⟨a', c', o, hs₂, ha', hwritten⟩ :=
        writeValReverse_spec (l := s.pending.take w) hout₁
      rw [htake] at hs₂ hwritten
      have hin₂ : (writeValReverse (bitsValue (s.pending.take w)) w s₁).availableInBits ≤ 8 := by
        rw [hs₂, hs₁]
        exact ha
      have hout₂ : (writeValReverse (bitsValue (s.pending.take w)) w s₁).availableOutBits < 8 := by
        rw [hs₂]
        exact ha'
      have hpending₂ : (writeValReverse (bitsValue (s.pending.take w)) w s₁).pending =
          s.pending.drop w := by
        rw [← hpending, hs₂]
        rfl
      obtain ⟨s', hloop, hout', hwritten'⟩ := ih hin₂ hout₂ (by
        rw [hpending₂, List.length_drop]
        omega)
      refine ⟨s', ?_, hout', ?_⟩
      · rw [flipLoop, hread]
        exact hloop
      · have hwritten₁ : s₁.written = s.written := by
          rw [hs₁]
          rfl
        rw [hwritten', hwritten, hwritten₁, hpending₂, reverseGroups_of_le h1 hlen,
          List.append_assoc]
    · obtain ⟨value, s', hread, a, c, i, hs', -, -⟩ := hlt (Nat.not_le.mp hlen)
      refine ⟨s', ?_, ?_, ?_⟩
      · rw [flipLoop, hread]
      · rw [hs']
        exact hout
      · rw [reverseGroups_of_lt (Nat.not_le.mp hlen), List.append_nil, hs']
        rfl

/-- The output is made of the bytes of the reversed groups. -/
lemma flipbits_eq (undefinedMask : Byte) {w : ℕ} (h1 : 1 ≤ w) (h64 : w ≤ 64) (input : List Byte) :
    flipbits undefinedMask w input = some (bytesOfBits (reverseGroups w (bitsOf input))) := by
  have hstart : (Flip.mk 0 0 0 0 input []).pending.length < 8 * input.length + 1 := by
    simp [Flip.pending]
  obtain ⟨s', hloop, hout, hwritten⟩ :=
    flipLoop_spec undefinedMask h1 h64 (Nat.zero_le 8) (by decide : 0 < 8) hstart
  have hbits : bitsOf s'.output ++ lowBits s'.currentOutByte s'.availableOutBits =
      reverseGroups w (bitsOf input) := hwritten
  rw [flipbits, hloop, ← hbits, bytesOfBits_bitsOf_append _ (by simpa using hout)]
  rfl

/-! ### An involution -/

lemma length_reverseGroups (w : ℕ) (l : List Bool) :
    (reverseGroups w l).length = l.length / w * w := by
  have hflat := congrArg List.length (flatten_chunks w l)
  rw [List.length_flatten, List.length_take_of_le (Nat.div_mul_le_self _ _)] at hflat
  rw [reverseGroups, List.length_flatten, List.map_map, ← hflat]
  congr 2
  funext c
  exact List.length_reverse

/-- Groups that leave no bit are reversed back. -/
lemma reverseGroups_reverseGroups {w : ℕ} (hw : 0 < w) {l : List Bool} (hl : w ∣ l.length) :
    reverseGroups w (reverseGroups w l) = l := by
  have hgroups : ∀ c ∈ (chunks w l).map List.reverse, c.length = w := by
    intro c hc
    obtain ⟨d, hd, rfl⟩ := List.mem_map.mp hc
    rw [List.length_reverse, length_of_mem_chunks hd]
  have htwice : List.reverse ∘ List.reverse = (id : List Bool → List Bool) := by
    funext c
    exact List.reverse_reverse c
  rw [reverseGroups, reverseGroups, chunks_flatten hw hgroups, List.map_map, htwice, List.map_id,
    flatten_chunks, Nat.div_mul_cancel hl, List.take_length]

/-- The output has the bytes of the groups of `w` bits, each of them reversed. If the groups leave
no bit of the input, flipping twice gives the input back. -/
theorem flipbits_reverses (undefinedMask : Byte) {w : ℕ} (h1 : 1 ≤ w) (h64 : w ≤ 64)
    (input : List Byte) :
    flipbits undefinedMask w input = some (bytesOfBits (reverseGroups w (bitsOf input))) ∧
      (bytesOfBits (reverseGroups w (bitsOf input))).length = 8 * input.length / w * w / 8 ∧
      (w ∣ 8 * input.length →
        (flipbits undefinedMask w input).bind (flipbits undefinedMask w) = some input) := by
  refine ⟨flipbits_eq undefinedMask h1 h64 input, ?_, fun hw => ?_⟩
  · rw [bytesOfBits, List.length_map, length_chunks, length_reverseGroups, length_bitsOf]
  · rw [← length_bitsOf] at hw
    have hlen : 8 ∣ (reverseGroups w (bitsOf input)).length := by
      rw [length_reverseGroups, Nat.div_mul_cancel hw, length_bitsOf]
      exact Nat.dvd_mul_right 8 input.length
    have hback := bytesOfBits_bitsOf_append input (show ([] : List Bool).length < 8 by decide)
    rw [List.append_nil] at hback
    rw [flipbits_eq undefinedMask h1 h64, Option.bind_some, flipbits_eq undefinedMask h1 h64,
      bitsOf_bytesOfBits hlen, reverseGroups_reverseGroups h1 hw, hback]

/-- Groups of three bits on three bytes. -/
theorem flipbits_reverses_three :
    (flipbits 0 3 [1, 2, 3]).bind (flipbits 0 3) = some [1, 2, 3] :=
  (flipbits_reverses 0 (by decide) (by decide) [1, 2, 3]).2.2 (by decide)

end Tools
