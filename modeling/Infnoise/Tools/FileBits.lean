import Infnoise.Tools.FindLongest

/-!
# The array of a file

`readDataFromFile` stores the bits that are set, in memory that `calloc` has cleared at first and
that `realloc` doubles later. What is stored for a bit that is not set is what was there.
-/

namespace Tools

open Core

/-- Bit `i` of a file, the highest bit of each byte first. -/
def fileBit (file : List Byte) (i : ℕ) : Bool := (file.getD (i / 8) 0).getLsbD (7 - i % 8)

lemma fileBit_concat (file : List Byte) (c : Byte) (i : ℕ) :
    fileBit (file ++ [c]) i =
      if 8 * file.length ≤ i ∧ i < 8 * file.length + 8 then
        c.getLsbD (8 * file.length + 7 - i)
      else fileBit file i := by
  rw [fileBit, fileBit]
  split_ifs with h
  · have hdiv : i / 8 = file.length := by omega
    have hmod : 7 - i % 8 = 8 * file.length + 7 - i := by omega
    rw [hdiv, hmod, List.getD_append_right _ _ _ _ le_rfl]
    simp
  · by_cases hlt : i / 8 < file.length
    · rw [List.getD_append _ _ _ _ hlt]
    · rw [List.getD_eq_default _ _ (by simp; omega), List.getD_eq_default _ _ (by omega)]

/-! ### One byte -/

lemma and_one_ne_zero (v : Byte) : v &&& 1 ≠ 0 ↔ v.getLsbD 0 = true :=
  Buffer.and_mask_ne_zero v (j := 0) (by decide)

section Store

variable {pos : ℕ} {data : Buffer} (c : Byte) (hpos : 8 * pos < 18446744073709551616)
  (hsize : 8 * pos + 8 ≤ data.size)

include hpos hsize

/-- Round `i` writes the entry of its bit, if it is set. -/
lemma storeBit_spec {n : ℕ} (hn : n < 8) :
    ∃ data', storeBit pos (data, c >>> n) n = some (data', c >>> (n + 1)) ∧
      data'.size = data.size ∧ ∀ i, data'.byte i =
        if i = 8 * pos + 7 - n ∧ c.getLsbD n = true then 1 else data.byte i := by
  have hset : c >>> n &&& 1 ≠ 0 ↔ c.getLsbD n = true := by
    rw [and_one_ne_zero, BitVec.getLsbD_ushiftRight]
    rfl
  have hshift : c >>> n >>> 1 = c >>> (n + 1) := by
    rw [BitVec.shiftRight_add]
  rw [storeBit, u64_of_lt hpos, hshift]
  by_cases hbit : c.getLsbD n = true
  · rw [if_pos (hset.mpr hbit), Buffer.write_of_lt (by dsimp only; omega)]
    refine ⟨_, rfl, rfl, fun i => ?_⟩
    simp [Function.update_apply, hbit]
  · rw [if_neg (fun h => hbit (hset.mp h))]
    refine ⟨_, rfl, rfl, fun i => ?_⟩
    simp [hbit]

/-- The entries of a byte are written inside the buffer, where a bit is set. -/
lemma storeByte_spec :
    ∃ r, storeByte pos c data = some r ∧ r.1.size = data.size ∧
      ∀ i, r.1.byte i =
        if (8 * pos ≤ i ∧ i < 8 * pos + 8) ∧ c.getLsbD (8 * pos + 7 - i) = true then 1
        else data.byte i := by
  have hloop : ∀ n ≤ 8, ∃ data', (List.range n).foldlM (storeBit pos) (data, c) =
        some (data', c >>> n) ∧ data'.size = data.size ∧
      ∀ i, data'.byte i = if (8 * pos + 8 - n ≤ i ∧ i < 8 * pos + 8) ∧
        c.getLsbD (8 * pos + 7 - i) = true then 1 else data.byte i := by
    intro n hn
    induction n with
    | zero =>
      refine ⟨data, by simp, rfl, fun i => ?_⟩
      rw [if_neg (by omega)]
    | succ n ih =>
      obtain ⟨data', hfold, hsize', hbyte⟩ := ih (by omega)
      have hroom : 8 * pos + 8 ≤ data'.size := hsize'.symm ▸ hsize
      obtain ⟨data'', hround, hsize'', hbyte'⟩ := storeBit_spec c hpos hroom (show n < 8 by omega)
      refine ⟨data'', ?_, hsize''.trans hsize', fun i => ?_⟩
      · rw [List.range_succ, List.foldlM_append, hfold, Option.bind_eq_bind, Option.bind_some,
          List.foldlM_cons, hround, Option.bind_eq_bind, Option.bind_some, List.foldlM_nil]
        rfl
      · rw [hbyte', hbyte]
        by_cases hi : i = 8 * pos + 7 - n
        · have hplace : 8 * pos + 7 - i = n := by omega
          have hlow : 8 * pos + 8 - (n + 1) ≤ i ∧ i < 8 * pos + 8 := by omega
          have hhigh : ¬ (8 * pos + 8 - n ≤ i ∧ i < 8 * pos + 8) := by omega
          simp only [hplace, and_iff_right hi, and_iff_right hlow, hhigh, false_and, if_false]
        · have hiff : (8 * pos + 8 - (n + 1) ≤ i ∧ i < 8 * pos + 8) ↔
              (8 * pos + 8 - n ≤ i ∧ i < 8 * pos + 8) := by omega
          simp only [hi, hiff, false_and, if_false]
  obtain ⟨data', hfold, hsize', hbyte⟩ := hloop 8 le_rfl
  exact ⟨_, hfold, hsize', hbyte⟩

end Store

/-! ### The buffer -/

/-- What entry `i` of the array holds when these bytes of the file have been read. -/
def stored (garbage : ℕ → Byte) (file : List Byte) (i : ℕ) : Byte :=
  if fileBit file i then 1 else if i < 16384 then 0 else garbage i

/-- The buffer when these bytes of the file have been read. -/
structure Loaded (garbage : ℕ → Byte) (file : List Byte) (data : Buffer) : Prop where
  size_eq : ∃ k, 14 ≤ k ∧ k ≤ 63 ∧ data.size = 2 ^ k
  length_lt : 8 * file.length < data.size
  byte_eq : ∀ i < data.size, data.byte i = stored garbage file i

lemma Loaded.nil (garbage : ℕ → Byte) : Loaded garbage [] (.calloc 16384) := by
  refine ⟨⟨14, le_rfl, by decide, rfl⟩, by decide, fun i hi => ?_⟩
  have hbit : fileBit [] i = false := by simp [fileBit]
  change i < 16384 at hi
  rw [stored, hbit, if_neg Bool.false_ne_true, if_pos hi]
  rfl

/-- The part of the loop that makes room for one more byte. -/
def makeRoom (garbage : ℕ → Byte) (pos : ℕ) (data : Buffer) : Buffer :=
  if u64 (u64 (pos * 8) + 8) ≥ data.size then data.realloc garbage (u64 (data.size <<< 1))
  else data

lemma readBytes_cons (garbage : ℕ → Byte) (c : Byte) (file : List Byte) (pos : ℕ)
    (data : Buffer) :
    readBytes garbage (c :: file) pos data =
      (storeByte pos c (makeRoom garbage pos data)).bind fun r =>
        readBytes garbage file (u64 (pos + 1)) r.1 := rfl

/-- The end of the next byte does not wrap. -/
lemma nextEnd_eq {length : ℕ} (h : length < 1152921504606846976) :
    u64 (u64 (length * 8) + 8) = 8 * length + 8 := by
  have hbytes : u64 (length * 8) = length * 8 := u64_of_lt (by omega)
  rw [hbytes, u64_of_lt (by omega), Nat.mul_comm]

namespace Loaded

variable {garbage : ℕ → Byte} {file : List Byte} {data : Buffer} (h : Loaded garbage file data)

include h

/-- The buffer is made twice as large if the next byte would reach its end. -/
lemma makeRoom (hroom : file.length + 1 < 1152921504606846976) :
    ∃ k, 14 ≤ k ∧ k ≤ 63 ∧ (Tools.makeRoom garbage file.length data).size = 2 ^ k ∧
      8 * file.length + 8 < (Tools.makeRoom garbage file.length data).size ∧
      ∀ i < (Tools.makeRoom garbage file.length data).size,
        (Tools.makeRoom garbage file.length data).byte i = stored garbage file i := by
  obtain ⟨k, hk, hk', hsize⟩ := h.size_eq
  have hlen := h.length_lt
  have height : 8 ∣ data.size := by
    rw [hsize]
    exact Nat.pow_dvd_pow 2 (show 3 ≤ k by omega)
  rw [Tools.makeRoom, nextEnd_eq (by omega)]
  split_ifs with hfull
  · have hlt : k < 63 := by
      by_contra hge
      have h63 : k = 63 := by omega
      rw [hsize, h63] at hfull
      omega
    have hdouble : u64 (data.size <<< 1) = 2 ^ (k + 1) := by
      rw [Nat.shiftLeft_eq, hsize, ← pow_add, u64_of_lt]
      exact Nat.pow_lt_pow_right Nat.one_lt_two (show k + 1 < 64 by omega)
    refine ⟨k + 1, by omega, by omega, hdouble, ?_, ?_⟩
    · rw [Buffer.realloc, hdouble, pow_succ, ← hsize]
      dsimp only
      omega
    · intro i _
      rw [Buffer.realloc]
      dsimp only
      split_ifs with hi
      · exact h.byte_eq i hi
      · have hbit : fileBit file i = false := by
          rw [fileBit, List.getD_eq_default _ _ (by omega)]
          simp
        have hlarge : 2 ^ 14 ≤ data.size := by
          rw [hsize]
          exact Nat.pow_le_pow_right (by decide) hk
        rw [stored, hbit, if_neg Bool.false_ne_true, if_neg (by omega)]
  · exact ⟨k, hk, hk', hsize, by omega, h.byte_eq⟩

/-- The bits of a byte join those before. -/
lemma storeByte (c : Byte) (hroom : file.length + 1 < 1152921504606846976) :
    ∃ r, Tools.storeByte file.length c (Tools.makeRoom garbage file.length data) = some r ∧
      Loaded garbage (file ++ [c]) r.1 := by
  obtain ⟨k, hk, hk', hsize, hlen, hbytes⟩ := h.makeRoom hroom
  have hpos : 8 * file.length < 18446744073709551616 := by omega
  obtain ⟨r, hstore, hsize', hbyte⟩ := storeByte_spec c hpos hlen.le
  refine ⟨r, hstore, ⟨k, hk, hk', hsize'.trans hsize⟩, ?_, ?_⟩
  · rw [hsize', List.length_append, List.length_singleton]
    omega
  · intro i hi
    rw [hsize'] at hi
    rw [hbyte, stored, fileBit_concat]
    by_cases hin : 8 * file.length ≤ i ∧ i < 8 * file.length + 8
    · have hold : fileBit file i = false := by
        rw [fileBit, List.getD_eq_default _ _ (by omega)]
        simp
      rw [if_pos hin, hbytes i hi, stored, hold]
      by_cases hbit : c.getLsbD (8 * file.length + 7 - i) = true
      · rw [if_pos ⟨hin, hbit⟩, if_pos hbit]
      · rw [if_neg (fun hf => hbit hf.2), if_neg hbit, if_neg Bool.false_ne_true]
    · rw [if_neg (fun hf => hin hf.1), if_neg hin, hbytes i hi]
      rfl

/-- The length of the buffer wraps to zero. -/
lemma makeRoom_wraps (hfull : file.length + 1 = 1152921504606846976) :
    (Tools.makeRoom garbage file.length data).size = 0 := by
  obtain ⟨k, hk, hk', hsize⟩ := h.size_eq
  have hlen := h.length_lt
  have h63 : k = 63 := by
    by_contra hne
    have hle : 2 ^ k ≤ 2 ^ 62 := Nat.pow_le_pow_right (by decide) (by omega)
    omega
  have hsize' : data.size = 9223372036854775808 := by
    rw [hsize, h63]
    rfl
  rw [Tools.makeRoom, nextEnd_eq (by omega), if_pos (by omega), Buffer.realloc, hsize']
  rfl

end Loaded

/-! ### The whole file -/

/-- A file that is short enough is read. -/
lemma readBytes_loaded {garbage : ℕ → Byte} {rest file : List Byte} {data : Buffer}
    (h : Loaded garbage file data) (hlen : (file ++ rest).length < 1152921504606846976) :
    ∃ data', readBytes garbage rest file.length data =
        some (data', 8 * (file ++ rest).length) ∧ Loaded garbage (file ++ rest) data' := by
  induction rest generalizing file data with
  | nil =>
    rw [List.append_nil] at hlen ⊢
    refine ⟨data, ?_, h⟩
    rw [readBytes, u64_of_lt (by omega), Nat.mul_comm]
  | cons c rest ih =>
    rw [List.append_cons] at hlen ⊢
    rw [List.length_append, List.length_append, List.length_singleton] at hlen
    obtain ⟨r, hstore, hloaded⟩ := h.storeByte c (by omega)
    obtain ⟨data', hread, hloaded'⟩ := ih hloaded (by
      rw [List.length_append, List.length_append, List.length_singleton]
      exact hlen)
    refine ⟨data', ?_, hloaded'⟩
    rw [List.length_append, List.length_singleton] at hread
    rw [readBytes_cons, hstore, Option.bind_some, u64_of_lt (by omega), hread]

lemma storeBit_size {pos i : ℕ} {s s' : Buffer × Byte} (h : storeBit pos s i = some s') :
    s'.1.size = s.1.size := by
  rw [storeBit, Option.map_eq_some_iff] at h
  obtain ⟨data, hwrite, rfl⟩ := h
  split_ifs at hwrite
  · rw [Buffer.write] at hwrite
    split_ifs at hwrite
    cases hwrite
    rfl
  · cases hwrite
    rfl

lemma storeByte_size {pos : ℕ} {c : Byte} {data : Buffer} {r : Buffer × Byte}
    (h : storeByte pos c data = some r) : r.1.size = data.size := by
  have hfold : ∀ (l : List ℕ) (s : Buffer × Byte), l.foldlM (storeBit pos) s = some r →
      r.1.size = s.1.size := by
    intro l
    induction l with
    | nil =>
      intro s hs
      cases hs
      rfl
    | cons i l ih =>
      intro s hs
      rw [List.foldlM_cons, Option.bind_eq_bind, Option.bind_eq_some_iff] at hs
      obtain ⟨s', hstep, hrest⟩ := hs
      rw [ih s' hrest, storeBit_size hstep]
  exact hfold _ _ h

/-- A buffer without a byte is not made larger. -/
lemma readBytes_empty {garbage : ℕ → Byte} {rest : List Byte} {pos : ℕ} {data : Buffer}
    {r : Buffer × ℕ} (hsize : data.size = 0) (h : readBytes garbage rest pos data = some r) :
    r.1.size = 0 := by
  induction rest generalizing pos data with
  | nil =>
    cases h
    exact hsize
  | cons c rest ih =>
    have hroom : (makeRoom garbage pos data).size = 0 := by
      rw [makeRoom, if_pos (by omega), Buffer.realloc, hsize]
      rfl
    rw [readBytes_cons, Option.bind_eq_some_iff] at h
    obtain ⟨r', hstore, hrest⟩ := h
    exact ih ((storeByte_size hstore).trans hroom) hrest

/-- A file that is too long leaves a buffer without a byte, if it is read at all. -/
lemma readBytes_wraps {garbage : ℕ → Byte} {rest file : List Byte} {data : Buffer}
    {r : Buffer × ℕ} (hloaded : Loaded garbage file data)
    (hfile : file.length < 1152921504606846976)
    (hlen : 1152921504606846976 ≤ (file ++ rest).length)
    (h : readBytes garbage rest file.length data = some r) : r.1.size = 0 := by
  induction rest generalizing file data with
  | nil =>
    rw [List.append_nil] at hlen
    omega
  | cons c rest ih =>
    rw [readBytes_cons, Option.bind_eq_some_iff] at h
    obtain ⟨r', hstore, hrest⟩ := h
    by_cases hroom : file.length + 1 < 1152921504606846976
    · obtain ⟨r'', hstore', hloaded'⟩ := hloaded.storeByte c hroom
      rw [hstore] at hstore'
      cases hstore'
      refine ih hloaded' (by simpa using hroom) (by simpa using hlen) ?_
      rw [u64_of_lt (by omega)] at hrest
      simpa using hrest
    · have hempty := hloaded.makeRoom_wraps (by omega)
      exact readBytes_empty ((storeByte_size hstore).trans hempty) hrest

/-! ### What is read -/

/-- The length is eight times that of the file, and the array has an entry for each bit, which is
that bit. -/
def ReadsExactly (garbage : ℕ → Byte) (file : List Byte) : Prop :=
  ∃ data, readDataFromFile garbage file = some (data, 8 * file.length) ∧
    8 * file.length ≤ data.size ∧
    ∀ k j, k < file.length → j < 8 →
      data.byte (8 * k + j) = if (file.getD k 0).getLsbD (7 - j) then 1 else 0

lemma readDataFromFile_loaded (garbage : ℕ → Byte) {file : List Byte}
    (hlen : file.length < 1152921504606846976) :
    ∃ data, readDataFromFile garbage file = some (data, 8 * file.length) ∧
      Loaded garbage file data :=
  readBytes_loaded (Loaded.nil garbage) hlen

/-- The file is read exactly just if it is not too long, and `realloc` has left zero wherever
a bit from bit 16384 on is not set. -/
lemma readsExactly_iff (garbage : ℕ → Byte) (file : List Byte) :
    ReadsExactly garbage file ↔ file.length < 1152921504606846976 ∧
      ∀ i, 16384 ≤ i → i < 8 * file.length → fileBit file i = false → garbage i = 0 := by
  by_cases hlen : file.length < 1152921504606846976
  · obtain ⟨data, hread, hloaded⟩ := readDataFromFile_loaded garbage hlen
    have hsize := hloaded.length_lt
    constructor
    · rintro ⟨data', hread', -, hbits⟩
      rw [hread] at hread'
      cases hread'
      refine ⟨hlen, fun i hlow hi hbit => ?_⟩
      have hentry := hbits (i / 8) (i % 8) (by omega) (by omega)
      have hi' : 8 * (i / 8) + i % 8 = i := by omega
      rw [hi', hloaded.byte_eq i (by omega), stored, hbit, if_neg Bool.false_ne_true,
        if_neg (by omega)] at hentry
      rw [hentry, if_neg]
      intro hf
      rw [fileBit, hf] at hbit
      cases hbit
    · rintro ⟨-, hgarbage⟩
      refine ⟨data, hread, hsize.le, fun k j hk hj => ?_⟩
      have hbit : fileBit file (8 * k + j) = (file.getD k 0).getLsbD (7 - j) := by
        rw [fileBit, show (8 * k + j) / 8 = k by omega, show (8 * k + j) % 8 = j by omega]
      rw [hloaded.byte_eq _ (by omega), stored, ← hbit]
      split_ifs with hset hlow
      · rfl
      · rfl
      · exact hgarbage _ (by omega) (by omega) (by simpa using hset)
  · constructor
    · rintro ⟨data, hread, hsize, -⟩
      have hempty := readBytes_wraps (Loaded.nil garbage) (by simp) (by simpa using hlen) hread
      change data.size = 0 at hempty
      omega
    · rintro ⟨hlen', -⟩
      exact absurd hlen' hlen

/-- When the file is read exactly, for what `realloc` leaves, and whatever it leaves. -/
theorem readDataFromFile_exact_iff (file : List Byte) :
    (∀ garbage, ReadsExactly garbage file ↔ file.length < 1152921504606846976 ∧
      ∀ i, 16384 ≤ i → i < 8 * file.length → fileBit file i = false → garbage i = 0) ∧
    ((∀ garbage, ReadsExactly garbage file) ↔ file.length < 1152921504606846976 ∧
      ∀ i, 16384 ≤ i → i < 8 * file.length → fileBit file i = true) := by
  refine ⟨fun garbage => readsExactly_iff garbage file, ?_⟩
  constructor
  · intro h
    obtain ⟨hlen, hgarbage⟩ := (readsExactly_iff (fun _ => 1) file).mp (h _)
    refine ⟨hlen, fun i hlow hi => ?_⟩
    by_contra hbit
    have hone := hgarbage i hlow hi (by simpa using hbit)
    cases hone
  · rintro ⟨hlen, hbits⟩ garbage
    rw [readsExactly_iff]
    refine ⟨hlen, fun i hlow hi hbit => ?_⟩
    rw [hbits i hlow hi] at hbit
    cases hbit

/-- A file of 2049 zero bytes, when `realloc` leaves ones. -/
theorem readDataFromFile_keeps_garbage :
    ¬ ReadsExactly (fun _ => 1) (List.replicate 2049 0) := by
  rw [readsExactly_iff]
  rintro ⟨-, hgarbage⟩
  have hbyte : (List.replicate 2049 (0 : Byte)).getD 2048 0 = 0 :=
    List.getD_replicate _ (by decide)
  have hbit : fileBit (List.replicate 2049 0) 16384 = false := by
    rw [fileBit, show 16384 / 8 = 2048 from rfl, hbyte]
    rfl
  have hzero := hgarbage 16384 le_rfl (by rw [List.length_replicate]; decide) hbit
  cases hzero

end Tools
