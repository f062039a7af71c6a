import Infnoise.Core.Loop
import Infnoise.Core.Machine
import Infnoise.Core.Word

/-!
# Checked bits packed into bytes

A loop takes samples one by one, gives each to a checker that may stop it, and shifts one bit of
each into a byte. What it does is a run of the checker over the samples, and bytes that hold their
bits, the first one in the highest bit.
-/

namespace Core

variable {σ ι : Type*}

/-! ### Bits of a byte -/

lemma getLsbD_shiftIn (byte : Byte) (bit : Bool) {k : ℕ} (hk : k < 8) :
    ((byte <<< 1) ||| (if bit then 1 else 0)).getLsbD k =
      if k = 0 then bit else byte.getLsbD (k - 1) := by
  have hbit : (if bit then (1 : Byte) else 0) = BitVec.setWidth 8 (BitVec.ofBool bit) := by
    cases bit <;> rfl
  rw [hbit, BitVec.getLsbD_or, BitVec.getLsbD_shiftLeft, BitVec.getLsbD_setWidth]
  by_cases h0 : k = 0
  · subst h0
    simp
  · have h1 : ¬ k < 1 := by omega
    rw [if_neg h0, BitVec.getLsbD_of_ge (BitVec.ofBool bit) k (by omega)]
    simp [hk, h1]

lemma getLsbD_packBits (b : ℕ → Bool) {n k : ℕ} (hk : k < 8) :
    (packBits b n).getLsbD k = (decide (k < n) && b (n - 1 - k)) := by
  induction n generalizing k with
  | zero => simp [packBits]
  | succ n ih =>
    rw [packBits, getLsbD_shiftIn _ _ hk]
    split_ifs with h0
    · simp [h0]
    · rw [ih (by omega), show n - 1 - (k - 1) = n + 1 - 1 - k by omega]
      congr 1
      exact decide_eq_decide.mpr (by omega)

lemma packBits_congr {b b' : ℕ → Bool} {n : ℕ} (h : ∀ k < n, b k = b' k) :
    packBits b n = packBits b' n := by
  induction n with
  | zero => rfl
  | succ n ih =>
    rw [packBits, packBits, ih fun k hk => h k (Nat.lt_succ_of_lt hk), h n (Nat.lt_succ_self n)]

/-- The bits of the first bytes of a buffer, the highest bit of each byte first. -/
def bitsOfBytes (bytes : ℕ → Byte) (length : ℕ) : List Bool :=
  (List.range (8 * length)).map fun k => (bytes (k / 8)).getLsbD (7 - k % 8)

/-- The bits of one more byte. -/
lemma bitsOfBytes_succ (bytes : ℕ → Byte) (n : ℕ) :
    bitsOfBytes bytes (n + 1) =
      bitsOfBytes bytes n ++ (List.range 8).map fun i => (bytes n).getLsbD (7 - i) := by
  rw [bitsOfBytes, Nat.mul_succ, List.range_add, List.map_append, List.map_map]
  congr 1
  apply List.map_congr_left
  intro i hi
  rw [List.mem_range] at hi
  rw [Function.comp_apply, show (8 * n + i) / 8 = n by omega, show (8 * n + i) % 8 = i by omega]

/-- Eight bits to a byte, the first one in its highest bit. -/
def Packed (bit : ℕ → Bool) (bytes : ℕ → Byte) (length : ℕ) : Prop :=
  ∀ i < length, bytes i = packBits (fun j => bit (i * 8 + j)) 8

lemma Packed.getLsbD {bit : ℕ → Bool} {bytes : ℕ → Byte} {length : ℕ}
    (h : Packed bit bytes length) {k : ℕ} (hk : k < 8 * length) :
    (bytes (k / 8)).getLsbD (7 - k % 8) = bit k := by
  rw [h (k / 8) (by omega), getLsbD_packBits _ (by omega), decide_eq_true (by omega),
    Bool.true_and]
  congr 1
  omega

/-- Reading the bytes gives the bits back. -/
lemma Packed.bitsOfBytes_eq {bit : ℕ → Bool} {bytes : ℕ → Byte} {length : ℕ}
    (h : Packed bit bytes length) :
    bitsOfBytes bytes length = (List.range (8 * length)).map bit := by
  apply List.map_congr_left
  intro k hk
  exact h.getLsbD (List.mem_range.mp hk)

/-- The bits that are packed into bytes determine them, and are determined by them. -/
lemma Packed.eq_iff {bit bit' : ℕ → Bool} {bytes bytes' : ℕ → Byte} {length : ℕ}
    (h : Packed bit bytes length) (h' : Packed bit' bytes' length) :
    (∀ i < length, bytes i = bytes' i) ↔ ∀ k < 8 * length, bit k = bit' k := by
  constructor
  · intro heq k hk
    rw [← h.getLsbD hk, ← h'.getLsbD hk, heq (k / 8) (by omega)]
  · intro heq i hi
    rw [h i hi, h' i hi]
    apply packBits_congr
    intro j hj
    exact heq _ (by omega)

/-! ### Checked samples -/

/-- The checker takes these samples, from one state to another, and none of them fails. -/
def Checked (add : σ → ι → Option (Bool × σ)) (xs : List ι) (s t : σ) : Prop :=
  ∃ cs, Run add s cs t ∧ cs.map Call.input = xs ∧ ∀ c ∈ cs, c.output = true

namespace Checked

variable {add : σ → ι → Option (Bool × σ)} {xs ys : List ι} {s t u : σ}

lemma nil (s : σ) : Checked add [] s s := ⟨[], .nil s, rfl, by simp⟩

@[simp] lemma nil_iff : Checked add [] s t ↔ s = t := by
  constructor
  · rintro ⟨cs, hrun, hin, _⟩
    rw [List.map_eq_nil_iff] at hin
    subst hin
    exact Run.nil_iff.mp hrun
  · rintro rfl
    exact nil s

lemma single {x : ι} (h : add s x = some (true, t)) : Checked add [x] s t :=
  ⟨_, .single h, rfl, by simp⟩

lemma append (h : Checked add xs s t) (h' : Checked add ys t u) : Checked add (xs ++ ys) s u := by
  obtain ⟨cs, hrun, hin, hok⟩ := h
  obtain ⟨cs', hrun', hin', hok'⟩ := h'
  refine ⟨cs ++ cs', hrun.append hrun', by rw [List.map_append, hin, hin'], ?_⟩
  intro c hc
  exact (List.mem_append.mp hc).elim (hok c) (hok' c)

lemma cons_iff {x : ι} :
    Checked add (x :: xs) s u ↔ ∃ t, add s x = some (true, t) ∧ Checked add xs t u := by
  constructor
  · rintro ⟨cs, hrun, hin, hok⟩
    rcases cs with _ | ⟨c, cs⟩
    · cases hin
    · obtain ⟨rfl, hstep, hrest⟩ := Run.cons_iff.mp hrun
      rw [List.map_cons, List.cons.injEq] at hin
      obtain ⟨rfl, hin⟩ := hin
      rw [hok c List.mem_cons_self] at hstep
      exact ⟨c.after, hstep, cs, hrest, hin, fun d hd => hok d (List.mem_cons_of_mem _ hd)⟩
  · rintro ⟨t, hstep, h⟩
    exact (single hstep).append h

lemma append_iff : Checked add (xs ++ ys) s u ↔ ∃ t, Checked add xs s t ∧ Checked add ys t u := by
  induction xs generalizing s with
  | nil => simp
  | cons x xs ih =>
    simp only [List.cons_append, cons_iff, ih]
    constructor
    · rintro ⟨r, hx, t, hxs, hys⟩
      exact ⟨t, ⟨r, hx, hxs⟩, hys⟩
    · rintro ⟨t, ⟨r, hx, hxs⟩, hys⟩
      exact ⟨r, hx, t, hxs, hys⟩

lemma single_iff {x : ι} : Checked add [x] s t ↔ add s x = some (true, t) := by
  rw [cons_iff]
  constructor
  · rintro ⟨u, hx, hnil⟩
    rwa [← nil_iff.mp hnil]
  · exact fun hx => ⟨t, hx, .nil t⟩

/-- A checker that goes through these states passes the samples. -/
lemma range {S : ℕ → σ} {sample : ℕ → ι} {n : ℕ}
    (h : ∀ k < n, add (S k) (sample k) = some (true, S (k + 1))) :
    Checked add ((List.range n).map sample) (S 0) (S n) := by
  induction n with
  | zero => exact nil (S 0)
  | succ n ih =>
    rw [List.range_succ, List.map_append]
    exact (ih fun k hk => h k (Nat.lt_succ_of_lt hk)).append (single (h n (Nat.lt_succ_self n)))

/-- Samples that all pass keep an invariant that moves along with them. -/
lemma range_invariant {I : ℕ → σ → Prop} {sample : ℕ → ι} {n : ℕ} {s t : σ}
    (hstep : ∀ k < n, ∀ s t, add s (sample k) = some (true, t) → I k s → I (k + 1) t)
    (h : Checked add ((List.range n).map sample) s t) (hs : I 0 s) : I n t := by
  induction n generalizing t with
  | zero => rwa [← nil_iff.mp h]
  | succ n ih =>
    rw [List.range_succ, List.map_append, append_iff] at h
    obtain ⟨u, hu, hlast⟩ := h
    have hI := ih (fun k hk => hstep k (Nat.lt_succ_of_lt hk)) hu
    exact hstep n (Nat.lt_succ_self n) u t (single_iff.mp hlast) hI

/-- When every sample that passes is a step of a machine that does not fail, samples that all pass
are a run of it. `R` relates the states before sample `k`. -/
lemma foldlM_range {τ κ : Type*} {R : ℕ → σ → τ → Prop} {f : τ → κ → Option τ} {sample : ℕ → ι}
    {g : ℕ → κ} (hstep : ∀ k s s' t, add s (sample k) = some (true, s') → R k s t →
      ∃ t', f t (g k) = some t' ∧ R (k + 1) s' t')
    {n : ℕ} {s s' : σ} {t : τ} (h : Checked add ((List.range n).map sample) s s') (hR : R 0 s t) :
    ∃ t', ((List.range n).map g).foldlM f t = some t' ∧ R n s' t' := by
  induction n generalizing s' with
  | zero =>
    obtain rfl := nil_iff.mp h
    exact ⟨t, rfl, hR⟩
  | succ n ih =>
    rw [List.range_succ, List.map_append, append_iff] at h
    obtain ⟨u, hu, hlast⟩ := h
    obtain ⟨v, hv, hRv⟩ := ih hu
    obtain ⟨t', ht', hRt'⟩ := hstep n u s' v (single_iff.mp hlast) hRv
    refine ⟨t', ?_, hRt'⟩
    rw [List.range_succ, List.map_append, List.foldlM_append, hv]
    simp [ht']

end Checked

/-! ### The loop -/

section Pack

variable (add : σ → ι → Option (Bool × σ)) (sample : ℕ → ι) (bit : ℕ → Bool)

/-- Sample `i * 8 + j` goes to the checker and its bit into the byte. -/
def packBit (i j : ℕ) (s : Byte × σ) : Option (Bool × Byte × σ) :=
  (add s.2 (sample (i * 8 + j))).map fun (ok, t) =>
    (ok, (s.1 <<< 1) ||| (if bit (i * 8 + j) then 1 else 0), t)

/-- Byte `i`, which is not stored when a sample fails. -/
def packByte (i : ℕ) (s : (ℕ → Byte) × σ) : Option (Bool × (ℕ → Byte) × σ) :=
  (forWhile 8 (packBit add sample bit i) (0, s.2)).map fun (ok, byte, t) =>
    (ok, if ok then Function.update s.1 i byte else s.1, t)

variable {add sample bit}

lemma checked_packBit {i j : ℕ} {s s' : Byte × σ}
    (h : packBit add sample bit i j s = some (true, s')) :
    add s.2 (sample (i * 8 + j)) = some (true, s'.2) ∧
      s'.1 = (s.1 <<< 1) ||| (if bit (i * 8 + j) then 1 else 0) := by
  rw [packBit, Option.map_eq_some_iff] at h
  obtain ⟨⟨ok, t⟩, hadd, heq⟩ := h
  cases heq
  exact ⟨hadd, rfl⟩

lemma checked_packByte {i : ℕ} {s s' : (ℕ → Byte) × σ}
    (h : packByte add sample bit i s = some (true, s')) :
    Checked add ((List.range' (i * 8) 8).map sample) s.2 s'.2 ∧
      s'.1 = Function.update s.1 i (packBits (fun j => bit (i * 8 + j)) 8) := by
  rw [packByte, Option.map_eq_some_iff] at h
  obtain ⟨⟨ok, byte, t⟩, hloop, heq⟩ := h
  cases heq
  obtain ⟨hchecked, hbyte⟩ := (forWhile_invariant
    (fun n (u : Byte × σ) => Checked add ((List.range' (i * 8) n).map sample) s.2 u.2 ∧
      u.1 = packBits (fun j => bit (i * 8 + j)) n) (fun _ => True)
    ⟨.nil s.2, rfl⟩
    (by
      intro n _ u u' ⟨hu, hpack⟩ hstep
      obtain ⟨hadd, hbyte⟩ := checked_packBit hstep
      rw [List.range'_1_concat, List.map_append]
      exact ⟨hu.append (.single hadd), by rw [hbyte, hpack, packBits]⟩)
    (fun _ _ _ _ _ _ => trivial) hloop).1 rfl
  exact ⟨hchecked, congrArg (Function.update s.1 i) hbyte⟩

/-- The loop keeps what the checker keeps, whether or not a sample fails. -/
lemma pack_keeps {I : σ → Prop} (hadd : ∀ s x ok t, add s x = some (ok, t) → I s → I t)
    {length : ℕ} {bytes bytes' : ℕ → Byte} {s t : σ} {ok : Bool}
    (h : forWhile length (packByte add sample bit) (bytes, s) = some (ok, bytes', t)) (hs : I s) :
    I t := by
  have hbit : ∀ i j (u u' : Byte × σ) b, packBit add sample bit i j u = some (b, u') →
      I u.2 → I u'.2 := by
    intro i j u u' b hstep hu
    obtain ⟨⟨ok, v⟩, hcall, heq⟩ := Option.map_eq_some_iff.mp hstep
    cases heq
    exact hadd _ _ _ _ hcall hu
  have hbyte : ∀ i (u u' : (ℕ → Byte) × σ) b, packByte add sample bit i u = some (b, u') →
      I u.2 → I u'.2 := by
    intro i u u' b hstep hu
    obtain ⟨⟨ok, byte, v⟩, hloop, heq⟩ := Option.map_eq_some_iff.mp hstep
    cases heq
    exact forWhile_keeps (I := fun w : Byte × σ => I w.2) (fun j _ => hbit i j) hloop hu
  exact forWhile_keeps (I := fun w : (ℕ → Byte) × σ => I w.2) (fun i _ => hbyte i) h hs

/-- The loop writes no other bytes. -/
lemma pack_frame {length : ℕ} {bytes bytes' : ℕ → Byte} {s t : σ} {ok : Bool}
    (h : forWhile length (packByte add sample bit) (bytes, s) = some (ok, bytes', t)) {i : ℕ}
    (hi : length ≤ i) : bytes' i = bytes i := by
  refine forWhile_keeps (I := fun u : (ℕ → Byte) × σ => u.1 i = bytes i) ?_ h rfl
  intro k hk u u' b hstep hu
  obtain ⟨⟨ok, byte, v⟩, _, heq⟩ := Option.map_eq_some_iff.mp hstep
  cases heq
  dsimp only
  split
  · rw [Function.update_of_ne (by omega), hu]
  · exact hu

/-- The samples of the first `n + 1` bytes. -/
lemma range_bytes_succ (n : ℕ) :
    List.range (8 * (n + 1)) = List.range (8 * n) ++ List.range' (n * 8) 8 := by
  rw [List.range_eq_range', List.range_eq_range', Nat.mul_comm n 8, Nat.mul_succ,
    ← List.range'_append_1, Nat.zero_add]

/-- A loop that ends without a failure has given every sample to the checker, and packed the
bits. -/
theorem checked_pack {length : ℕ} {bytes bytes' : ℕ → Byte} {s t : σ}
    (h : forWhile length (packByte add sample bit) (bytes, s) = some (true, bytes', t)) :
    Checked add ((List.range (8 * length)).map sample) s t ∧ Packed bit bytes' length := by
  obtain ⟨hchecked, hpacked⟩ := (forWhile_invariant
    (fun n (u : (ℕ → Byte) × σ) => Checked add ((List.range (8 * n)).map sample) s u.2 ∧
      Packed bit u.1 n) (fun _ => True)
    ⟨.nil s, fun i hi => absurd hi (Nat.not_lt_zero i)⟩
    (by
      intro n _ u u' ⟨hu, hpack⟩ hstep
      obtain ⟨hadd, hbytes⟩ := checked_packByte hstep
      refine ⟨?_, fun i hi => ?_⟩
      · rw [range_bytes_succ, List.map_append]
        exact hu.append hadd
      · rw [hbytes]
        by_cases hin : i = n
        · rw [hin, Function.update_self]
        · rw [Function.update_of_ne hin]
          exact hpack i (by omega))
    (fun _ _ _ _ _ _ => trivial) h).1 rfl
  exact ⟨hchecked, hpacked⟩

/-- Samples that all pass let the loop run to its end. -/
lemma pack_of_checked {length : ℕ} {s t : σ} (bytes : ℕ → Byte)
    (h : Checked add ((List.range (8 * length)).map sample) s t) :
    ∃ bytes', forWhile length (packByte add sample bit) (bytes, s) = some (true, bytes', t) := by
  have hbits : ∀ i n (byte : Byte) (s t : σ), Checked add ((List.range' (i * 8) n).map sample) s t →
      ∃ byte', forWhile n (packBit add sample bit i) (byte, s) = some (true, byte', t) := by
    intro i n byte s t h
    induction n generalizing t with
    | zero =>
      obtain rfl := Checked.nil_iff.mp h
      exact ⟨byte, rfl⟩
    | succ n ih =>
      rw [List.range'_1_concat, List.map_append, Checked.append_iff] at h
      obtain ⟨u, hn, hlast⟩ := h
      obtain ⟨byte', hloop⟩ := ih u hn
      have hadd := Checked.single_iff.mp hlast
      simp only [forWhile, hloop, packBit, hadd, Option.map_some]
      exact ⟨_, rfl⟩
  induction length generalizing t with
  | zero =>
    obtain rfl := Checked.nil_iff.mp h
    exact ⟨bytes, rfl⟩
  | succ length ih =>
    rw [range_bytes_succ, List.map_append, Checked.append_iff] at h
    obtain ⟨u, hn, hlast⟩ := h
    obtain ⟨bytes', hloop⟩ := ih hn
    obtain ⟨byte, hbyte⟩ := hbits length 8 0 u t hlast
    rw [forWhile, hloop]
    dsimp only
    rw [packByte, hbyte]
    exact ⟨_, rfl⟩

end Pack

end Core
