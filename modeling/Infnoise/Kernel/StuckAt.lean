import Infnoise.Kernel.Calls

/-!
# Stuck-at detection is exact

From its 102nd call on, the checker counts how many equal bits came last, in one counter for each
bit. The counters go on in calls that report a fault, so such a call is one whose bit completes a
run of 21 equal bits, all of them counted.
-/

namespace Kernel

open Core

/-! ### Runs of equal bits -/

/-- How many of the first bits of a list are `b`. -/
def streak (b : Bool) : List Bool → ℕ
  | [] => 0
  | c :: cs => if c = b then streak b cs + 1 else 0

lemma streak_le (b : Bool) (bs : List Bool) : streak b bs ≤ bs.length := by
  induction bs with
  | nil => exact le_rfl
  | cons c cs ih =>
    rw [streak, List.length_cons]
    split_ifs <;> omega

/-- A streak is longer than `n` when the first `n + 1` bits are there and equal. -/
lemma lt_streak_iff (b : Bool) (bs : List Bool) (n : ℕ) :
    n < streak b bs ↔ ∀ k ≤ n, bs[k]? = some b := by
  induction bs generalizing n with
  | nil =>
    constructor
    · intro h
      cases h
    · intro h
      cases h 0 (Nat.zero_le n)
  | cons c cs ih =>
    rw [streak]
    split_ifs with hc
    · subst hc
      cases n with
      | zero => simp
      | succ n =>
        rw [Nat.succ_lt_succ_iff, ih]
        constructor
        · intro h k hk
          cases k with
          | zero => rfl
          | succ k => exact h k (Nat.le_of_succ_le_succ hk)
        · exact fun h k hk => h (k + 1) (Nat.succ_le_succ hk)
    · constructor
      · intro h
        cases h
      · intro h
        exact absurd (Option.some.inj (h 0 (Nat.zero_le n))) hc

/-! ### The counters -/

/-- The bits from call 102 on, the last one first. -/
def recent (bs : List Bool) : List Bool := bs.take (bs.length - 101)

lemma recent_cons (b : Bool) {bs : List Bool} (h : 101 ≤ bs.length) :
    recent (b :: bs) = b :: recent bs := by
  rw [recent, recent, List.length_cons, Nat.sub_add_comm h, List.take_succ_cons]

lemma recent_of_le {bs : List Bool} (h : bs.length ≤ 101) : recent bs = [] := by
  rw [recent, Nat.sub_eq_zero_of_le h, List.take_zero]

/-- The run lengths after calls with the bits `bs`, the last one first. -/
structure Health.Streaks (bs : List Bool) (h : Health) : Prop where
  inv : h.Inv
  unused : bs.length ≤ 101 → h.numBitsSampled = bs.length
  used : 101 ≤ bs.length → 101 ≤ h.numBitsSampled
  seqOnes_eq : h.seqOnes = streak true (recent bs)
  seqZeros_eq : h.seqZeros = streak false (recent bs)

lemma infnoiseHealthInit_streaks : infnoiseHealthInit.Streaks [] where
  inv := infnoiseHealthInit_inv
  unused _ := rfl
  used h := absurd h (by decide)
  seqOnes_eq := rfl
  seqZeros_eq := rfl

/-- The stuck-at check counts the bit, and reports a fault when it completes a run of 21. -/
lemma Health.Streaks.check {bs : List Bool} {h : Health} (hs : h.Streaks bs)
    (hlen : bs.length + 1 < 4294967296) (x : Sample) :
    ((h.check x).1 = true ↔ 20 < streak x.bit (recent (x.bit :: bs))) ∧
      (h.check x).2.seqOnes = streak true (recent (x.bit :: bs)) ∧
      (h.check x).2.seqZeros = streak false (recent (x.bit :: bs)) := by
  have hones := hs.seqOnes_eq
  have hzeros := hs.seqZeros_eq
  have hle : ∀ b, streak b (recent bs) ≤ bs.length := fun b =>
    (streak_le b _).trans (List.length_take_le' _ _)
  have hu : ∀ b, u32 (streak b (recent bs) + 1) = streak b (recent bs) + 1 := fun b =>
    u32_of_lt (by have := hle b; omega)
  have hsam : (h.observe x.evenBit x.oddBit x.even).numBitsSampled = h.numBitsSampled := rfl
  rw [Health.check, Health.checkStuck, hsam]
  rcases Nat.lt_or_ge bs.length 101 with hlt | hge
  · -- the first 101 calls do not count
    have hunused := hs.unused hlt.le
    rw [recent_of_le hlt.le] at hones hzeros
    rw [if_neg (by simp only [inmMinSampleSize]; omega),
      recent_of_le (by rw [List.length_cons]; omega)]
    exact ⟨by simp [streak], hones, hzeros⟩
  · have hused := hs.used hge
    rw [if_pos (by simp only [inmMinSampleSize]; omega), recent_cons _ hge]
    cases x.bit with
    | true =>
      refine ⟨?_, ?_, rfl⟩
      · change decide (u32 (h.seqOnes + 1) > 20) = true ↔ _
        rw [hones, hu, decide_eq_true_iff]
        rfl
      · change u32 (h.seqOnes + 1) = _
        rw [hones, hu]
        rfl
    | false =>
      refine ⟨?_, rfl, ?_⟩
      · change decide (u32 (h.seqZeros + 1) > 20) = true ↔ _
        rw [hzeros, hu, decide_eq_true_iff]
        rfl
      · change u32 (h.seqZeros + 1) = _
        rw [hzeros, hu]
        rfl

/-- A call fails exactly when its bit completes a run of 21, and the counters go on either way. -/
lemma Health.Streaks.addBit {bs : List Bool} {h h' : Health} {x : Sample} {ok : Bool}
    (hs : h.Streaks bs) (hlen : bs.length + 1 < 4294967296) (hadd : h.addBit x = some (ok, h')) :
    (ok = false ↔ 20 < streak x.bit (recent (x.bit :: bs))) ∧ h'.Streaks (x.bit :: bs) := by
  obtain ⟨hfault, hones, hzeros⟩ := hs.check hlen x
  have hsampled := hs.inv.numBitsSampled_lt
  have hunused := hs.unused
  have hused := hs.used
  rw [← hfault]
  rcases Health.addBit_outcome hs.inv hadd with ⟨rfl, hcheck, rfl⟩ | ⟨rfl, hp⟩
  · -- a call that fails is past the first 101
    have hge : 101 ≤ bs.length := by
      by_contra hlt
      have hempty : recent (x.bit :: bs) = [] :=
        recent_of_le (by rw [List.length_cons]; omega)
      have := hfault.mp hcheck
      rw [hempty] at this
      exact absurd this (Nat.not_lt_zero _)
    obtain ⟨_, _, _, _, heq⟩ := h.check_eq x
    have hsam : (h.check x).2.numBitsSampled = h.numBitsSampled := by
      rw [heq]
      rfl
    refine ⟨by simp [hcheck], ?_⟩
    exact
      { inv := Health.checkStuck_inv (Health.observe_inv hs.inv _ _ _) _
        unused := fun hle => absurd hle (by rw [List.length_cons]; omega)
        used := fun _ => hsam ▸ hused hge
        seqOnes_eq := hones
        seqZeros_eq := hzeros }
  · obtain ⟨hones', hzeros', hsam, _⟩ := hp.counters hs.inv
    refine ⟨by simp [hp.check_eq], ?_⟩
    exact
      { inv := hp.inv
        unused := fun hle => by
          rw [List.length_cons] at hle ⊢
          have := hunused (by omega)
          rw [hsam, if_neg (by omega), this]
        used := fun hge => by
          rw [List.length_cons] at hge
          rw [hsam]
          rcases Nat.lt_or_ge bs.length 101 with hlt | hge'
          · have := hunused (by omega)
            split_ifs <;> omega
          · have := hused hge'
            split_ifs <;> omega
        seqOnes_eq := hones'.trans hones
        seqZeros_eq := hzeros'.trans hzeros }

/-! ### Runs of calls -/

/-- In a run of calls, each one fails exactly when it completes a run of 21 equal bits. -/
lemma Health.Streaks.run {bs : List Bool} {h h' : Health} {cs : List (Call Health Sample Bool)}
    (hrun : Run Health.addBit h cs h') (hs : h.Streaks bs)
    (hlen : bs.length + cs.length < 4294967296) (i : ℕ) (c : Call Health Sample Bool)
    (hc : cs[i]? = some c) :
    c.output = false ↔ 20 < streak c.input.bit
      (recent (((cs.take (i + 1)).map fun d => d.input.bit).reverse ++ bs)) := by
  induction hrun generalizing bs i with
  | nil => cases hc
  | @cons h h₁ h' x ok cs hadd hrun ih =>
    rw [List.length_cons] at hlen
    obtain ⟨hok, hnext⟩ := hs.addBit (by omega) hadd
    cases i with
    | zero =>
      obtain rfl := Option.some.inj hc
      exact hok
    | succ i =>
      have := ih hnext (by rw [List.length_cons]; omega) i hc
      rwa [List.take_succ_cons, List.map_cons, List.reverse_cons, List.append_assoc]

/-- The bit of call `i`, numbered from 1. -/
def bitOfCall (samples : List Sample) (i : ℕ) : Option Bool := samples[i - 1]?.map Sample.bit

/-- The bit `k` calls before call `i`, in the list of the bits so far. -/
lemma getElem?_history {samples : List Sample} {i k : ℕ} (hi : i ≤ samples.length) (hk : k < i) :
    ((samples.take i).map Sample.bit).reverse[k]? = bitOfCall samples (i - k) := by
  have hlen : ((samples.take i).map Sample.bit).length = i := by
    rw [List.length_map, List.length_take_of_le hi]
  rw [List.getElem?_reverse (by omega), hlen, List.getElem?_map, List.getElem?_take,
    if_pos (by omega), bitOfCall]
  congr 2
  omega

/-- The last 21 bits are recent and equal exactly when call `i` is late enough and the bits of the
calls up to it are equal. -/
lemma lt_streak_history {samples : List Sample} {i : ℕ} (hi : i ≤ samples.length) (hpos : 1 ≤ i)
    {b : Bool} (hb : bitOfCall samples i = some b) :
    20 < streak b (recent ((samples.take i).map Sample.bit).reverse) ↔
      122 ≤ i ∧ ∀ j, i - 20 ≤ j → j ≤ i → bitOfCall samples j = bitOfCall samples i := by
  have hlen : ((samples.take i).map Sample.bit).reverse.length = i := by
    rw [List.length_reverse, List.length_map, List.length_take_of_le hi]
  rw [lt_streak_iff, recent, hlen]
  constructor
  · intro h
    have hlate : 122 ≤ i := by
      have := (List.getElem?_eq_some_iff.mp (h 20 le_rfl)).1
      rw [List.length_take] at this
      omega
    refine ⟨hlate, fun j hj hji => ?_⟩
    have hk := h (i - j) (by omega)
    rw [List.getElem?_take, if_pos (by omega), getElem?_history hi (by omega),
      Nat.sub_sub_self hji] at hk
    rw [hk, hb]
  · rintro ⟨hlate, h⟩ k hk
    rw [List.getElem?_take, if_pos (by omega), getElem?_history hi (by omega),
      h (i - k) (by omega) (by omega), hb]

/-- In every sequence of fewer than `2 ^ 32` calls, call `i` returns `false` exactly when it is at
least the 122nd and the last 21 bits are equal. -/
theorem stuckAt_exact (samples : List Sample) (hlen : samples.length < 4294967296) :
    ∃ cs h, Run Health.addBit infnoiseHealthInit cs h ∧ cs.map Call.input = samples ∧
      ∀ i c, 1 ≤ i → cs[i - 1]? = some c →
        (c.output = false ↔
          122 ≤ i ∧ ∀ j, i - 20 ≤ j → j ≤ i → bitOfCall samples j = bitOfCall samples i) := by
  have hreturns : ∀ h x, Health.Inv h → ∃ r, Health.addBit h x = some r ∧ Health.Inv r.2 :=
    fun _ x hinv => Health.addBit_returns hinv x
  obtain ⟨cs, h, hrun, hin⟩ := Run.exists_of_total hreturns infnoiseHealthInit_inv samples
  refine ⟨cs, h, hrun, hin, fun i c hi hc => ?_⟩
  have hlen' : cs.length = samples.length := by rw [← hin, List.length_map]
  have hlt : i - 1 < cs.length := (List.getElem?_eq_some_iff.mp hc).1
  have hb : bitOfCall samples i = some c.input.bit := by
    rw [bitOfCall, ← hin, List.getElem?_map, hc]
    rfl
  have hhistory : (cs.take (i - 1 + 1)).map (fun d => d.input.bit)
      = (samples.take i).map Sample.bit := by
    rw [Nat.sub_add_cancel hi, ← hin, ← List.map_take, List.map_map]
    rfl
  rw [infnoiseHealthInit_streaks.run hrun (by rw [List.length_nil]; omega) _ c hc, hhistory,
    List.append_nil]
  exact lt_streak_history (by omega) hi hb

/-- A stuck source is reported at its 122nd bit. -/
theorem stuckAt_exact_ones :
    ∃ cs h, Run Health.addBit infnoiseHealthInit cs h ∧
      cs.map Call.input = List.replicate 122 ⟨true, true, true⟩ ∧
      ∃ c, cs[121]? = some c ∧ c.output = false := by
  obtain ⟨cs, h, hrun, hin, hexact⟩ := stuckAt_exact (List.replicate 122 ⟨true, true, true⟩)
    (by rw [List.length_replicate]; norm_num)
  have hlen : cs.length = 122 := by rw [← List.length_map, hin, List.length_replicate]
  have hc : cs[121]? = some cs[121] := List.getElem?_eq_getElem (by omega)
  refine ⟨cs, h, hrun, hin, _, hc, (hexact 122 _ (by norm_num) hc).mpr ⟨le_rfl, ?_⟩⟩
  intro j hj hj'
  rw [bitOfCall, bitOfCall, List.getElem?_replicate, List.getElem?_replicate, if_pos (by omega),
    if_pos (by norm_num)]

end Kernel
