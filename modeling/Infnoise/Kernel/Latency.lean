import Infnoise.Kernel.Predictable

/-!
# How soon a predictable source is cut off

The estimate is a ratio of two counters that are halved together when the window is full. A source
that adds next to no entropy over 5000 samples takes the ratio from anywhere in the accepted range
below the range, wherever in the window it begins.
-/

namespace Kernel

open Core

/-- What a run of calls that return `true` does to the counters: they go up, or were halved once on
the way. -/
lemma run_counters {h h' : Health} {cs : List (Call Health Sample Bool)}
    (hrun : Run Health.addBit h cs h') (hinv : h.Inv) (htrue : ∀ c ∈ cs, c.output = true)
    (hlen : cs.length ≤ 40000) :
    h'.Inv ∧
      ((h.numBitsSampled + cs.length < 80000 ∧
          h'.numBitsSampled = h.numBitsSampled + cs.length ∧
          h'.numBitsOfEntropy = h.numBitsOfEntropy + bitsOfRun cs) ∨
        (80000 ≤ h.numBitsSampled + cs.length ∧
          h'.numBitsSampled + 40000 = h.numBitsSampled + cs.length ∧
          2 * h'.numBitsOfEntropy ≤ h.numBitsOfEntropy + 2 * bitsOfRun cs)) := by
  induction hrun with
  | nil h =>
    have hs := hinv.numBitsSampled_lt
    exact ⟨hinv, .inl ⟨hs, rfl, rfl⟩⟩
  | @cons h h₁ h' x ok cs hadd hrun ih =>
    rw [List.length_cons] at hlen
    obtain rfl : ok = true := htrue _ List.mem_cons_self
    have hbits : bitsOfRun (⟨h, x, true, h₁⟩ :: cs) = h.bitsCounted x + bitsOfRun cs := by
      rw [bitsOfRun, List.map_cons, List.sum_cons, bitsOfRun]
    rcases Health.addBit_outcome hinv hadd with ⟨hfalse, _⟩ | ⟨_, hp⟩
    · cases hfalse
    obtain ⟨_, _, hsam, hent⟩ := hp.counters hinv
    obtain ⟨hinv', hcases⟩ :=
      ih hp.inv (fun c hc => htrue c (List.mem_cons_of_mem _ hc)) (by omega)
    rw [hsam, hent] at hcases
    rw [hbits, List.length_cons]
    refine ⟨hinv', ?_⟩
    have hs := hinv.numBitsSampled_lt
    simp only [inmMinData] at hs
    split_ifs at hcases with hfull
    · -- the window fills here, and not again
      rcases hcases with ⟨_, hsam', hent'⟩ | ⟨hfull', _⟩
      · right
        omega
      · omega
    · rcases hcases with ⟨hfull', hsam', hent'⟩ | ⟨hfull', hsam', hent'⟩
      · left
        omega
      · right
        omega

/-- From every reachable state in which the verdict holds, 5000 calls that all return `true` and
count at most 100 bits of entropy lead to a state in which it does not hold. -/
theorem fault_latency {h h' : Health} {cs : List (Call Health Sample Bool)}
    (hreach : Reachable Health.addBit infnoiseHealthInit h) (hok : infnoiseHealthOk h = true)
    (hrun : Run Health.addBit h cs h') (hlen : cs.length = 5000)
    (htrue : ∀ c ∈ cs, c.output = true) (hbits : bitsOfRun cs ≤ 100) :
    infnoiseHealthOk h' = false := by
  have hinv : h.Inv := hreach.invariant_of_total (fun _ x hI => Health.addBit_returns hI x)
    infnoiseHealthInit_inv
  have hpos := infnoiseHealthOk_sampled hok
  obtain ⟨_, _, hhigh⟩ := (hinv.ok_iff hpos).mp hok
  have hs := hinv.numBitsSampled_lt
  simp only [inmMinData] at hs
  obtain ⟨hinv', hcases⟩ := run_counters hrun hinv htrue (by omega)
  rw [hlen] at hcases
  by_contra hok'
  rw [Bool.not_eq_false] at hok'
  obtain ⟨_, hlow, _⟩ := (hinv'.ok_iff (infnoiseHealthOk_sampled hok')).mp hok'
  rcases hcases with ⟨_, hsam, hent⟩ | ⟨_, hsam, hent⟩
  · omega
  · omega

/-- An accepted register whose bits alternate from then on. -/
theorem fault_latency_alternating : ∃ h cs h', Reachable Health.addBit infnoiseHealthInit h ∧
    infnoiseHealthOk h = true ∧ Run Health.addBit h cs h' ∧ cs.length = 5000 ∧
    infnoiseHealthOk h' = false := by
  obtain ⟨t, ht, ht', hok⟩ := exists_accepted
  have hreach := exists_run_fedBits (n := t) (by omega)
  have hfed := (infnoiseHealthInit_fed.bits rfl (k := t) (by omega)).1
  rw [Nat.zero_add] at hfed
  obtain ⟨cs, h', hrun, hlen, htrue, hbits⟩ := hfed.alternating_bits ht (by omega)
  exact ⟨_, cs, h', hreach, hok, hrun, hlen, fault_latency hreach hok hrun hlen htrue hbits⟩

end Kernel
