import Infnoise.Core.Mixing
import Infnoise.Keccak.Sources
import Mathlib.Algebra.Ring.BooleanRing
import Mathlib.Data.Fintype.EquivFin
import Mathlib.Data.Fintype.Pi
import Mathlib.Data.ZMod.Basic

/-!
# Whitening loses nothing

Every step of the permutation can be undone, so the permutation is a bijection of the states, and
an absorption can be undone in its block as well as in its state. Theta is the step where this
takes an argument: it adds the parities of two other columns to each bit, and the map this makes
on the parities has a power that is the identity.
-/

namespace Kernel

open Core

/-! ### Theta -/

/-- The parities of the columns, bit by bit. -/
def parity (state : Words) (p : ZMod 5 × ZMod 64) : Bool :=
  (columnParity state p.1.val).getLsbD p.2.val

lemma columnParity_theta (state : Words) {x : ℕ} (hx : x < 5) :
    columnParity (keccakTheta state) x = columnParity state x ^^^ thetaEffect state x := by
  have hlane : ∀ y, (keccakTheta state)[keccakIndex x y] =
      state[keccakIndex x y] ^^^ thetaEffect state x := by
    intro y
    have hmod : (keccakIndex x y).val % 5 = x := by
      simp only [keccakIndex]
      omega
    rw [keccakTheta_getElem, hmod]
  have hodd : ∀ a b c d e f : Bool,
      (((((a ^^ f) ^^ (b ^^ f)) ^^ (c ^^ f)) ^^ (d ^^ f)) ^^ (e ^^ f)) =
        (((((a ^^ b) ^^ c) ^^ d) ^^ e) ^^ f) := by
    decide
  rw [columnParity_eq, columnParity_eq, hlane, hlane, hlane, hlane, hlane]
  apply BitVec.eq_of_getLsbD_eq
  intro z _
  simp only [BitVec.getLsbD_xor]
  apply hodd

/-- On the parities theta is a sum of shifted copies. -/
lemma parity_theta (state : Words) :
    parity (keccakTheta state) = mix (1, -1) (4, 0) (parity state) := by
  have hx1 : ∀ x : ZMod 5, (x + 1).val = (x.val + 1) % 5 := by decide
  have hx4 : ∀ x : ZMod 5, (x + 4).val = (x.val + 4) % 5 := by decide
  have hz : ∀ z : ZMod 64, (z + -1).val = (z.val + 64 - 1 % 64) % 64 := by decide
  funext ⟨x, z⟩
  change _ = ((parity state (x, z) ^^ parity state (x + 1, z + -1)) ^^ parity state (x + 4, z + 0))
  simp only [parity, hx1, hx4, hz, add_zero]
  rw [columnParity_theta state (ZMod.val_lt x), BitVec.getLsbD_xor, thetaEffect,
    BitVec.getLsbD_xor, keccakRol64_getLsbD _ _ (ZMod.val_lt z), Bool.xor_assoc]

/-- The map theta makes on the parities has order 192. -/
lemma mix_theta_injective :
    Function.Injective (mix ((1, -1) : ZMod 5 × ZMod 64) (4, 0) : AddMonoid.End (_ → Bool)) := by
  have hBool : ∀ b : Bool, b + b = 0 := by decide
  have hpow : (mix ((1, -1) : ZMod 5 × ZMod 64) (4, 0) ^ (2 ^ 6 * 3) :
      AddMonoid.End (_ → Bool)) = 1 := by
    rw [pow_mul, mix_pow_two_pow hBool]
    exact mix_cube hBool (g := ((4, 0) : ZMod 5 × ZMod 64)) (by decide)
  exact injective_of_pow_eq_one (by norm_num) hpow

lemma keccakTheta_injective : Function.Injective keccakTheta := by
  intro state state' heq
  have hparity : parity state = parity state' := by
    apply mix_theta_injective
    rw [← parity_theta, ← parity_theta, heq]
  have hcolumn : ∀ x < 5, columnParity state x = columnParity state' x := by
    intro x hx
    apply BitVec.eq_of_getLsbD_eq
    intro z hz
    have hbit := congrFun hparity ((x : ZMod 5), (z : ZMod 64))
    simpa only [parity, ZMod.val_natCast_of_lt hx, ZMod.val_natCast_of_lt hz] using hbit
  have heffect : ∀ x, thetaEffect state x = thetaEffect state' x := by
    intro x
    rw [thetaEffect, thetaEffect, hcolumn _ (Nat.mod_lt _ (by decide)),
      hcolumn _ (Nat.mod_lt _ (by decide))]
  apply words_ext
  intro k
  have hk := words_getElem_congr heq k
  rw [keccakTheta_getElem, keccakTheta_getElem, heffect] at hk
  exact (BitVec.xor_left_inj _).mp hk

/-! ### Rho and pi -/

lemma keccakRol64_injective (n : ℕ) : Function.Injective fun x : Lane => keccakRol64 x n := by
  intro x y heq
  apply BitVec.eq_of_getLsbD_eq
  intro i hi
  have hbit := congrArg (fun w : Lane => w.getLsbD ((i + n % 64) % 64)) heq
  have hlt : (i + n % 64) % 64 < 64 := Nat.mod_lt _ (by decide)
  have hback : ((i + n % 64) % 64 + 64 - n % 64) % 64 = i := by omega
  simp only [keccakRol64_getLsbD _ _ hlt, hback] at hbit
  exact hbit

lemma keccakRho_injective : Function.Injective keccakRho := by
  intro state state' heq
  apply words_ext
  intro k
  have hk := words_getElem_congr heq k
  rw [keccakRho_getElem, keccakRho_getElem] at hk
  exact keccakRol64_injective _ hk

lemma keccakPi_injective : Function.Injective keccakPi := by
  intro state state' heq
  apply words_ext
  intro k
  rw [← keccakPi_getElem state, ← keccakPi_getElem state', heq]

/-! ### Chi -/

/-- Chi can be undone on a row of five bits. -/
lemma chi_bits : ∀ a b c d e a' b' c' d' e' : Bool,
    (a ^^ (!b && c)) = (a' ^^ (!b' && c')) → (b ^^ (!c && d)) = (b' ^^ (!c' && d')) →
    (c ^^ (!d && e)) = (c' ^^ (!d' && e')) → (d ^^ (!e && a)) = (d' ^^ (!e' && a')) →
    (e ^^ (!a && b)) = (e' ^^ (!a' && b')) →
    a = a' ∧ b = b' ∧ c = c' ∧ d = d' ∧ e = e' := by
  decide

lemma keccakChi_injective : Function.Injective keccakChi := by
  intro state state' heq
  have hrow : ∀ x < 5, ∀ y < 5, chiRow state x y = chiRow state' x y := by
    intro x hx y hy
    have hk := words_getElem_congr heq (keccakIndex x y)
    rw [keccakChi_getElem, keccakChi_getElem] at hk
    have hmod : (keccakIndex x y).val % 5 = x := by
      simp only [keccakIndex]
      omega
    have hdiv : (keccakIndex x y).val / 5 = y := by
      simp only [keccakIndex]
      omega
    rwa [hmod, hdiv] at hk
  have hbits : ∀ y < 5, ∀ z, ∀ x < 5,
      state[keccakIndex x y].getLsbD z = state'[keccakIndex x y].getLsbD z := by
    intro y hy z x hx
    by_cases hz : z < 64
    · have hbit : ∀ x < 5, (chiRow state x y).getLsbD z = (chiRow state' x y).getLsbD z := by
        intro x hx
        rw [hrow x hx y hy]
      have h0 := hbit 0 (by decide)
      have h1 := hbit 1 (by decide)
      have h2 := hbit 2 (by decide)
      have h3 := hbit 3 (by decide)
      have h4 := hbit 4 (by decide)
      -- the lanes after the last of a row are its first
      have h5 : keccakIndex 5 y = keccakIndex 0 y := rfl
      have h6 : keccakIndex 6 y = keccakIndex 1 y := rfl
      simp only [chiRow, BitVec.getLsbD_xor, BitVec.getLsbD_and, BitVec.getLsbD_not, hz,
        decide_true, Bool.true_and, Nat.reduceAdd, h5, h6] at h0 h1 h2 h3 h4
      obtain ⟨e0, e1, e2, e3, e4⟩ := chi_bits _ _ _ _ _ _ _ _ _ _ h0 h1 h2 h3 h4
      obtain rfl | rfl | rfl | rfl | rfl : x = 0 ∨ x = 1 ∨ x = 2 ∨ x = 3 ∨ x = 4 := by omega
      · exact e0
      · exact e1
      · exact e2
      · exact e3
      · exact e4
    · rw [BitVec.getLsbD_of_ge _ _ (not_lt.mp hz), BitVec.getLsbD_of_ge _ _ (not_lt.mp hz)]
  apply words_ext
  intro k
  rw [← keccakIndex_coords k]
  apply BitVec.eq_of_getLsbD_eq
  intro z _
  exact hbits (k.val / 5) (by omega) z (k.val % 5) (by omega)

/-! ### Iota and the rounds -/

lemma keccakIota_injective (round : ℕ) : Function.Injective fun s => keccakIota s round := by
  intro state state' heq
  apply words_ext
  intro k
  have hk := words_getElem_congr heq k
  simp only [keccakIota_getElem] at hk
  split at hk
  · exact (BitVec.xor_left_inj _).mp hk
  · exact hk

lemma keccakPermutationOnWords_injective : Function.Injective keccakPermutationOnWords := by
  apply forLoop_injective
  intro i _ state state' heq
  exact keccakTheta_injective (keccakRho_injective (keccakPi_injective (keccakChi_injective
    (keccakIota_injective i heq))))

/-! ### Bytes -/

lemma keccakBytesToWords_injective : Function.Injective keccakBytesToWords := by
  intro bytes bytes' heq
  apply Vector.ext
  intro i hi
  apply BitVec.eq_of_getLsbD_eq
  intro n hn
  have hbit := congrArg (fun w : Lane => w.getLsbD (8 * (i % 8) + n))
    (words_getElem_congr heq ⟨i / 8, by omega⟩)
  have hbyte : i / 8 * 8 + (8 * (i % 8) + n) / 8 = i := by omega
  have hmod : (8 * (i % 8) + n) % 8 = n := by omega
  simp only [keccakBytesToWords_getLsbD _ _ (show 8 * (i % 8) + n < 64 by omega), hbyte, hmod,
    Nat.mod_eq_of_lt hi] at hbit
  exact hbit

lemma keccakWordsToBytes_injective : Function.Injective keccakWordsToBytes := by
  intro words words' heq
  apply words_ext
  intro k
  apply BitVec.eq_of_getLsbD_eq
  intro n hn
  have hlt : 8 * k.val + n / 8 < 200 := by omega
  have hbytes : (keccakWordsToBytes words)[(⟨8 * k.val + n / 8, hlt⟩ : Fin 200)] =
      (keccakWordsToBytes words')[(⟨8 * k.val + n / 8, hlt⟩ : Fin 200)] := by
    rw [heq]
  have hbit := congrArg (fun b : Byte => b.getLsbD (n % 8)) hbytes
  have hdiv : (8 * k.val + n / 8) / 8 = k.val := by omega
  have hmod : 8 * ((8 * k.val + n / 8) % 8) + n % 8 = n := by omega
  simp only [keccakWordsToBytes_getLsbD _ _ (show n % 8 < 8 by omega), hdiv, hmod] at hbit
  exact hbit

/-! ### The sponge -/

lemma infnoiseKeccakPermutation_injective : Function.Injective infnoiseKeccakPermutation := by
  intro keccak keccak' heq
  exact keccakBytesToWords_injective (keccakPermutationOnWords_injective
    (keccakWordsToBytes_injective heq))

/-- There are finitely many vectors of bytes or lanes, so an injection of them is a bijection. -/
lemma bijective_of_injective {w n : ℕ} {f : Vector (BitVec w) n → Vector (BitVec w) n}
    (hf : Function.Injective f) : Function.Bijective f := by
  have hfin : Finite (Vector (BitVec w) n) := by
    refine Finite.of_injective (fun (v : Vector (BitVec w) n) (i : Fin n) => v[i].toFin) ?_
    intro v v' heq
    apply Vector.ext
    intro i hi
    exact BitVec.toFin_inj.mp (congrFun heq ⟨i, hi⟩)
  exact Finite.injective_iff_bijective.mp hf

/-- The states that two absorptions permute are equal when their results are. -/
lemma xored_eq_of_absorb {keccak keccak' : KeccakState} {data data' : ℕ → Byte} {lanes : ℕ}
    (h : infnoiseKeccakAbsorb keccak data lanes = infnoiseKeccakAbsorb keccak' data' lanes)
    {i : ℕ} (hi : i < 200) :
    (if i < lanes * 8 then keccak[i] ^^^ data i else keccak[i]) =
      if i < lanes * 8 then keccak'[i] ^^^ data' i else keccak'[i] := by
  have hbyte := congrArg (fun v : KeccakState => v[i]) (infnoiseKeccakPermutation_injective h)
  simpa only [Fin.getElem_fin, Vector.getElem_ofFn] using hbyte

/-- The permutation and each of its steps are bijections. An absorption of the eight lanes of a
block loses neither the block nor the state. -/
theorem whitening_lossless :
    (Function.Bijective keccakTheta ∧ Function.Bijective keccakRho ∧ Function.Bijective keccakPi ∧
      Function.Bijective keccakChi ∧ ∀ round, Function.Bijective fun s => keccakIota s round) ∧
    Function.Bijective infnoiseKeccakPermutation ∧
    (∀ (keccak : KeccakState) (block block' : ℕ → Byte),
      infnoiseKeccakAbsorb keccak block 8 = infnoiseKeccakAbsorb keccak block' 8 →
        ∀ i < 64, block i = block' i) ∧
    ∀ (keccak keccak' : KeccakState) (block : ℕ → Byte),
      infnoiseKeccakAbsorb keccak block 8 = infnoiseKeccakAbsorb keccak' block 8 →
        keccak = keccak' := by
  refine ⟨⟨bijective_of_injective keccakTheta_injective,
    bijective_of_injective keccakRho_injective, bijective_of_injective keccakPi_injective,
    bijective_of_injective keccakChi_injective,
    fun round => bijective_of_injective (keccakIota_injective round)⟩,
    bijective_of_injective infnoiseKeccakPermutation_injective, ?_, ?_⟩
  · intro keccak block block' heq i hi
    have hbyte := xored_eq_of_absorb heq (by omega : i < 200)
    rw [if_pos hi, if_pos hi] at hbyte
    exact (BitVec.xor_right_inj _).mp hbyte
  · intro keccak keccak' block heq
    apply Vector.ext
    intro i hi
    have hbyte := xored_eq_of_absorb heq hi
    split at hbyte
    · exact (BitVec.xor_left_inj _).mp hbyte
    · exact hbyte

end Kernel
