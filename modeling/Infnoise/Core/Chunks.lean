import Mathlib.Data.List.Basic
import Mathlib.Data.List.Range
import Mathlib.Tactic.Ring

/-!
# Lists cut into chunks

`chunks m l` are the parts of `l` of length `m`, one after the other. What is left at the end, which
is shorter than `m`, is in none of them.
-/

namespace Core

variable {α β : Type*}

def chunks (m : ℕ) (l : List α) : List (List α) :=
  (List.range (l.length / m)).map fun k => (l.drop (k * m)).take m

@[simp] lemma length_chunks (m : ℕ) (l : List α) : (chunks m l).length = l.length / m := by
  simp [chunks]

lemma chunks_of_lt {m : ℕ} {l : List α} (h : l.length < m) : chunks m l = [] := by
  simp [chunks, Nat.div_eq_of_lt h]

lemma chunks_of_le {m : ℕ} {l : List α} (hm : 0 < m) (h : m ≤ l.length) :
    chunks m l = l.take m :: chunks m (l.drop m) := by
  have hlen : l.length / m = (l.drop m).length / m + 1 := by
    rw [List.length_drop, Nat.div_eq_sub_div hm h]
  rw [chunks, hlen, List.range_succ_eq_map, List.map_cons, List.map_map, Nat.zero_mul,
    List.drop_zero]
  congr 1
  apply List.map_congr_left
  intro k _
  rw [Function.comp_apply, List.drop_drop, Nat.succ_mul, Nat.add_comm]

/-- A list is a chunk and the rest, or shorter than a chunk. -/
lemma chunks_append {m : ℕ} {c l : List α} (hm : 0 < m) (hc : c.length = m) :
    chunks m (c ++ l) = c :: chunks m l := by
  rw [chunks_of_le hm (by simp [hc]), List.take_left' hc, List.drop_left' hc]

lemma length_of_mem_chunks {m : ℕ} {c l : List α} (hc : c ∈ chunks m l) : c.length = m := by
  obtain ⟨k, hk, rfl⟩ := List.mem_map.mp hc
  rw [List.mem_range] at hk
  have hle : (k + 1) * m ≤ l.length :=
    (Nat.mul_le_mul_right m hk).trans (Nat.div_mul_le_self l.length m)
  rw [Nat.succ_mul] at hle
  rw [List.length_take, List.length_drop]
  omega

/-- The chunks together are the list, up to what is left. -/
lemma flatten_chunks (m : ℕ) (l : List α) :
    (chunks m l).flatten = l.take (l.length / m * m) := by
  rw [chunks]
  induction l.length / m with
  | zero => simp
  | succ n ih =>
    rw [List.range_succ, List.map_append, List.flatten_append, ih, Nat.succ_mul, List.take_add]
    simp

/-- Chunks that are put together are found again. -/
lemma chunks_flatten {m : ℕ} (hm : 0 < m) {L : List (List α)} (hL : ∀ c ∈ L, c.length = m) :
    chunks m L.flatten = L := by
  induction L with
  | nil => exact chunks_of_lt hm
  | cons c L ih =>
    rw [List.flatten_cons, chunks_append hm (hL c List.mem_cons_self),
      ih fun d hd => hL d (List.mem_cons_of_mem c hd)]

end Core
