import Infnoise.Core.Machine
import Mathlib.Data.List.Nodup
import Mathlib.Data.List.Range
import Mathlib.Data.Prod.Basic

/-!
# What is read from a permuted state

The state of a sponge is permuted and read in turn. Nothing is given twice, and the capacity is
never given at all, when at most one read, of the rate at most, comes between two permutations.
-/

namespace Core

/-- What happens to a state: it is permuted, or its first `n` places are read. -/
inductive Tap where
  | permute
  | read (n : ℕ)
  deriving DecidableEq

namespace Tap

/-- The places that are read: how often the state has been permuted before, and the index. -/
def places : ℕ → List Tap → List (ℕ × ℕ)
  | _, [] => []
  | epoch, .permute :: taps => places (epoch + 1) taps
  | epoch, .read n :: taps => (List.range n).map (Prod.mk epoch) ++ places epoch taps

/-- Every read is of at most `rate` places, of a state that is fresh: not read since it was
permuted. -/
def Kept (rate : ℕ) : Bool → List Tap → Prop
  | _, [] => True
  | _, .permute :: taps => Kept rate true taps
  | fresh, .read n :: taps => fresh = true ∧ n ≤ rate ∧ Kept rate false taps

/-- Whether the state is fresh at the end. -/
def freshAfter : Bool → List Tap → Bool
  | fresh, [] => fresh
  | _, .permute :: taps => freshAfter true taps
  | _, .read _ :: taps => freshAfter false taps

variable {rate : ℕ} {fresh : Bool} {taps taps' : List Tap}

lemma kept_append :
    Kept rate fresh (taps ++ taps') ↔
      Kept rate fresh taps ∧ Kept rate (freshAfter fresh taps) taps' := by
  induction taps generalizing fresh with
  | nil => simp [Kept, freshAfter]
  | cons tap taps ih =>
    cases tap with
    | permute => exact ih
    | read n =>
      rw [List.cons_append, Kept, Kept, freshAfter, ih]
      tauto

/-- Between two permutations there is at most one read, of the rate at most. -/
lemma Kept.segment (h : Kept rate fresh taps) (hseg : .permute ∉ taps) :
    taps = [] ∨ fresh = true ∧ ∃ n ≤ rate, taps = [.read n] := by
  cases taps with
  | nil => exact .inl rfl
  | cons tap taps =>
    cases tap with
    | permute => exact absurd List.mem_cons_self hseg
    | read n =>
      obtain ⟨hfresh, hn, hrest⟩ := h
      refine .inr ⟨hfresh, n, hn, ?_⟩
      cases taps with
      | nil => rfl
      | cons tap' taps =>
        cases tap' with
        | permute => exact absurd (List.mem_cons_of_mem _ List.mem_cons_self) hseg
        | read m => cases hrest.1

lemma Kept.of_mem_places (h : Kept rate fresh taps) {epoch : ℕ} {p : ℕ × ℕ}
    (hp : p ∈ places epoch taps) :
    p.2 < rate ∧ (if fresh then epoch ≤ p.1 else epoch < p.1) := by
  induction taps generalizing fresh epoch with
  | nil => cases hp
  | cons tap taps ih =>
    cases tap with
    | permute =>
      obtain ⟨hrate, hepoch⟩ := ih h hp
      rw [if_pos rfl] at hepoch
      refine ⟨hrate, ?_⟩
      split_ifs <;> omega
    | read n =>
      obtain ⟨rfl, hn, hrest⟩ := h
      rcases List.mem_append.mp hp with hp | hp
      · obtain ⟨i, hi, rfl⟩ := List.mem_map.mp hp
        rw [List.mem_range] at hi
        exact ⟨hi.trans_le hn, le_rfl⟩
      · obtain ⟨hrate, hepoch⟩ := ih hrest hp
        exact ⟨hrate, le_of_lt hepoch⟩

/-- No place is read twice. -/
lemma Kept.nodup_places (h : Kept rate fresh taps) (epoch : ℕ) : (places epoch taps).Nodup := by
  induction taps generalizing fresh epoch with
  | nil => exact List.nodup_nil
  | cons tap taps ih =>
    cases tap with
    | permute => exact ih h _
    | read n =>
      obtain ⟨rfl, hn, hrest⟩ := h
      refine List.Nodup.append (List.nodup_range.map (Prod.mk_right_injective epoch)) (ih hrest _) ?_
      intro p hp hp'
      obtain ⟨i, -, rfl⟩ := List.mem_map.mp hp
      exact absurd (hrest.of_mem_places hp').2 (lt_irrefl epoch)

/-- Pieces that keep the law on their own keep it together. -/
lemma Kept.flatMap {α : Type*} {f : α → List Tap} {l : List α}
    (h : ∀ a ∈ l, ∀ fresh, Kept rate fresh (f a)) (fresh : Bool) : Kept rate fresh (l.flatMap f) := by
  induction l generalizing fresh with
  | nil => exact trivial
  | cons a l ih =>
    rw [List.flatMap_cons, kept_append]
    exact ⟨h a List.mem_cons_self fresh, ih (fun b hb => h b (List.mem_cons_of_mem _ hb)) _⟩

/-! ### Runs -/

/-- A machine whose calls keep the law, when what they need to know of a fresh state is kept, keeps
the law along its runs. -/
lemma Kept.run {σ ι ο : Type*} {step : σ → ι → Option (ο × σ)} {log : Call σ ι ο → List Tap}
    {I : Bool → σ → Prop} {P : Call σ ι ο → Prop}
    (hstep : ∀ (c : Call σ ι ο) b, step c.before c.input = some (c.output, c.after) → P c →
      I b c.before → Kept rate b (log c) ∧ I (freshAfter b (log c)) c.after)
    {s s' : σ} {cs : List (Call σ ι ο)} (h : Run step s cs s') (hP : ∀ c ∈ cs, P c)
    (hs : I fresh s) : Kept rate fresh (cs.flatMap log) := by
  induction h generalizing fresh with
  | nil => exact trivial
  | cons hcall _ ih =>
    obtain ⟨hkept, hs'⟩ := hstep ⟨_, _, _, _⟩ fresh hcall (hP _ List.mem_cons_self) hs
    rw [List.flatMap_cons, kept_append]
    exact ⟨hkept, ih (fun c hc => hP c (List.mem_cons_of_mem _ hc)) hs'⟩

end Tap

end Core
