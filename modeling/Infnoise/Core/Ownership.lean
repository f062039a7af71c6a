import Infnoise.Core.Heap
import Mathlib.Data.Finset.Lattice.Fold
import Mathlib.Order.Lattice.Nat
import Mathlib.Data.Multiset.MapFold
import Mathlib.Data.Multiset.UnionInter

/-!
# Who owns the cells of a heap

A heap is owned by cells when they are just the cells that are allocated. Ownership is a multiset:
the part that a function does not name is left as it is. Allocation can fail here, and `free` takes
the null pointer; a cell is of a kind, and one of another kind cannot be freed.
-/

namespace Core

variable {α : Type*}

/-- The cell that a pointer points to. -/
def cell (x : α) (p : Option ℕ) : Multiset (ℕ × α) :=
  match p with
  | none => 0
  | some a => {(a, x)}

@[simp] lemma cell_none (x : α) : cell x none = 0 := rfl

@[simp] lemma cell_some (x : α) (a : ℕ) : cell x (some a) = {(a, x)} := rfl

/-- An allocator of new addresses. -/
def Allocator.ascending (x : α) : Allocator α where
  address h := h.cells.keys.sup id + 1
  contents _ := x
  fresh h := by
    rw [Heap.get, Finmap.lookup_eq_none, ← Finmap.mem_keys]
    intro hmem
    have hle := Finset.le_sup (f := id) hmem
    exact Nat.not_succ_le_self _ hle

namespace Heap

/-- An allocation, which may fail. -/
def allocate (A : Allocator α) (x : α) (succeeds : Bool) (h : Heap α) : Option ℕ × Heap α :=
  if succeeds then (some (A.address h), h.malloc { A with contents := fun _ => x }) else (none, h)

/-- `free` for cells of a kind: it does nothing for the null pointer, and has no result for any
other pointer that is not to such a cell. -/
def release [DecidableEq α] (x : α) (p : Option ℕ) (h : Heap α) : Option (Heap α) :=
  match p with
  | none => some h
  | some a => if h.get a = some x then h.free a else none

/-- The cells that are allocated. -/
structure Owns (h : Heap α) (m : Multiset (ℕ × α)) : Prop where
  nodup : (m.map Prod.fst).Nodup
  get_iff : ∀ a x, h.get a = some x ↔ (a, x) ∈ m

variable {h : Heap α} {m : Multiset (ℕ × α)}

lemma owns_empty (log : List HeapEvent) : (⟨∅, log⟩ : Heap α).Owns 0 where
  nodup := by simp
  get_iff a x := by simp [get]

/-- Heaps that are owned by the same cells have the same cells. -/
lemma Owns.get_eq {h' : Heap α} (ho : h.Owns m) (ho' : h'.Owns m) (a : ℕ) : h.get a = h'.get a := by
  apply Option.ext
  intro x
  rw [ho.get_iff, ho'.get_iff]

/-- Allocation adds the cell, if it succeeds. -/
lemma Owns.allocate (ho : h.Owns m) (A : Allocator α) (x : α) (succeeds : Bool) :
    (h.allocate A x succeeds).2.Owns (cell x (h.allocate A x succeeds).1 + m) := by
  rw [Heap.allocate]
  split_ifs
  · have hfresh : ∀ y, (A.address h, y) ∉ m := by
      intro y hmem
      have hget := (ho.get_iff _ y).mpr hmem
      rw [A.fresh h] at hget
      cases hget
    rw [cell_some, Multiset.singleton_add]
    constructor
    · rw [Multiset.map_cons, Multiset.nodup_cons]
      refine ⟨fun hmem => ?_, ho.nodup⟩
      obtain ⟨⟨a, y⟩, hmem, rfl⟩ := Multiset.mem_map.mp hmem
      exact hfresh y hmem
    · intro a y
      rw [Multiset.mem_cons]
      by_cases ha : a = A.address h
      · subst ha
        have hget : (h.malloc { A with contents := fun _ => x }).get (A.address h) = some x :=
          get_malloc { A with contents := fun _ => x } h
        simp [hget, hfresh, eq_comm]
      · have hget : (h.malloc { A with contents := fun _ => x }).get a = h.get a :=
          get_malloc_of_ne { A with contents := fun _ => x } h ha
        rw [hget, ho.get_iff]
        simp [ha]
  · simpa using ho

lemma Owns.of_allocate (ho : h.Owns m) {A : Allocator α} {x : α} {succeeds : Bool} {p : Option ℕ}
    {h' : Heap α} (heq : h.allocate A x succeeds = (p, h')) : h'.Owns (cell x p + m) := by
  have hcells := ho.allocate A x succeeds
  rwa [heq] at hcells

/-- A cell that is owned can be freed once. -/
lemma Owns.release [DecidableEq α] {x : α} {p : Option ℕ} (ho : h.Owns (cell x p + m)) :
    ∃ h', h.release x p = some h' ∧ h'.Owns m := by
  rcases p with _ | a
  · exact ⟨h, rfl, by simpa using ho⟩
  · rw [cell_some, Multiset.singleton_add] at ho
    have hget : h.get a = some x := (ho.get_iff a x).mpr (Multiset.mem_cons_self _ _)
    obtain ⟨hnodup, hrest⟩ := Multiset.nodup_cons.mp (Multiset.map_cons Prod.fst (a, x) m ▸ ho.nodup)
    obtain ⟨h', hfree, hnone, hsame, _⟩ := free_spec hget
    refine ⟨h', ?_, hrest, fun b y => ?_⟩
    · rw [Heap.release, if_pos hget, hfree]
    · by_cases hb : b = a
      · subst hb
        have hmem : (b, y) ∉ m := fun hmem => hnodup (Multiset.mem_map.mpr ⟨_, hmem, rfl⟩)
        simp [hnone, hmem]
      · rw [hsame b hb, ho.get_iff, Multiset.mem_cons]
        simp [hb]

end Heap

end Core
