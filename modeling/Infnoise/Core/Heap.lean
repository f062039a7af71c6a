import Mathlib.Data.Finmap
import Mathlib.Data.List.Basic

/-!
# A heap of cells

Finitely many cells are allocated, each at an address. The heap keeps a log of the calls of `malloc`
and `free`. Access to a cell that is not allocated, or to the null pointer, has no result. An
allocator never fails; which free address it returns, and what it leaves there, is its own choice.
-/

namespace Core

variable {α : Type*}

inductive HeapEvent where
  | malloc (a : ℕ)
  | free (a : ℕ)
  deriving DecidableEq

structure Heap (α : Type*) where
  cells : Finmap fun _ : ℕ => α
  log : List HeapEvent

/-- The content of an allocated cell. -/
def Heap.get (h : Heap α) (a : ℕ) : Option α := h.cells.lookup a

/-- The choices of `malloc`, which never fails. -/
structure Allocator (α : Type*) where
  address : Heap α → ℕ
  contents : Heap α → α
  fresh : ∀ h : Heap α, h.get (address h) = none

namespace Heap

def malloc (A : Allocator α) (h : Heap α) : Heap α where
  cells := h.cells.insert (A.address h) (A.contents h)
  log := h.log ++ [.malloc (A.address h)]

/-- Write through a pointer. -/
def modify (h : Heap α) (p : Option ℕ) (f : α → α) : Option (Heap α) :=
  p.bind fun a => (h.get a).map fun x => { h with cells := h.cells.insert a (f x) }

def free (h : Heap α) (a : ℕ) : Option (Heap α) :=
  if (h.get a).isSome then some ⟨h.cells.erase a, h.log ++ [.free a]⟩ else none

lemma cells_eq_of_get_eq {h h' : Heap α} (heq : ∀ a, h.get a = h'.get a) : h.cells = h'.cells :=
  Finmap.ext_lookup heq

section Malloc

variable (A : Allocator α) (h : Heap α)

@[simp] lemma malloc_log : (h.malloc A).log = h.log ++ [.malloc (A.address h)] := rfl

@[simp] lemma get_malloc : (h.malloc A).get (A.address h) = some (A.contents h) :=
  Finmap.lookup_insert _

lemma get_malloc_of_ne {a : ℕ} (ha : a ≠ A.address h) : (h.malloc A).get a = h.get a :=
  Finmap.lookup_insert_of_ne _ ha

/-- A cell that is allocated is not the one that `malloc` returns. -/
lemma ne_address {a : ℕ} {x : α} (ha : h.get a = some x) : a ≠ A.address h := by
  rintro rfl
  rw [A.fresh h] at ha
  cases ha

end Malloc

/-- What a write does: one cell has another content. -/
lemma modify_spec {h : Heap α} {a : ℕ} {x : α} (ha : h.get a = some x) (f : α → α) :
    ∃ h', h.modify (some a) f = some h' ∧ h'.get a = some (f x) ∧
      (∀ b, b ≠ a → h'.get b = h.get b) ∧ h'.log = h.log := by
  refine ⟨{ h with cells := h.cells.insert a (f x) }, ?_, ?_, ?_, rfl⟩
  · simp [modify, ha]
  · exact Finmap.lookup_insert _
  · intro b hb
    exact Finmap.lookup_insert_of_ne _ hb

/-- What `free` does on a cell that is allocated. -/
lemma free_spec {h : Heap α} {a : ℕ} {x : α} (ha : h.get a = some x) :
    ∃ h', h.free a = some h' ∧ h'.get a = none ∧ (∀ b, b ≠ a → h'.get b = h.get b) ∧
      h'.log = h.log ++ [.free a] := by
  refine ⟨⟨h.cells.erase a, h.log ++ [.free a]⟩, ?_, ?_, ?_, rfl⟩
  · simp [free, ha]
  · exact Finmap.lookup_erase _ _
  · intro b hb
    exact Finmap.lookup_erase_ne hb

end Heap

/-! ### Linked lists -/

/-- The cells `l`, in order, from the pointer `p` to the null pointer. -/
inductive Linked (next : α → Option ℕ) (h : Heap α) : Option ℕ → List (ℕ × α) → Prop where
  | nil : Linked next h none []
  | cons {a : ℕ} {x : α} {l : List (ℕ × α)} (ha : h.get a = some x)
      (hl : Linked next h (next x) l) : Linked next h (some a) ((a, x) :: l)

namespace Linked

variable {next : α → Option ℕ} {h h' : Heap α} {p : Option ℕ} {l : List (ℕ × α)}

/-- A list depends on its own cells only. -/
lemma congr (hl : Linked next h p l) (heq : ∀ c ∈ l, h'.get c.1 = h.get c.1) :
    Linked next h' p l := by
  induction hl with
  | nil => exact .nil
  | cons ha _ ih =>
    refine .cons ?_ (ih fun c hc => heq c (List.mem_cons_of_mem _ hc))
    rw [← ha]
    exact heq _ List.mem_cons_self

end Linked

end Core
