import Infnoise.Core.Loop
import Infnoise.Core.Word
import Mathlib.Data.Nat.Digits.Lemmas

/-!
# Structures in memory

The members of a structure are integers. A compiler places each at the next multiple of its
alignment, which depends on its size and on the machine. Members that are placed at multiples of
their sizes anyway are where every compiler places them.
-/

namespace Core

/-! ### Places -/

/-- The first multiple of `a` that is not below `n`. -/
def alignUp (n a : ℕ) : ℕ := n + (a - n % a) % a

lemma le_alignUp (n a : ℕ) : n ≤ alignUp n a := Nat.le_add_right _ _

lemma alignUp_of_dvd {n a : ℕ} (h : a ∣ n) : alignUp n a = n := by
  rw [alignUp, Nat.mod_eq_zero_of_dvd h, Nat.sub_zero, Nat.mod_self, Nat.add_zero]

/-- Where the last of the members of these sizes ends, from place `n` on. -/
def membersEnd (align : ℕ → ℕ) : ℕ → List ℕ → ℕ
  | n, [] => n
  | n, size :: sizes => membersEnd align (alignUp n (align size) + size) sizes

/-- Without gaps, each member begins at a multiple of its size. -/
def NaturallyPlaced : ℕ → List ℕ → Prop
  | _, [] => True
  | n, size :: sizes => size ∣ n ∧ NaturallyPlaced (n + size) sizes

section

variable {align : ℕ → ℕ} {n : ℕ} {sizes : List ℕ}

lemma le_membersEnd (align : ℕ → ℕ) (n : ℕ) (sizes : List ℕ) : n ≤ membersEnd align n sizes := by
  induction sizes generalizing n with
  | nil => exact le_rfl
  | cons size sizes ih =>
    have hle := le_alignUp n (align size)
    have hrest := ih (alignUp n (align size) + size)
    rw [membersEnd]
    omega

/-- Members that are naturally placed leave no gaps. -/
lemma membersEnd_eq (halign : ∀ size ∈ sizes, align size ∣ size) (h : NaturallyPlaced n sizes) :
    membersEnd align n sizes = n + sizes.sum := by
  induction sizes generalizing n with
  | nil => rfl
  | cons size sizes ih =>
    rw [List.forall_mem_cons] at halign
    rw [membersEnd, alignUp_of_dvd (halign.1.trans h.1), ih halign.2 h.2, List.sum_cons,
      Nat.add_assoc]

end

/-! ### Integers -/

/-- The bytes of a number, the lowest first. -/
def lowBytes : ℕ → ℕ → List Byte
  | 0, _ => []
  | size + 1, v => BitVec.ofNat 8 v :: lowBytes size (v / 256)

def lowValue (bytes : List Byte) : ℕ := Nat.ofDigits 256 (bytes.map BitVec.toNat)

@[simp] lemma length_lowBytes (size v : ℕ) : (lowBytes size v).length = size := by
  induction size generalizing v with
  | zero => rfl
  | succ size ih => simp [lowBytes, ih]

lemma lowValue_lowBytes {size v : ℕ} (hv : v < 256 ^ size) : lowValue (lowBytes size v) = v := by
  induction size generalizing v with
  | zero =>
    rw [pow_zero, Nat.lt_one_iff] at hv
    rw [hv]
    rfl
  | succ size ih =>
    have hrest := ih (v := v / 256) (by rw [pow_succ] at hv; omega)
    rw [lowValue] at hrest ⊢
    rw [lowBytes, List.map_cons, Nat.ofDigits_cons, hrest, BitVec.toNat_ofNat]
    omega

/-- The first bytes of a memory from a place on. -/
def bytesAt (mem : ℕ → Byte) (off size : ℕ) : List Byte :=
  (List.range size).map fun i => mem (off + i)

lemma bytesAt_congr {mem mem' : ℕ → Byte} {off size : ℕ}
    (h : ∀ i < size, mem (off + i) = mem' (off + i)) :
    bytesAt mem off size = bytesAt mem' off size := by
  apply List.map_congr_left
  intro i hi
  exact h i (List.mem_range.mp hi)

lemma bytesAt_memcpyList (mem : ℕ → Byte) (off : ℕ) (bytes : List Byte) :
    bytesAt (memcpyList mem off bytes) off bytes.length = bytes := by
  apply List.ext_getElem
  · simp [bytesAt]
  · intro i _ hi
    simp [bytesAt, memcpyList, hi]

lemma memcpyList_of_outside {mem : ℕ → Byte} {off i : ℕ} {bytes : List Byte}
    (h : i < off ∨ off + bytes.length ≤ i) : memcpyList mem off bytes i = mem i := by
  rw [memcpyList]
  split_ifs with hle
  · rw [List.getElem?_eq_none (by omega), Option.getD_none]
  · rfl

/-! ### Members -/

/-- Store the members of a structure that begins at place `n`. -/
def storeMembers (align : ℕ → ℕ) (mem : ℕ → Byte) : ℕ → List (ℕ × ℕ) → ℕ → Byte
  | _, [] => mem
  | n, (size, v) :: members =>
    let off := alignUp n (align size)
    memcpyList (storeMembers align mem (off + size) members) off (lowBytes size v)

/-- Load members of these sizes. -/
def loadMembers (align : ℕ → ℕ) (mem : ℕ → Byte) : ℕ → List ℕ → List ℕ
  | _, [] => []
  | n, size :: sizes =>
    let off := alignUp n (align size)
    lowValue (bytesAt mem off size) :: loadMembers align mem (off + size) sizes

section

variable {align align' : ℕ → ℕ} {mem mem' : ℕ → Byte} {n : ℕ} {members : List (ℕ × ℕ)}
  {sizes : List ℕ}

/-- A load reads from the place on where the structure begins. -/
lemma loadMembers_congr (h : ∀ i, n ≤ i → mem i = mem' i) :
    loadMembers align mem n sizes = loadMembers align mem' n sizes := by
  induction sizes generalizing n with
  | nil => rfl
  | cons size sizes ih =>
    have hle := le_alignUp n (align size)
    rw [loadMembers, loadMembers, bytesAt_congr fun i _ => h _ (by omega),
      ih fun i hi => h i (by omega)]

/-- What is stored is loaded, as long as it fits. -/
lemma loadMembers_storeMembers (h : ∀ m ∈ members, m.2 < 256 ^ m.1) :
    loadMembers align (storeMembers align mem n members) n (members.map Prod.fst) =
      members.map Prod.snd := by
  induction members generalizing n with
  | nil => rfl
  | cons member members ih =>
    obtain ⟨size, v⟩ := member
    rw [List.forall_mem_cons] at h
    have hbytes := bytesAt_memcpyList (storeMembers align mem (alignUp n (align size) + size) members)
      (alignUp n (align size)) (lowBytes size v)
    rw [length_lowBytes] at hbytes
    rw [storeMembers, List.map_cons, loadMembers, hbytes, lowValue_lowBytes h.1, List.map_cons,
      ← ih (n := alignUp n (align size) + size) h.2]
    congr 1
    apply loadMembers_congr
    intro i hi
    apply memcpyList_of_outside
    rw [length_lowBytes]
    exact .inr hi

/-- Nothing is stored behind the last member. -/
lemma storeMembers_of_le {i : ℕ} (h : membersEnd align n (members.map Prod.fst) ≤ i) :
    storeMembers align mem n members i = mem i := by
  induction members generalizing n with
  | nil => rfl
  | cons member members ih =>
    obtain ⟨size, v⟩ := member
    rw [List.map_cons, membersEnd] at h
    rw [storeMembers, memcpyList_of_outside, ih h]
    rw [length_lowBytes]
    exact .inr ((le_membersEnd _ _ _).trans h)

/-- Compilers agree about members that are naturally placed. -/
lemma storeMembers_congr (halign : ∀ m ∈ members, align m.1 ∣ m.1)
    (halign' : ∀ m ∈ members, align' m.1 ∣ m.1)
    (h : NaturallyPlaced n (members.map Prod.fst)) :
    storeMembers align mem n members = storeMembers align' mem n members := by
  induction members generalizing n with
  | nil => rfl
  | cons member members ih =>
    obtain ⟨size, v⟩ := member
    rw [List.forall_mem_cons] at halign halign'
    rw [storeMembers, storeMembers, alignUp_of_dvd (halign.1.trans h.1),
      alignUp_of_dvd (halign'.1.trans h.1), ih halign.2 halign'.2 h.2]

end

end Core
