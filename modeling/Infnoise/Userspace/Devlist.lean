import Infnoise.Core.Heap

/-!
# Listing the devices

`inf_get_devstrings` allocates a node for each device of the list of `libftdi`, and calls itself for
the rest of the list. It links the node before that call, and frees it after it if the call returned
`NULL`.
-/

namespace Userspace

open Core

/-! ### The code -/

/-- `infnoise_devlist_node_t` -/
structure DevlistNode where
  manufacturer : String
  description : String
  serial : String
  next : Option ℕ

/-- What `ftdi_usb_get_strings` does with a device: what it returns, what it leaves in the three
buffers, and the string of the error after it. -/
structure UsbStrings where
  rc : ℤ
  manufacturer : String
  description : String
  serial : String
  error : String

def UsbStrings.fill (dev : UsbStrings) (node : DevlistNode) : DevlistNode :=
  { node with
    manufacturer := dev.manufacturer
    description := dev.description
    serial := dev.serial }

/-- The result, the message and the heap; `none` when a cell is used that is not allocated. -/
def infGetDevstrings (A : Allocator DevlistNode) :
    Heap DevlistNode → List UsbStrings → String → Option ℕ → Option ℕ →
      Option (Option ℕ × String × Heap DevlistNode)
  | heap, [], message, bgn, _ => some (bgn, message, heap)
  | heap, curdev :: next, message, bgn, last => do
    let cur := A.address heap
    let heap ← (heap.malloc A).modify (some cur) fun node => { node with next := none }
    let heap ← heap.modify (some cur) curdev.fill
    if curdev.rc < 0 then
      let heap ← heap.free cur
      some (none, curdev.error, heap)
    else
      let (bgn, heap) ← match bgn with
        | none => some (some cur, heap)
        | some _ =>
          (heap.modify last fun node => { node with next := some cur }).map fun heap => (bgn, heap)
      let (ret, message, heap) ← infGetDevstrings A heap next message bgn (some cur)
      match ret with
      -- a later device failed
      | none => do
        let heap ← heap.free cur
        some (none, message, heap)
      | some _ => some (ret, message, heap)

/-- What a node says about its device. -/
def DevlistNode.strings (node : DevlistNode) : String × String × String :=
  (node.manufacturer, node.description, node.serial)

def UsbStrings.strings (dev : UsbStrings) : String × String × String :=
  (dev.manufacturer, dev.description, dev.serial)

/-! ### One node -/

variable {h h₁ h₂ : Heap DevlistNode} {dev : UsbStrings} {devs : List UsbStrings}
  {bgn last : Option ℕ} {cur : ℕ}

/-- The two accumulators: both are null, or the second points to a node without a successor. -/
def Accumulators (h : Heap DevlistNode) (bgn last : Option ℕ) : Prop :=
  bgn = none ∧ last = none ∨
    ∃ b a x, bgn = some b ∧ last = some a ∧ h.get a = some x ∧ x.next = none

/-- From `h` to `h₁` a node has been allocated at `cur`, filled, and linked behind `last`. -/
structure Opened (last : Option ℕ) (h h₁ : Heap DevlistNode) (cur : ℕ) (dev : UsbStrings) :
    Prop where
  fresh : h.get cur = none
  get_cur : ∃ x, h₁.get cur = some x ∧ x.strings = dev.strings ∧ x.next = none
  get_eq : ∀ a, a ≠ cur → some a ≠ last → h₁.get a = h.get a
  get_last : ∀ a x, last = some a → h.get a = some x →
    h₁.get a = some { x with next := some cur }
  log_eq : h₁.log = h.log ++ [.malloc cur]

/-- The node before it is linked. -/
lemma exists_filled (A : Allocator DevlistNode) (h : Heap DevlistNode) (dev : UsbStrings) :
    ∃ h₁ h₂, (h.malloc A).modify (some (A.address h)) (fun node => { node with next := none }) =
        some h₁ ∧
      h₁.modify (some (A.address h)) dev.fill = some h₂ ∧
      Opened none h h₂ (A.address h) dev := by
  obtain ⟨h₁, hclear, hcur, hothers, hlog⟩ := Heap.modify_spec (h.get_malloc A)
    fun node => { node with next := none }
  obtain ⟨h₂, hfill, hcur', hothers', hlog'⟩ := Heap.modify_spec hcur dev.fill
  refine ⟨h₁, h₂, hclear, hfill, A.fresh h, ⟨_, hcur', rfl, rfl⟩, ?_, ?_, ?_⟩
  · intro a ha _
    rw [hothers' a ha, hothers a ha, h.get_malloc_of_ne A ha]
  · intro a x hf
    cases hf
  · rw [hlog', hlog, Heap.malloc_log]

/-- What happens after the recursive call. -/
def unwind (cur : ℕ) (r : Option ℕ × String × Heap DevlistNode) :
    Option (Option ℕ × String × Heap DevlistNode) :=
  match r.1 with
  | none => (r.2.2.free cur).bind fun heap => some (none, r.2.1, heap)
  | some _ => some r

/-- A device whose strings cannot be read. -/
lemma infGetDevstrings_fail (A : Allocator DevlistNode) (h : Heap DevlistNode)
    (devs : List UsbStrings) (message : String) (bgn last : Option ℕ) (hrc : dev.rc < 0) :
    ∃ h', infGetDevstrings A h (dev :: devs) message bgn last = some (none, dev.error, h') ∧
      (∀ a, h'.get a = h.get a) ∧
      h'.log = h.log ++ [.malloc (A.address h), .free (A.address h)] := by
  obtain ⟨h₁, h₂, hclear, hfill, hopen⟩ := exists_filled A h dev
  obtain ⟨x, hcur, -, -⟩ := hopen.get_cur
  obtain ⟨h₃, hfree, hnone, hothers, hlog⟩ := Heap.free_spec hcur
  refine ⟨h₃, ?_, ?_, ?_⟩
  · simp [infGetDevstrings, hclear, hfill, hrc, hfree]
  · intro a
    by_cases ha : a = A.address h
    · rw [ha, hnone, hopen.fresh]
    · rw [hothers a ha, hopen.get_eq a ha (by simp)]
  · rw [hlog, hopen.log_eq, List.append_assoc]
    rfl

/-- A device whose strings can be read. -/
lemma infGetDevstrings_ok (A : Allocator DevlistNode) (devs : List UsbStrings)
    (message : String) (hrc : ¬ dev.rc < 0) (hacc : Accumulators h bgn last) :
    ∃ h₁, Opened last h h₁ (A.address h) dev ∧
      infGetDevstrings A h (dev :: devs) message bgn last =
        (infGetDevstrings A h₁ devs message (some (bgn.getD (A.address h)))
          (some (A.address h))).bind (unwind (A.address h)) := by
  obtain ⟨h₁, h₂, hclear, hfill, hopen⟩ := exists_filled A h dev
  rcases hacc with ⟨rfl, rfl⟩ | ⟨b, e, x, rfl, rfl, he, -⟩
  · refine ⟨h₂, hopen, ?_⟩
    simp [infGetDevstrings, hclear, hfill, hrc]
    rfl
  · have hne := h.ne_address A he
    have he₂ : h₂.get e = some x := by rw [hopen.get_eq e hne (by simp), he]
    obtain ⟨h₃, hlink, hlast, hothers, hlog⟩ := Heap.modify_spec he₂
      fun node => { node with next := some (A.address h) }
    refine ⟨h₃, ⟨hopen.fresh, ?_, ?_, ?_, ?_⟩, ?_⟩
    · rw [hothers _ hne.symm]
      exact hopen.get_cur
    · intro a ha hae
      rw [hothers a (fun heq => hae (by rw [heq])), hopen.get_eq a ha (by simp)]
    · intro a y ha hy
      cases ha
      rw [he] at hy
      cases hy
      exact hlast
    · rw [hlog, hopen.log_eq]
    · simp [infGetDevstrings, hclear, hfill, hrc, hlink]
      rfl

/-! ### The whole list -/

/-- From `h` to `h'` the nodes `l` have been allocated, one for each device, and linked behind
`last`, and nothing else has changed. -/
structure Listed (last : Option ℕ) (h h' : Heap DevlistNode) (l : List (ℕ × DevlistNode))
    (devs : List UsbStrings) : Prop where
  linked : Linked DevlistNode.next h' (l.head?.map Prod.fst) l
  strings_eq : l.map (fun c => c.2.strings) = devs.map UsbStrings.strings
  fresh : ∀ a ∈ l.map Prod.fst, h.get a = none
  nodup : (l.map Prod.fst).Nodup
  get_eq : ∀ a, a ∉ l.map Prod.fst → some a ≠ last → h'.get a = h.get a
  get_last : ∀ a x, last = some a → h.get a = some x → x.next = none →
    h'.get a = some { x with next := l.head?.map Prod.fst }
  log_eq : h'.log = h.log ++ (l.map Prod.fst).map .malloc

/-- From `h` to `h'` the cells `as` have been allocated, and freed again in the opposite order. -/
structure Released (last : Option ℕ) (h h' : Heap DevlistNode) (as : List ℕ) : Prop where
  fresh : ∀ a ∈ as, h.get a = none
  nodup : as.Nodup
  get_eq : ∀ a, some a ≠ last → h'.get a = h.get a
  get_last : ∀ a x, last = some a → h.get a = some x → ∃ y, h'.get a = some y
  log_eq : h'.log = h.log ++ as.map .malloc ++ as.reverse.map .free

lemma Listed.nil (last : Option ℕ) (h : Heap DevlistNode) : Listed last h h [] [] := by
  refine ⟨.nil, rfl, by simp, by simp, fun _ _ _ => rfl, ?_, by simp⟩
  intro a x _ hx hnext
  rw [hx, List.head?_nil, Option.map_none, ← hnext]

namespace Opened

variable (ho : Opened last h h₁ cur dev)

include ho

/-- A cell allocated later is another one, and was free before. -/
lemma fresh_of_fresh {a : ℕ} (hlast : ∀ e, last = some e → ∃ x, h.get e = some x)
    (ha : h₁.get a = none) : a ≠ cur ∧ h.get a = none := by
  have hne : a ≠ cur := by
    rintro rfl
    obtain ⟨x, hx, -⟩ := ho.get_cur
    rw [ha] at hx
    cases hx
  refine ⟨hne, ?_⟩
  rw [← ho.get_eq a hne ?_, ha]
  intro hf
  obtain ⟨x, hx⟩ := hlast a hf.symm
  rw [ho.get_last a x hf.symm hx] at ha
  cases ha

/-- A cell that was allocated is another one. -/
lemma ne_cur {a : ℕ} {x : DevlistNode} (ha : h.get a = some x) : a ≠ cur := by
  rintro rfl
  rw [ho.fresh] at ha
  cases ha

/-- The first node of a list is followed by the others. -/
lemma listed {l : List (ℕ × DevlistNode)} (hlast : ∀ e, last = some e → ∃ x, h.get e = some x)
    (hl : Listed (some cur) h₁ h₂ l devs) :
    ∃ x, Listed last h h₂ ((cur, x) :: l) (dev :: devs) := by
  obtain ⟨x, hx, hstrings, hnext⟩ := ho.get_cur
  have hcur := hl.get_last cur x rfl hx hnext
  have hfresh : ∀ a ∈ l.map Prod.fst, a ≠ cur ∧ h.get a = none := fun a ha =>
    ho.fresh_of_fresh hlast (hl.fresh a ha)
  refine ⟨_, .cons hcur hl.linked, ?_, ?_, ?_, ?_, ?_, ?_⟩
  · rw [List.map_cons, List.map_cons, hl.strings_eq, ← hstrings]
    rfl
  · simp only [List.map_cons, List.mem_cons, forall_eq_or_imp]
    exact ⟨ho.fresh, fun a ha => (hfresh a ha).2⟩
  · rw [List.map_cons, List.nodup_cons]
    exact ⟨fun hmem => (hfresh cur hmem).1 rfl, hl.nodup⟩
  · intro a ha hlast'
    rw [List.map_cons, List.mem_cons, not_or] at ha
    rw [hl.get_eq a ha.2 (by simpa using ha.1), ho.get_eq a ha.1 hlast']
  · intro a y ha hy _
    have hafter := ho.get_last a y ha hy
    rw [hl.get_eq a ?_ (by simpa using ho.ne_cur hy), hafter]
    · rfl
    · intro hmem
      rw [hl.fresh a hmem] at hafter
      cases hafter
  · rw [hl.log_eq, ho.log_eq, List.append_assoc]
    rfl

/-- When the rest has been released, the node is freed. -/
lemma released {as : List ℕ} (hlast : ∀ e, last = some e → ∃ x, h.get e = some x)
    (hr : Released (some cur) h₁ h₂ as) :
    ∃ h', h₂.free cur = some h' ∧ Released last h h' (cur :: as) := by
  obtain ⟨x, hx, -⟩ := ho.get_cur
  obtain ⟨y, hy⟩ := hr.get_last cur x rfl hx
  obtain ⟨h', hfree, hnone, hothers, hlog⟩ := Heap.free_spec hy
  have hfresh : ∀ a ∈ as, a ≠ cur ∧ h.get a = none := fun a ha =>
    ho.fresh_of_fresh hlast (hr.fresh a ha)
  refine ⟨h', hfree, ?_, ?_, ?_, ?_, ?_⟩
  · simp only [List.mem_cons, forall_eq_or_imp]
    exact ⟨ho.fresh, fun a ha => (hfresh a ha).2⟩
  · rw [List.nodup_cons]
    exact ⟨fun hmem => (hfresh cur hmem).1 rfl, hr.nodup⟩
  · intro a ha
    by_cases hcur : a = cur
    · rw [hcur, hnone, ho.fresh]
    · rw [hothers a hcur, hr.get_eq a (by simpa using hcur), ho.get_eq a hcur ha]
  · intro a z ha hz
    have hne := ho.ne_cur hz
    rw [hothers a hne, hr.get_eq a (by simpa using hne), ho.get_last a z ha hz]
    exact ⟨_, rfl⟩
  · rw [hlog, hr.log_eq, ho.log_eq]
    simp

end Opened

lemma Accumulators.exists_last (hacc : Accumulators h bgn last) :
    ∀ e, last = some e → ∃ x, h.get e = some x := by
  intro e he
  rcases hacc with ⟨-, rfl⟩ | ⟨b, a, x, -, rfl, hx, -⟩
  · cases he
  · cases he
    exact ⟨x, hx⟩

lemma Opened.accumulators (ho : Opened last h h₁ cur dev) (b : ℕ) :
    Accumulators h₁ (some b) (some cur) := by
  obtain ⟨x, hx, -, hnext⟩ := ho.get_cur
  exact .inr ⟨b, cur, x, rfl, rfl, hx, hnext⟩

/-- No device fails: a node for each. -/
lemma infGetDevstrings_listed (A : Allocator DevlistNode) (message : String)
    (hok : ∀ dev ∈ devs, ¬ dev.rc < 0) (hacc : Accumulators h bgn last) :
    ∃ l h', infGetDevstrings A h devs message bgn last =
        some (bgn.or (l.head?.map Prod.fst), message, h') ∧ Listed last h h' l devs := by
  induction devs generalizing h bgn last with
  | nil => exact ⟨[], h, by simp [infGetDevstrings], .nil last h⟩
  | cons dev devs ih =>
    obtain ⟨h₁, ho, heq⟩ := infGetDevstrings_ok A devs message
      (hok dev List.mem_cons_self) hacc
    obtain ⟨l, h', hrest, hl⟩ := ih (fun d hd => hok d (List.mem_cons_of_mem _ hd))
      (ho.accumulators (bgn.getD (A.address h)))
    obtain ⟨x, hlisted⟩ := ho.listed hacc.exists_last hl
    refine ⟨_, h', ?_, hlisted⟩
    rw [heq, hrest]
    rcases bgn with _ | b
    · rfl
    · rfl

/-- Some device fails: everything is freed. -/
lemma infGetDevstrings_released (A : Allocator DevlistNode) (message : String)
    (hfind : devs.find? (fun dev => dev.rc < 0) = some dev) (hacc : Accumulators h bgn last) :
    ∃ as h', infGetDevstrings A h devs message bgn last = some (none, dev.error, h') ∧
      Released last h h' as := by
  induction devs generalizing h bgn last with
  | nil => cases hfind
  | cons d devs ih =>
    by_cases hrc : d.rc < 0
    · rw [List.find?_cons_of_pos (by simpa using hrc)] at hfind
      cases hfind
      obtain ⟨h', heq, hget, hlog⟩ := infGetDevstrings_fail A h devs message bgn last hrc
      refine ⟨[A.address h], h', heq, ?_, by simp, fun a _ => hget a, ?_, ?_⟩
      · simp [A.fresh h]
      · intro a x _ hx
        exact ⟨x, by rw [hget, hx]⟩
      · rw [hlog, List.append_assoc]
        rfl
    · rw [List.find?_cons_of_neg (by simpa using hrc)] at hfind
      obtain ⟨h₁, ho, heq⟩ := infGetDevstrings_ok A devs message
        hrc hacc
      obtain ⟨as, h₂, hrest, hr⟩ := ih hfind (ho.accumulators (bgn.getD (A.address h)))
      obtain ⟨h', hfree, hreleased⟩ := ho.released hacc.exists_last hr
      refine ⟨_, h', ?_, hreleased⟩
      rw [heq, hrest, Option.bind_some, unwind]
      simp [hfree]

/-- Listing is all or nothing. If the strings of all devices can be read, the result is a list of
one node for each, in order, and nothing else has been allocated. Otherwise it is `NULL`, the
message is set to the error of the first device that fails, and the heap is as it was: all that has
been allocated has been freed, once. -/
theorem devstrings_allOrNothing (A : Allocator DevlistNode) (heap : Heap DevlistNode)
    (devs : List UsbStrings) (message : String) :
    match devs.find? (fun dev => dev.rc < 0) with
    | none => ∃ (l : List (ℕ × DevlistNode)) (heap' : Heap DevlistNode),
        infGetDevstrings A heap devs message none none =
          some (l.head?.map Prod.fst, message, heap') ∧
        Linked DevlistNode.next heap' (l.head?.map Prod.fst) l ∧
        l.map (fun c => c.2.strings) = devs.map UsbStrings.strings ∧
        (l.map Prod.fst).Nodup ∧ (∀ a ∈ l.map Prod.fst, heap.get a = none) ∧
        (∀ a, a ∉ l.map Prod.fst → heap'.get a = heap.get a) ∧
        heap'.log = heap.log ++ (l.map Prod.fst).map .malloc
    | some dev => ∃ (as : List ℕ) (heap' : Heap DevlistNode),
        infGetDevstrings A heap devs message none none = some (none, dev.error, heap') ∧
        as.Nodup ∧ (∀ a ∈ as, heap.get a = none) ∧ heap'.cells = heap.cells ∧
        heap'.log = heap.log ++ as.map .malloc ++ as.reverse.map .free := by
  have hacc : Accumulators heap none none := .inl ⟨rfl, rfl⟩
  split
  case _ hfind =>
    rw [List.find?_eq_none] at hfind
    obtain ⟨l, heap', heq, hl⟩ := infGetDevstrings_listed A message
      (fun dev hdev => by simpa using hfind dev hdev) hacc
    refine ⟨l, heap', heq, hl.linked, hl.strings_eq, hl.nodup, hl.fresh, ?_, hl.log_eq⟩
    intro a ha
    exact hl.get_eq a ha (by simp)
  case _ dev hfind =>
    obtain ⟨as, heap', heq, hr⟩ := infGetDevstrings_released A message hfind
      hacc
    refine ⟨as, heap', heq, hr.nodup, hr.fresh, ?_, hr.log_eq⟩
    exact Heap.cells_eq_of_get_eq fun a => hr.get_eq a (by simp)

/-! ### Listing and printing -/

/-- What the system answers to `listUSBDevices`. -/
structure ListScript where
  init : ℤ
  findAll : ℤ
  devlist : List UsbStrings
  superUser : Bool

def listUSBDevices (A : Allocator DevlistNode) (heap : Heap DevlistNode) (script : ListScript)
    (message : String) : Option (Option ℕ × String × Heap DevlistNode) :=
  if script.init < 0 then some (none, "Failed to init", heap)
  else if script.findAll < 0 ∨ script.devlist = [] then
    some (none,
      if script.superUser then "Can't find Infinite Noise Multiplier."
      else "Can't find Infinite Noise Multiplier.  Try running as super user?", heap)
  else infGetDevstrings A heap script.devlist message none none

/-- The loop of `main` that prints each node and frees it, for at most `fuel` nodes. -/
def printDevices : ℕ → Heap DevlistNode → Option ℕ →
    Option (List (String × String × String) × Heap DevlistNode)
  | _, heap, none => some ([], heap)
  | 0, _, some _ => none
  | fuel + 1, heap, some olddev => do
    let node ← heap.get olddev
    let heap ← heap.free olddev
    let (lines, heap) ← printDevices fuel heap node.next
    some (node.strings :: lines, heap)

/-- A list is printed in order, and its cells are freed. -/
lemma printDevices_linked {p : Option ℕ} {l : List (ℕ × DevlistNode)} {fuel : ℕ}
    (hl : Linked DevlistNode.next h p l) (hnodup : (l.map Prod.fst).Nodup)
    (hfuel : l.length ≤ fuel) :
    ∃ h', printDevices fuel h p = some (l.map fun c => c.2.strings, h') ∧
      (∀ a ∈ l.map Prod.fst, h'.get a = none) ∧
      (∀ a, a ∉ l.map Prod.fst → h'.get a = h.get a) ∧
      h'.log = h.log ++ (l.map Prod.fst).map .free := by
  induction l generalizing h p fuel with
  | nil =>
    cases hl
    exact ⟨h, by rw [printDevices]; rfl, by simp, fun _ _ => rfl, by simp⟩
  | cons c l ih =>
    cases hl with
    | @cons a x _ ha hrest =>
      obtain ⟨fuel, rfl⟩ : ∃ n, fuel = n + 1 := ⟨fuel - 1, by simp at hfuel; omega⟩
      rw [List.map_cons, List.nodup_cons] at hnodup
      obtain ⟨h₁, hfree, hnone, hothers, hlog⟩ := Heap.free_spec ha
      have hrest₁ : Linked DevlistNode.next h₁ x.next l := by
        apply hrest.congr
        intro c hc
        apply hothers
        intro heq
        apply hnodup.1
        exact List.mem_map.mpr ⟨c, hc, heq⟩
      obtain ⟨h', hprint, hfreed, hothers', hlog'⟩ := ih hrest₁ hnodup.2 (by simpa using hfuel)
      refine ⟨h', ?_, ?_, ?_, ?_⟩
      · simp [printDevices, ha, hfree, hprint]
      · simp only [List.map_cons, List.mem_cons, forall_eq_or_imp]
        exact ⟨by rw [hothers' a hnodup.1, hnone], hfreed⟩
      · intro b hb
        rw [List.map_cons, List.mem_cons, not_or] at hb
        rw [hothers' b hb.2, hothers b hb.1]
      · rw [hlog', hlog, List.append_assoc]
        rfl

/-- Listing the devices and printing the list leaves the heap as it was. If the library returns a
list, the devices are printed in order. -/
theorem printDevices_listUSBDevices (A : Allocator DevlistNode) (heap : Heap DevlistNode)
    (script : ListScript) (message : String) :
    ∃ ret message' heap', listUSBDevices A heap script message = some (ret, message', heap') ∧
      (ret = none → heap'.cells = heap.cells) ∧
      (ret ≠ none → ∃ heap'', printDevices script.devlist.length heap' ret =
        some (script.devlist.map UsbStrings.strings, heap'') ∧ heap''.cells = heap.cells) := by
  rw [listUSBDevices]
  split_ifs with hinit hfind hsuper
  · exact ⟨_, _, _, rfl, fun _ => rfl, fun hf => absurd rfl hf⟩
  · exact ⟨_, _, _, rfl, fun _ => rfl, fun hf => absurd rfl hf⟩
  · exact ⟨_, _, _, rfl, fun _ => rfl, fun hf => absurd rfl hf⟩
  · have hacc : Accumulators heap none none := .inl ⟨rfl, rfl⟩
    rcases hdev : script.devlist.find? (fun dev => dev.rc < 0) with _ | dev
    · rw [List.find?_eq_none] at hdev
      obtain ⟨l, h', heq, hl⟩ := infGetDevstrings_listed A message
        (fun dev hmem => by simpa using hdev dev hmem) hacc
      have hlen : l.length = script.devlist.length := by
        have := congrArg List.length hl.strings_eq
        simpa using this
      refine ⟨_, _, h', heq, ?_, ?_⟩
      · intro hnull
        have hl' := hl.linked
        rw [Option.none_or] at hnull
        rw [hnull] at hl'
        cases hl'
        exact Heap.cells_eq_of_get_eq fun a => hl.get_eq a (by simp) (by simp)
      · intro _
        obtain ⟨h'', hprint, hfreed, hothers, -⟩ := printDevices_linked hl.linked hl.nodup hlen.le
        rw [hl.strings_eq] at hprint
        refine ⟨h'', hprint, Heap.cells_eq_of_get_eq fun a => ?_⟩
        by_cases ha : a ∈ l.map Prod.fst
        · rw [hfreed a ha, hl.fresh a ha]
        · rw [hothers a ha, hl.get_eq a ha (by simp)]
    · obtain ⟨as, h', heq, hr⟩ := infGetDevstrings_released A message hdev hacc
      refine ⟨_, _, h', heq, ?_, fun hf => absurd rfl hf⟩
      intro _
      exact Heap.cells_eq_of_get_eq fun a => hr.get_eq a (by simp)

end Userspace
