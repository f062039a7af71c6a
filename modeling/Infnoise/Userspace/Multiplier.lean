import Infnoise.Core.Budget
import Infnoise.Userspace.Register

/-!
# Multiplier budget of the userspace library

The calls of `readData` on a context refine a budget: the call that absorbs a block fixes
`keccakBytesGiven` from the multiplier, and the calls that follow draw chunks from it until it is
used up and the device is read again.
-/

namespace Userspace

open Core Reference
open Kernel (SpongeOp)

attribute [local irreducible] keccakPermutation keccakAbsorb

/-- The arguments of a call, and what the device and the clock are meanwhile. -/
structure ReadCall where
  script : UsbScript
  result : Option (ℕ → Byte)
  raw : Bool
  outputMultiplier : ℕ

def readStep (context : Context) (call : ReadCall) : Option (ReadResult × Context) :=
  (readData context call.script call.result call.raw call.outputMultiplier).map
    fun r => (r, r.context)

lemma readStep_cases {context context' : Context} {call : ReadCall} {r : ReadResult}
    (h : readStep context call = some (r, context')) :
    ReadStep context call.script call.result call.raw call.outputMultiplier r ∧
      context' = r.context := by
  rw [readStep, Option.map_eq_some_iff] at h
  obtain ⟨r', hread, heq⟩ := h
  obtain ⟨rfl, rfl⟩ := Prod.mk.inj heq
  exact ⟨readData_step hread, rfl⟩

/-- A call in a run of calls. -/
abbrev ReadRecord := Call Context ReadCall ReadResult

namespace ReadRecord

/-- The call goes to the device, and not to the sponge. -/
def readsUsb (c : ReadRecord) : Prop := c.before.keccakBytesGiven = 0

instance (c : ReadRecord) : Decidable c.readsUsb := inferInstanceAs (Decidable (_ = 0))

/-- The call accepted a block and absorbed it. -/
def absorbs (c : ReadRecord) : Bool :=
  c.output.ops.any fun
    | .absorb _ => true
    | _ => false

/-- The bytes the call returned. -/
def bytesReturned (c : ReadRecord) : ℕ :=
  match c.output.rc with
  | .ok n => n
  | .error _ => 0

/-- What the call does to the budget. -/
def move (c : ReadRecord) : Move :=
  if ¬ c.readsUsb then .draw c.bytesReturned
  else if c.absorbs ∧ c.input.outputMultiplier ≠ 0 then
    .fund (bytesOfMultiplier c.input.outputMultiplier) c.bytesReturned
  else .idle

/-- The call as a step on the budget. -/
def onBudget (c : ReadRecord) : Call ℕ Move Unit :=
  ⟨c.before.keccakBytesGiven, c.move, (), c.after.keccakBytesGiven⟩

end ReadRecord

/-! ### One call -/

/-- The law of one call: only a call that reads the device absorbs, and then fixes the budget when
there is a multiplier; every other call takes the next chunk, or does nothing. -/
inductive ReadRecord.Lawful (c : ReadRecord) : Prop where
  | chunk (husb : ¬ c.readsUsb) (habs : c.absorbs = false)
      (hbytes : c.bytesReturned = min 128 c.before.keccakBytesGiven)
      (hafter : c.after.keccakBytesGiven = c.before.keccakBytesGiven - c.bytesReturned)
  | funded (husb : c.readsUsb) (habs : c.absorbs = true) (hm : c.input.outputMultiplier ≠ 0)
      (hbytes : c.bytesReturned = min 128 (bytesOfMultiplier c.input.outputMultiplier))
      (hafter : c.after.keccakBytesGiven =
        bytesOfMultiplier c.input.outputMultiplier - c.bytesReturned)
  | idle (husb : c.readsUsb) (hidle : ¬ (c.absorbs = true ∧ c.input.outputMultiplier ≠ 0))
      (hafter : c.after.keccakBytesGiven = 0)

lemma readStep_lawful {c : ReadRecord}
    (hstep : readStep c.before c.input = some (c.output, c.after))
    (hlt : c.before.keccakBytesGiven < 4294967296) : c.Lawful := by
  obtain ⟨context, ⟨script, result, raw, m⟩, r, context'⟩ := c
  dsimp only at hstep hlt
  obtain ⟨hread, rfl⟩ := readStep_cases hstep
  rcases hread.idle_or with
    ⟨hgiven, _, hidle⟩ | ⟨bytes, context', hblock, _, rfl⟩ | ⟨hgiven, rfl⟩
  · refine .idle hgiven ?_ (hidle.keccakBytesGiven_eq.trans hgiven)
    simp [ReadRecord.absorbs, hidle.ops_eq]
  · have hgiven := hblock.given_after
    rcases raw with _ | _
    · by_cases hm : m = 0
      · subst hm
        refine .idle hblock.given_eq (by simp) ?_
        simp only [Filled.toRead, processBytes_zero, Context.absorb]
        rw [Context.capEntropy_eq]
        exact hgiven
      · have hsize := chunkSize_le (context'.fund bytes m)
        have hafter := subU32_of_le hsize (bytesOfMultiplier_lt m)
        simp only [chunkSize, Context.fund_keccakBytesGiven] at hafter
        refine .funded hblock.given_eq ?_ hm ?_ ?_
        · simp [ReadRecord.absorbs, Filled.toRead, processBytes_multiplier _ _ _ hm hgiven]
        · simp [ReadRecord.bytesReturned, Filled.toRead,
            processBytes_multiplier _ _ _ hm hgiven, chunkSize]
        · simp only [ReadRecord.bytesReturned, Filled.toRead,
            processBytes_multiplier _ _ _ hm hgiven, squeezeChunk_count, squeezeChunk_context,
            chunkSize, Context.fund_keccakBytesGiven]
          exact hafter
    · refine .idle hblock.given_eq (by simp [ReadRecord.absorbs, Filled.toRead, processBytes_raw]) ?_
      simp only [Filled.toRead, processBytes_raw]
      rw [Context.capEntropy_eq]
      exact hgiven
  · refine .chunk (Nat.ne_of_gt hgiven) ?_ ?_ ?_
    · simp [ReadRecord.absorbs, Filled.toRead]
    · simp [ReadRecord.bytesReturned, Filled.toRead, chunkSize]
    · simp only [ReadRecord.bytesReturned, Filled.toRead, squeezeChunk_count, squeezeChunk_context]
      exact subU32_of_le (chunkSize_le context) hlt

lemma ReadRecord.Lawful.after_lt {c : ReadRecord} (h : c.Lawful)
    (hlt : c.before.keccakBytesGiven < 4294967296) : c.after.keccakBytesGiven < 4294967296 := by
  cases h with
  | chunk husb habs hbytes hafter => exact hafter ▸ (Nat.sub_le _ _).trans_lt hlt
  | funded husb habs hm hbytes hafter =>
    exact hafter ▸ (Nat.sub_le _ _).trans_lt (bytesOfMultiplier_lt _)
  | idle husb hidle hafter =>
    omega

/-- A lawful call is a step on the budget. -/
lemma ReadRecord.Lawful.budgetStep {c : ReadRecord} (h : c.Lawful) :
    budgetStep c.before.keccakBytesGiven c.move = some ((), c.after.keccakBytesGiven) := by
  cases h with
  | chunk husb habs hbytes hafter =>
    have hpos : 0 < c.before.keccakBytesGiven := Nat.pos_of_ne_zero husb
    rw [move, if_pos husb, Core.budgetStep, if_pos ⟨hpos, hbytes ▸ min_le_right _ _⟩, hafter]
  | funded husb habs hm hbytes hafter =>
    rw [move, if_neg (not_not.mpr husb), if_pos ⟨habs, hm⟩, Core.budgetStep,
      if_pos ⟨husb, hbytes ▸ min_le_right _ _⟩, hafter]
  | idle husb hidle hafter =>
    rw [move, if_neg (not_not.mpr husb), if_neg hidle, Core.budgetStep, hafter, husb]

/-! ### Runs -/

/-- The calls on a context refine the budget. -/
lemma readStep_refines {context context' : Context} {cs : List ReadRecord}
    (h : Run readStep context cs context') (hlt : context.keccakBytesGiven < 4294967296) :
    Run budgetStep context.keccakBytesGiven (cs.map ReadRecord.onBudget)
      context'.keccakBytesGiven := by
  refine h.simulate (I := fun context => context.keccakBytesGiven < 4294967296)
    Context.keccakBytesGiven ReadRecord.onBudget ?_ hlt
  intro c hstep hbefore
  have hlaw := readStep_lawful hstep hbefore
  exact ⟨hlaw.after_lt hbefore, rfl, rfl, hlaw.budgetStep⟩

lemma ReadRecord.readsUsb_of_absorbs {c : ReadRecord}
    (hstep : readStep c.before c.input = some (c.output, c.after)) (habs : c.absorbs = true) :
    c.readsUsb := by
  by_contra husb
  obtain ⟨context, ⟨script, result, raw, m⟩, r, context'⟩ := c
  dsimp only at hstep
  obtain ⟨hread, rfl⟩ := readStep_cases hstep
  have hchunk := hread.of_pending husb
  subst hchunk
  simp [absorbs, Filled.toRead] at habs

/-- From the call that absorbs a block to any later call before the next one that reads the
device: what was returned and what is still to be given make up the bytes of the multiplier. -/
lemma returned_eq {context context' : Context} {mid : List ReadRecord} {c : ReadRecord}
    (h : Run readStep context (c :: mid) context') (habs : c.absorbs = true)
    (hm : c.input.outputMultiplier ≠ 0) (hmid : ∀ d ∈ mid, ¬ d.readsUsb) :
    ((c :: mid).map ReadRecord.bytesReturned).sum + context'.keccakBytesGiven =
      bytesOfMultiplier c.input.outputMultiplier := by
  have husb : c.readsUsb := ReadRecord.readsUsb_of_absorbs (h.step_of_mem List.mem_cons_self) habs
  have hgiven : context.keccakBytesGiven = 0 := (Run.cons_iff.mp h).1 ▸ husb
  have hbudget := readStep_refines h (by omega)
  have hfund : c.onBudget.input =
      .fund (bytesOfMultiplier c.input.outputMultiplier) c.bytesReturned := by
    change c.move = _
    rw [ReadRecord.move, if_neg (not_not.mpr husb), if_pos ⟨habs, hm⟩]
  have hdraw : ∀ d ∈ mid, d.move = .draw d.bytesReturned := fun d hd => if_pos (hmid d hd)
  have hsum := hbudget.drawn_eq hfund (by
    intro e he
    obtain ⟨d, hd, rfl⟩ := List.mem_map.mp he
    change ¬ d.move.isFund
    rw [hdraw d hd]
    exact id)
  have hmap : (mid.map ReadRecord.onBudget).map (fun d => d.input.drawn) =
      mid.map ReadRecord.bytesReturned := by
    rw [List.map_map]
    apply List.map_congr_left
    intro d hd
    change d.move.drawn = _
    rw [hdraw d hd]
    rfl
  rw [hmap] at hsum
  rw [List.map_cons, List.sum_cons]
  exact hsum

/-- What a block that `c` absorbed has to yield: `c` and the calls `mid` after it return positive
chunks of at most 128 bytes, which together with what is still to be given, nothing when the next
call reads the device, make up 32 bytes for each unit of the multiplier. -/
structure ChunksExact (c : ReadRecord) (mid : List ReadRecord) : Prop where
  positive : ∀ d ∈ c :: mid, 0 < d.bytesReturned
  le : ∀ d ∈ c :: mid, d.bytesReturned ≤ 128
  sum_eq : ∀ d, (c :: mid).getLast? = some d →
    ((c :: mid).map ReadRecord.bytesReturned).sum + d.after.keccakBytesGiven =
      32 * c.input.outputMultiplier

/-- In every run, for every block absorbed under a multiplier and the calls up to any point before
the next one that reads the device: the chunks are as they should be exactly when the multiplier
is below `2 ^ 24`, where `outputMultiplier * 256` does not wrap. -/
theorem chunksExact_iff {context context' : Context} {pre mid post : List ReadRecord}
    {c : ReadRecord} (h : Run readStep context (pre ++ (c :: mid) ++ post) context')
    (habs : c.absorbs = true) (hm : 1 ≤ c.input.outputMultiplier)
    (hmid : ∀ d ∈ mid, ¬ d.readsUsb) :
    ChunksExact c mid ↔ c.input.outputMultiplier < 16777216 := by
  obtain ⟨context₂, hrun, _⟩ := Run.append_iff.mp h
  obtain ⟨context₁, _, hseg⟩ := Run.append_iff.mp hrun
  have hm0 : c.input.outputMultiplier ≠ 0 := Nat.ne_of_gt hm
  have husb : c.readsUsb := c.readsUsb_of_absorbs (hseg.step_of_mem List.mem_cons_self) habs
  have hgiven : context₁.keccakBytesGiven = 0 := (Run.cons_iff.mp hseg).1 ▸ husb
  have hlt := hseg.invariant_of (I := fun context => context.keccakBytesGiven < 4294967296)
    (P := fun _ => True) (fun d hstep _ hlt => (readStep_lawful hstep hlt).after_lt hlt)
    (fun _ _ => trivial) (by omega)
  have hlaw : ∀ d ∈ c :: mid, d.Lawful := fun d hd =>
    readStep_lawful (hseg.step_of_mem hd) (hlt.1 d hd).1
  have hsum := returned_eq hseg habs hm0 hmid
  rw [bytesOfMultiplier_eq] at hsum
  constructor
  · intro hexact
    have hclaimed := hexact.sum_eq _ List.getLast?_cons
    rw [hseg.after_getLast? List.getLast?_cons, hsum] at hclaimed
    omega
  · intro hm24
    -- a chunk is not empty because there is something to give before it
    have hchunk : ∀ d ∈ c :: mid, ∃ left, 0 < left ∧ d.bytesReturned = min 128 left := by
      intro d hd
      rcases List.mem_cons.mp hd with rfl | hmem
      · cases hlaw d hd with
        | chunk husb' => exact absurd husb husb'
        | funded _ _ _ hbytes _ =>
          refine ⟨_, ?_, hbytes⟩
          rw [bytesOfMultiplier_eq]
          omega
        | idle _ hidle => exact absurd ⟨habs, hm0⟩ hidle
      · cases hlaw d hd with
        | chunk husb' _ hbytes _ => exact ⟨_, Nat.pos_of_ne_zero husb', hbytes⟩
        | funded husb' => exact absurd husb' (hmid d hmem)
        | idle husb' => exact absurd husb' (hmid d hmem)
    refine ⟨fun d hd => ?_, fun d hd => ?_, fun d hd => ?_⟩
    · obtain ⟨left, hpos, hbytes⟩ := hchunk d hd
      rw [hbytes]
      exact lt_min (by omega) hpos
    · obtain ⟨left, _, hbytes⟩ := hchunk d hd
      exact hbytes ▸ min_le_left _ _
    · rw [hseg.after_getLast? hd, hsum, Nat.mod_eq_of_lt hm24]

/-- A library that starts, and a first call that absorbs a block under a multiplier. -/
lemma exists_absorbed (result : ℕ → Byte) {m : ℕ} (hm : m ≠ 0) :
    ∃ (context context' : Context) (c : ReadRecord),
      initInfnoise tableLog blankContext none true false registerScript 371 = some (true, context) ∧
      Run readStep context [c] context' ∧ c.absorbs = true ∧ c.input.result = some result ∧
      c.input.raw = false ∧ c.input.outputMultiplier = m ∧ c.output.accepted = true ∧
      c.bytesReturned = min 128 (bytesOfMultiplier m) ∧
      context'.keccakBytesGiven = bytesOfMultiplier m - min 128 (bytesOfMultiplier m) := by
  obtain ⟨context, script, bytes, context₁, hinit, hblock, _, hread⟩ :=
    exists_accepted none true false (le_refl 371)
  obtain ⟨r, hr⟩ : ∃ r, r = (processBytes context₁ bytes (some result) false m).toRead
      (some script.inBuf) := ⟨_, rfl⟩
  let call : ReadCall := ⟨script, some result, false, m⟩
  let c : ReadRecord := ⟨context, call, r, r.context⟩
  have hstep : readStep context call = some (r, r.context) := by
    rw [readStep, hread, hr]
    rfl
  have hops : r.ops = .absorb (.ofFn fun i => bytes i) ::
      (squeezeChunk (context₁.fund bytes m) (some result)).ops := by
    rw [hr, processBytes_multiplier _ _ _ hm hblock.given_after]
    rfl
  have habs : c.absorbs = true := by
    rw [ReadRecord.absorbs, show c.output.ops = _ from hops]
    rfl
  have hlaw : c.Lawful := readStep_lawful hstep (by
    change context.keccakBytesGiven < 4294967296
    rw [hblock.given_eq]
    norm_num)
  refine ⟨context, r.context, c, hinit, .single hstep, habs, rfl, rfl, rfl, ?_, ?_⟩
  · change r.accepted = true
    rw [hr]
    rfl
  · cases hlaw with
    | chunk husb => exact absurd hblock.given_eq husb
    | funded _ _ _ hbytes hafter => exact ⟨hbytes, by rw [hbytes] at hafter; exact hafter⟩
    | idle _ hidle => exact absurd ⟨habs, hm⟩ hidle

/-- A call that finds bytes left takes the next chunk, whatever its arguments. -/
lemma exists_squeezed {context : Context} (call : ReadCall) (hpos : 0 < context.keccakBytesGiven)
    (hlt : context.keccakBytesGiven < 4294967296) :
    ∃ (context' : Context) (d : ReadRecord), Run readStep context [d] context' ∧
      d.before = context ∧ d.input = call ∧
      d.bytesReturned = min 128 context.keccakBytesGiven ∧
      context'.keccakBytesGiven = context.keccakBytesGiven - min 128 context.keccakBytesGiven := by
  let r : ReadResult := (squeezeChunk context call.result).toRead none
  have hstep : readStep context call = some (r, r.context) := by
    rw [readStep, readData, if_neg (Nat.ne_of_gt hpos)]
    rfl
  refine ⟨r.context, ⟨context, call, r, r.context⟩, .single hstep, rfl, rfl, ?_⟩
  cases readStep_lawful (c := ⟨context, call, r, r.context⟩) hstep hlt with
  | chunk _ _ hbytes hafter => exact ⟨hbytes, hbytes ▸ hafter⟩
  | funded husb | idle husb => exact absurd husb (Nat.ne_of_gt hpos)

/-- With multiplier 10 the block yields chunks of 128, 128 and 64 bytes. -/
theorem chunksExact_ten : ∃ (context context' : Context) (c d e : ReadRecord),
    initInfnoise tableLog blankContext none true false registerScript 371 = some (true, context) ∧
    Run readStep context [c, d, e] context' ∧ c.absorbs = true ∧ c.input.outputMultiplier = 10 ∧
    [c, d, e].map ReadRecord.bytesReturned = [128, 128, 64] ∧ ChunksExact c [d, e] := by
  obtain ⟨context, context₁, c, hinit, hrun₁, habs, _, _, hm, _, hbytes, hleft⟩ :=
    exists_absorbed (fun _ => 0) (m := 10) (by norm_num)
  have hleft₁ : context₁.keccakBytesGiven = 192 := hleft
  obtain ⟨context₂, d, hrun₂, hbefore, _, hbytes₂, hleft₂⟩ :=
    @exists_squeezed context₁ c.input (by omega) (by omega)
  obtain ⟨context₃, e, hrun₃, hbefore', _, hbytes₃, _⟩ :=
    @exists_squeezed context₂ c.input (by omega) (by omega)
  have hrun : Run readStep context ([] ++ [c, d, e] ++ []) context₃ :=
    hrun₁.append (hrun₂.append hrun₃)
  have husb : ∀ f ∈ [d, e], ¬ f.readsUsb := by
    intro f hf
    simp only [List.mem_cons, List.not_mem_nil, or_false] at hf
    rcases hf with rfl | rfl <;> rw [ReadRecord.readsUsb]
    · rw [hbefore]
      omega
    · rw [hbefore']
      omega
  refine ⟨context, context₃, c, d, e, hinit, hrun, habs, hm, ?_,
    (chunksExact_iff hrun habs (by omega) husb).mpr (by omega)⟩
  simp only [List.map_cons, List.map_nil, hbytes, hbytes₂, hbytes₃, hleft₂, hleft₁]
  rfl

/-- With multiplier `2 ^ 24` the product wraps to zero: the block is absorbed and yields nothing. -/
theorem chunksExact_wraps : ∃ (context context' : Context) (c : ReadRecord),
    initInfnoise tableLog blankContext none true false registerScript 371 = some (true, context) ∧
    Run readStep context [c] context' ∧ c.absorbs = true ∧ c.input.raw = false ∧
    c.input.outputMultiplier = 16777216 ∧ c.bytesReturned = 0 ∧ ¬ ChunksExact c [] := by
  obtain ⟨context, context', c, hinit, hrun, habs, _, hraw, hm, _, hbytes, _⟩ :=
    exists_absorbed (fun _ => 0) (m := 16777216) (by norm_num)
  have hzero : c.bytesReturned = 0 := hbytes
  refine ⟨context, context', c, hinit, hrun, habs, hraw, hm, hzero, fun hexact => ?_⟩
  have hpos := hexact.positive c List.mem_cons_self
  rw [hzero] at hpos
  exact absurd hpos (lt_irrefl 0)

end Userspace
