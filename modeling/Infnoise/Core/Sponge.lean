import Infnoise.Core.Machine
import Mathlib.Data.List.Infix

/-!
# Sponges that are drained in chunks

A machine that absorbs a block when nothing is left to give, and then gives the bytes of its state
in chunks, with a permutation after each, until the budget of the block is used up. The blocks alone
determine the stream: of two runs that absorb the same blocks one is a part of the other.
-/

namespace Core

/-- What is done with the state of a sponge. -/
structure Sponge (κ β γ : Type*) where
  absorb : κ → β → κ
  permute : κ → κ
  emit : κ → ℕ → List γ

/-- What a sponge is told to do. -/
inductive SpongeEvent (β : Type*) where
  | absorb (block : β)
  | squeeze

def SpongeEvent.block {β : Type*} : SpongeEvent β → Option β
  | absorb block => some block
  | squeeze => none

namespace Sponge

variable {κ β γ : Type*} (S : Sponge κ β γ) (budget chunk : ℕ)

/-- Give the next chunk. The second component of a state is what is left to give. -/
def drain (s : κ × ℕ) : List γ × (κ × ℕ) :=
  (S.emit s.1 (min chunk s.2), (S.permute s.1, s.2 - min chunk s.2))

/-- A block is absorbed when nothing is left, and its first chunk is given at once. -/
def step (s : κ × ℕ) : SpongeEvent β → Option (List γ × (κ × ℕ))
  | .absorb block => if s.2 = 0 then some (S.drain chunk (S.absorb s.1 block, budget)) else none
  | .squeeze => if 0 < s.2 then some (S.drain chunk s) else none

variable {S budget chunk} {s s₁ s₂ : κ × ℕ} {cs ds : List (Call (κ × ℕ) (SpongeEvent β) (List γ))}

/-- The blocks absorbed in a run. -/
def blocks (cs : List (Call (κ × ℕ) (SpongeEvent β) (List γ))) : List β :=
  cs.filterMap fun c => c.input.block

/-- The bytes given in a run. -/
def stream (cs : List (Call (κ × ℕ) (SpongeEvent β) (List γ))) : List γ :=
  cs.flatMap fun c => c.output

/-- What is left decides between absorbing and squeezing. -/
lemma step_isSome_iff {e : SpongeEvent β} {o : List γ} (h : S.step budget chunk s e = some (o, s₁)) :
    e = .squeeze ↔ 0 < s.2 := by
  cases e with
  | absorb block =>
    rw [step] at h
    split at h
    · rename_i hleft
      simp [hleft]
    · cases h
  | squeeze =>
    rw [step] at h
    split at h
    · rename_i hleft
      simp [hleft]
    · cases h

/-- The blocks determine a run, as far as it goes. -/
lemma prefix_or_prefix (h₁ : Run (S.step budget chunk) s cs s₁)
    (h₂ : Run (S.step budget chunk) s ds s₂) (hblocks : blocks cs = blocks ds) :
    cs <+: ds ∨ ds <+: cs := by
  induction h₁ generalizing ds with
  | nil => exact .inl List.nil_prefix
  | @cons s s' s'' e o cs hstep _ ih =>
    cases h₂ with
    | nil => exact .inr List.nil_prefix
    | @cons _ t' _ e' o' ds hstep' hrun' =>
      have hkind := (step_isSome_iff hstep).trans (step_isSome_iff hstep').symm
      have hevent : e = e' ∧ blocks cs = blocks ds := by
        cases e with
        | squeeze =>
          obtain rfl := hkind.mp rfl
          exact ⟨rfl, hblocks⟩
        | absorb block =>
          cases e' with
          | squeeze => cases hkind.mpr rfl
          | absorb block' =>
            obtain ⟨rfl, hrest⟩ := List.cons.inj hblocks
            exact ⟨rfl, hrest⟩
      obtain ⟨rfl, hrest⟩ := hevent
      obtain ⟨rfl, rfl⟩ := Prod.mk.inj (Option.some.inj (hstep.symm.trans hstep'))
      simpa only [List.prefix_cons_inj] using ih hrun' hrest

/-- Squeezing uses up what is left. -/
lemma length_add_le (hchunk : 0 < chunk) (h : Run (S.step budget chunk) s cs s₁)
    (hblocks : blocks cs = []) : cs.length + s₁.2 ≤ s.2 := by
  induction h with
  | nil => simp
  | @cons s s' s'' e o cs hstep _ ih =>
    cases e with
    | absorb block => cases hblocks
    | squeeze =>
      rw [step] at hstep
      split at hstep
      · rename_i hleft
        cases hstep
        have := ih hblocks
        simp only [List.length_cons]
        omega
      · cases hstep

/-- Two runs that absorb the same blocks and leave the same to give are equal. -/
lemma eq_of_left_eq (hchunk : 0 < chunk) (h₁ : Run (S.step budget chunk) s cs s₁)
    (h₂ : Run (S.step budget chunk) s ds s₂) (hblocks : blocks cs = blocks ds)
    (hleft : s₁.2 = s₂.2) : cs = ds ∧ s₁ = s₂ := by
  have hext : ∀ {cs ds : List (Call (κ × ℕ) (SpongeEvent β) (List γ))} {s₁ s₂ : κ × ℕ},
      Run (S.step budget chunk) s cs s₁ → Run (S.step budget chunk) s ds s₂ →
      blocks cs = blocks ds → s₁.2 = s₂.2 → cs <+: ds → cs = ds := by
    rintro cs _ s₁ s₂ h₁ h₂ hblocks hleft ⟨es, rfl⟩
    obtain ⟨s₁', h₁', hes⟩ := Run.append_iff.mp h₂
    obtain rfl := h₁.unique h₁'
    rw [blocks, blocks, List.filterMap_append, List.self_eq_append_right] at hblocks
    have hlen := length_add_le hchunk hes hblocks
    rw [List.eq_nil_of_length_eq_zero (by omega : es.length = 0), List.append_nil]
  have heq : cs = ds := by
    rcases prefix_or_prefix h₁ h₂ hblocks with hpre | hpre
    · exact hext h₁ h₂ hblocks hleft hpre
    · exact (hext h₂ h₁ hblocks.symm hleft.symm hpre).symm
  subst heq
  exact ⟨rfl, h₁.unique h₂⟩

/-- The stream of a part of a run is a part of its stream. -/
lemma stream_prefix (h : cs <+: ds) : stream cs <+: stream ds := by
  obtain ⟨es, rfl⟩ := h
  rw [stream, stream, List.flatMap_append]
  exact List.prefix_append _ _

/-- The stream of a run that is abstracted from calls of another machine. -/
lemma stream_filterMap {α : Type*} {f : α → Option (Call (κ × ℕ) (SpongeEvent β) (List γ))}
    {bytes : α → List γ} {as : List α}
    (hnone : ∀ a ∈ as, f a = none → bytes a = [])
    (hsome : ∀ a ∈ as, ∀ d, f a = some d → d.output = bytes a) :
    stream (as.filterMap f) = as.flatMap bytes := by
  induction as with
  | nil => rfl
  | cons a as ih =>
    have hrest := ih (fun a ha => hnone a (List.mem_cons_of_mem _ ha))
      (fun a ha => hsome a (List.mem_cons_of_mem _ ha))
    rcases hf : f a with _ | d
    · rw [List.filterMap_cons_none hf, hrest, List.flatMap_cons, hnone a List.mem_cons_self hf,
        List.nil_append]
    · rw [List.filterMap_cons_some hf, List.flatMap_cons, ← hsome a List.mem_cons_self d hf, ← hrest]
      rfl

/-- A machine drains a sponge when each of its calls is a step on the sponge in its state, or leaves
that alone and gives nothing. -/
lemma refines_of_step {σ ι ο : Type*} {step' : σ → ι → Option (ο × σ)} {I : σ → Prop}
    {P : Call σ ι ο → Prop} (view : σ → κ × ℕ) (event : Call σ ι ο → Option (SpongeEvent β))
    (bytes : Call σ ι ο → List γ)
    (hstep : ∀ c : Call σ ι ο, step' c.before c.input = some (c.output, c.after) → P c →
      I c.before → I c.after ∧ (event c = none → bytes c = [] ∧ view c.after = view c.before) ∧
        ∀ e, event c = some e →
          S.step budget chunk (view c.before) e = some (bytes c, view c.after))
    {s s' : σ} {cs : List (Call σ ι ο)} (h : Run step' s cs s') (hP : ∀ c ∈ cs, P c) (hI : I s) :
    let onSponge (c : Call σ ι ο) : Option (Call (κ × ℕ) (SpongeEvent β) (List γ)) :=
      (event c).map fun e => ⟨view c.before, e, bytes c, view c.after⟩
    Run (S.step budget chunk) (view s) (cs.filterMap onSponge) (view s') ∧
      blocks (cs.filterMap onSponge) = cs.filterMap (fun c => (event c).bind SpongeEvent.block) ∧
      stream (cs.filterMap onSponge) = cs.flatMap bytes := by
  intro onSponge
  refine ⟨?_, ?_, ?_⟩
  · refine h.simulate_filterMap view onSponge ?_ hP hI
    intro c hcall hPc hIc
    obtain ⟨hI', hnone, hsome⟩ := hstep c hcall hPc hIc
    refine ⟨hI', fun hf => (hnone (Option.map_eq_none_iff.mp hf)).2, fun d hd => ?_⟩
    obtain ⟨e, he, rfl⟩ := Option.map_eq_some_iff.mp hd
    exact ⟨rfl, rfl, hsome e he⟩
  · rw [blocks, List.filterMap_filterMap]
    congr 1
    funext c
    rw [Option.bind_map]
    rfl
  · have hinv := (h.invariant_of (fun c hcall hPc hIc => (hstep c hcall hPc hIc).1) hP hI).1
    refine stream_filterMap (fun c hc hf => ?_) fun c hc d hd => ?_
    · obtain ⟨_, hnone, _⟩ := hstep c (h.step_of_mem hc) (hP c hc) (hinv c hc).1
      exact (hnone (Option.map_eq_none_iff.mp hf)).1
    · obtain ⟨e, _, rfl⟩ := Option.map_eq_some_iff.mp hd
      rfl

/-! ### Giving everything -/

/-- A chunk makes what is left smaller. -/
lemma drain_lt (S : Sponge κ β γ) (h : 0 < s.2 ∧ 0 < chunk) : (S.drain chunk s).2.2 < s.2 := by
  rw [drain]
  dsimp only
  omega

/-- All that is left, chunk by chunk, and the state after it. -/
def giveAll (S : Sponge κ β γ) (chunk : ℕ) (s : κ × ℕ) : List γ × κ :=
  if 0 < s.2 ∧ 0 < chunk then
    let rest := giveAll S chunk (S.drain chunk s).2
    ((S.drain chunk s).1 ++ rest.1, rest.2)
  else ([], s.1)
termination_by s.2
decreasing_by exact drain_lt _ ‹_›

/-- Blocks are absorbed one after the other, and everything is given after each. -/
def giveBlocks (S : Sponge κ β γ) (budget chunk : ℕ) : κ → List β → List γ × κ
  | k, [] => ([], k)
  | k, block :: blocks =>
    let given := S.giveAll chunk (S.absorb k block, budget)
    let rest := giveBlocks S budget chunk given.2 blocks
    (given.1 ++ rest.1, rest.2)

lemma giveAll_of_eq (hleft : s.2 = 0) : S.giveAll chunk s = ([], s.1) := by
  rw [giveAll, if_neg (by simp [hleft])]

lemma giveAll_of_pos (hchunk : 0 < chunk) (hleft : 0 < s.2) :
    S.giveAll chunk s = ((S.drain chunk s).1 ++ (S.giveAll chunk (S.drain chunk s).2).1,
      (S.giveAll chunk (S.drain chunk s).2).2) := by
  rw [giveAll, if_pos ⟨hleft, hchunk⟩]

/-- A run at whose end nothing is left has given all that was left at its start, and then all of
every block. -/
lemma stream_eq_giveBlocks (hbudget : 0 < budget) (hchunk : 0 < chunk)
    (h : Run (S.step budget chunk) s cs s₁) (hleft : s₁.2 = 0) :
    stream cs = (S.giveAll chunk s).1 ++
      (S.giveBlocks budget chunk (S.giveAll chunk s).2 (blocks cs)).1 := by
  induction h with
  | nil s =>
    rw [giveAll_of_eq hleft]
    rfl
  | @cons s s' s'' e o cs hstep _ ih =>
    have hrest := ih hleft
    rw [stream] at hrest ⊢
    rw [List.flatMap_cons, hrest]
    cases e with
    | absorb block =>
      rw [step] at hstep
      split at hstep
      · rename_i hzero
        cases hstep
        have hall := giveAll_of_pos (S := S) (s := (S.absorb s.1 block, budget)) hchunk hbudget
        rw [giveAll_of_eq hzero]
        change _ = [] ++ (S.giveBlocks budget chunk s.1 (block :: blocks cs)).1
        simp only [giveBlocks, hall, List.nil_append, List.append_assoc]
        rfl
      · cases hstep
    | squeeze =>
      rw [step] at hstep
      split at hstep
      · rename_i hpos
        cases hstep
        rw [giveAll_of_pos hchunk hpos, List.append_assoc]
        rfl
      · cases hstep

/-- What a run gives, and what is left to give at its end, is what was left at its start and then all
of every block. -/
lemma stream_append_giveAll (hbudget : 0 < budget) (hchunk : 0 < chunk)
    (h : Run (S.step budget chunk) s cs s₁) :
    stream cs ++ (S.giveAll chunk s₁).1 = (S.giveAll chunk s).1 ++
      (S.giveBlocks budget chunk (S.giveAll chunk s).2 (blocks cs)).1 := by
  induction h with
  | nil s => simp [stream, blocks, giveBlocks]
  | @cons s s' s'' e o cs hstep _ ih =>
    rw [stream] at ih ⊢
    rw [List.flatMap_cons, List.append_assoc, ih]
    cases e with
    | absorb block =>
      rw [step] at hstep
      split at hstep
      · rename_i hzero
        cases hstep
        have hall := giveAll_of_pos (S := S) (s := (S.absorb s.1 block, budget)) hchunk hbudget
        rw [giveAll_of_eq hzero]
        change _ = [] ++ (S.giveBlocks budget chunk s.1 (block :: blocks cs)).1
        simp only [giveBlocks, hall, List.nil_append, List.append_assoc]
        rfl
      · cases hstep
    | squeeze =>
      rw [step] at hstep
      split at hstep
      · rename_i hpos
        cases hstep
        rw [giveAll_of_pos hchunk hpos, List.append_assoc]
        rfl
      · cases hstep

end Sponge

end Core
