import Mathlib.Algebra.GroupWithZero.Nat
import Mathlib.Logic.Basic
import Mathlib.Data.List.Basic
import Mathlib.Data.List.Induction

/-!
# Runs of partial machines

A machine is a step function `σ → ι → Option (ο × σ)`: from a state and an input it
returns an output and the next state, or `none` when the step does not come to an end.
`Run` lists the calls of a finite run, each with the states around it, so that a property
of a run can speak about any call, any two calls, or the calls between two points.
-/

namespace Core

variable {σ ι ο : Type*}

/-- One call of a machine: where it started, what it was given, what it returned, where it ended. -/
structure Call (σ ι ο : Type*) where
  before : σ
  input : ι
  output : ο
  after : σ

/-- `Run step s cs s'`: the calls `cs`, in order, lead from `s` to `s'`. -/
inductive Run (step : σ → ι → Option (ο × σ)) : σ → List (Call σ ι ο) → σ → Prop where
  | nil (s : σ) : Run step s [] s
  | cons {s s' s'' : σ} {i : ι} {o : ο} {cs : List (Call σ ι ο)}
      (h : step s i = some (o, s')) (hrun : Run step s' cs s'') :
      Run step s (⟨s, i, o, s'⟩ :: cs) s''

namespace Run

variable {step : σ → ι → Option (ο × σ)} {s s' s'' : σ} {cs ds : List (Call σ ι ο)}

@[simp] lemma nil_iff : Run step s [] s' ↔ s = s' := by
  constructor
  · intro h
    cases h
    rfl
  · rintro rfl
    exact .nil s

lemma cons_iff {c : Call σ ι ο} :
    Run step s (c :: cs) s' ↔
      c.before = s ∧ step s c.input = some (c.output, c.after) ∧ Run step c.after cs s' := by
  constructor
  · intro h
    cases h with
    | cons h hrun => exact ⟨rfl, h, hrun⟩
  · rintro ⟨rfl, h, hrun⟩
    exact .cons h hrun

/-- A run over a concatenation is a run over each part. -/
lemma append_iff : Run step s (cs ++ ds) s'' ↔ ∃ s', Run step s cs s' ∧ Run step s' ds s'' := by
  induction cs generalizing s with
  | nil => simp
  | cons c cs ih =>
    simp only [List.cons_append, cons_iff, ih]
    constructor
    · rintro ⟨hb, hstep, s', hcs, hds⟩
      exact ⟨s', ⟨hb, hstep, hcs⟩, hds⟩
    · rintro ⟨s', ⟨hb, hstep, hcs⟩, hds⟩
      exact ⟨hb, hstep, s', hcs, hds⟩

lemma append (h : Run step s cs s') (h' : Run step s' ds s'') : Run step s (cs ++ ds) s'' :=
  append_iff.mpr ⟨s', h, h'⟩

lemma single {i : ι} {o : ο} (h : step s i = some (o, s')) : Run step s [⟨s, i, o, s'⟩] s' :=
  .cons h (.nil s')

/-- A run ends where its last call does. -/
lemma after_getLast? (h : Run step s cs s') {c : Call σ ι ο} (hc : cs.getLast? = some c) :
    c.after = s' := by
  induction h with
  | nil => cases hc
  | @cons s s' s'' i o cs hstep hrun ih =>
    rcases cs with _ | ⟨d, cs⟩
    · cases hc
      exact nil_iff.mp hrun
    · exact ih (by rwa [List.getLast?_cons_cons] at hc)

/-- Every call of a run is a step of the machine. -/
lemma step_of_mem (h : Run step s cs s') {c : Call σ ι ο} (hc : c ∈ cs) :
    step c.before c.input = some (c.output, c.after) := by
  induction h with
  | nil => cases hc
  | cons h _ ih =>
    rcases List.mem_cons.mp hc with rfl | hc
    · exact h
    · exact ih hc

/-- Invariant rule, with a condition `P` that every call of the run is known to meet: what
holds at the start and is kept by each call holds around every call and at the end. -/
lemma invariant_of {I : σ → Prop} {P : Call σ ι ο → Prop}
    (hstep : ∀ c : Call σ ι ο, step c.before c.input = some (c.output, c.after) → P c →
      I c.before → I c.after)
    (h : Run step s cs s') (hP : ∀ c ∈ cs, P c) (hs : I s) :
    (∀ c ∈ cs, I c.before ∧ I c.after) ∧ I s' := by
  induction h with
  | nil => exact ⟨by simp, hs⟩
  | @cons s s' s'' i o cs h _ ih =>
    have hs' : I s' := hstep ⟨s, i, o, s'⟩ h (hP _ (List.mem_cons_self)) hs
    obtain ⟨hcs, hend⟩ := ih (fun c hc => hP c (List.mem_cons_of_mem _ hc)) hs'
    refine ⟨fun c hc => ?_, hend⟩
    rcases List.mem_cons.mp hc with rfl | hc
    · exact ⟨hs, hs'⟩
    · exact hcs c hc

/-- Invariant rule: what holds at the start and is kept by every step holds along the run. -/
lemma invariant {I : σ → Prop}
    (hstep : ∀ s i o s', step s i = some (o, s') → I s → I s')
    (h : Run step s cs s') (hs : I s) : (∀ c ∈ cs, I c.before ∧ I c.after) ∧ I s' :=
  h.invariant_of (P := fun _ => True) (fun _ hc _ hI => hstep _ _ _ _ hc hI)
    (fun _ _ => trivial) hs

/-- When a call keeps `P` just if `Q` holds of it, all calls of a run keep `P` just if `Q` holds of
all of them. -/
lemma forall_after_iff {I P : σ → Prop} {Q : Call σ ι ο → Prop}
    (hstep : ∀ c : Call σ ι ο, step c.before c.input = some (c.output, c.after) → I c.before →
      P c.before → I c.after ∧ (P c.after ↔ Q c))
    (h : Run step s cs s') (hI : I s) (hP : P s) : (∀ c ∈ cs, P c.after) ↔ ∀ c ∈ cs, Q c := by
  induction h with
  | nil => simp
  | @cons s s' s'' i o cs hcall _ ih =>
    obtain ⟨hI', hiff⟩ := hstep ⟨s, i, o, s'⟩ hcall hI hP
    rw [List.forall_mem_cons, List.forall_mem_cons, ← hiff]
    exact and_congr_right fun hP' => ih hI' hP'

/-- Invariant rule for what holds of the calls so far and the state they lead to. -/
lemma history {I : List (Call σ ι ο) → σ → Prop}
    (hstep : ∀ (cs : List (Call σ ι ο)) (c : Call σ ι ο), Run step s cs c.before →
      step c.before c.input = some (c.output, c.after) → I cs c.before → I (cs ++ [c]) c.after)
    (h : Run step s cs s') (hnil : I [] s) : I cs s' := by
  induction cs using List.reverseRecOn generalizing s' with
  | nil =>
    obtain rfl := nil_iff.mp h
    exact hnil
  | append_singleton cs c ih =>
    obtain ⟨s₁, hcs, hlast⟩ := append_iff.mp h
    obtain ⟨rfl, hc, hend⟩ := cons_iff.mp hlast
    obtain rfl := nil_iff.mp hend
    exact hstep cs c hcs hc (ih hcs)

/-- A quantity that every call conserves, up to the amount `f` it moves, is conserved by the run. -/
lemma sum_eq {q : σ → ℕ} {f : Call σ ι ο → ℕ} (h : Run step s cs s')
    (hstep : ∀ c ∈ cs, f c + q c.after = q c.before) :
    (cs.map f).sum + q s' = q s := by
  induction h with
  | nil => simp
  | @cons s s' s'' i o cs h _ ih =>
    have hc := hstep ⟨s, i, o, s'⟩ List.mem_cons_self
    have hcs := ih fun c hc => hstep c (List.mem_cons_of_mem _ hc)
    simp only [List.map_cons, List.sum_cons] at hc ⊢
    omega

/-- What goes into a queue comes out of it in the same order: when every call takes `f` from the
front of `q` and puts `g` at its end, so does the run. -/
lemma flatMap_append_eq {α : Type*} {q : σ → List α} {f g : Call σ ι ο → List α}
    (h : Run step s cs s') (hstep : ∀ c ∈ cs, f c ++ q c.after = q c.before ++ g c) :
    cs.flatMap f ++ q s' = q s ++ cs.flatMap g := by
  induction h with
  | nil => simp
  | @cons s s' s'' i o cs h _ ih =>
    have hc := hstep ⟨s, i, o, s'⟩ List.mem_cons_self
    have hcs := ih fun c hc => hstep c (List.mem_cons_of_mem _ hc)
    dsimp only at hc
    rw [List.flatMap_cons, List.flatMap_cons, List.append_assoc, hcs, ← List.append_assoc, hc,
      List.append_assoc]

/-- What every call leaves in its state, when it depends on the input only. -/
lemma map_after {β : Type*} {obs : σ → β} {f : ι → β} (h : Run step s cs s')
    (hstep : ∀ t i o t', step t i = some (o, t') → obs t' = f i) :
    cs.map (fun c => obs c.after) = (cs.map Call.input).map f := by
  induction h with
  | nil => rfl
  | cons hs _ ih =>
    simp only [List.map_cons, List.cons.injEq]
    exact ⟨hstep _ _ _ _ hs, ih⟩

/-- A machine is a function, so the calls of a run determine where it ends. -/
lemma unique (h : Run step s cs s') (h' : Run step s cs s'') : s' = s'' := by
  rcases hlast : cs.getLast? with _ | c
  · rw [List.getLast?_eq_none_iff] at hlast
    subst hlast
    exact (nil_iff.mp h).symm.trans (nil_iff.mp h')
  · exact (h.after_getLast? hlast).symm.trans (h'.after_getLast? hlast)

/-- When every step from a state with `I` returns and keeps `I`, there is a run on any inputs. -/
lemma exists_of_total {I : σ → Prop} (hstep : ∀ s i, I s → ∃ r, step s i = some r ∧ I r.2)
    (hs : I s) (inputs : List ι) : ∃ cs s', Run step s cs s' ∧ cs.map Call.input = inputs := by
  induction inputs generalizing s with
  | nil => exact ⟨[], s, .nil s, rfl⟩
  | cons i inputs ih =>
    obtain ⟨⟨o, t⟩, hi, ht⟩ := hstep s i hs
    obtain ⟨cs, s', hcs, hin⟩ := ih ht
    exact ⟨_, s', .cons hi hcs, by rw [List.map_cons, hin]⟩

section Simulation

variable {τ κ ρ : Type*} {step' : τ → κ → Option (ρ × τ)} {I : σ → Prop}

/-- Refinement: when every step of a machine is a step of another one on the abstract states, or
leaves the abstract state alone, every run is a run of the other one. The invariant `I` is what
the steps need to know of their states, `P` what they need to know of their calls. -/
lemma simulate_filterMap {P : Call σ ι ο → Prop} (abs : σ → τ)
    (f : Call σ ι ο → Option (Call τ κ ρ))
    (hsim : ∀ c : Call σ ι ο, step c.before c.input = some (c.output, c.after) → P c → I c.before →
      I c.after ∧ (f c = none → abs c.after = abs c.before) ∧
        ∀ d, f c = some d → d.before = abs c.before ∧ d.after = abs c.after ∧
          step' d.before d.input = some (d.output, d.after))
    (h : Run step s cs s') (hP : ∀ c ∈ cs, P c) (hs : I s) :
    Run step' (abs s) (cs.filterMap f) (abs s') := by
  induction h with
  | nil => exact .nil _
  | @cons s s' s'' i o cs hstep _ ih =>
    obtain ⟨hI, hnone, hsome⟩ := hsim ⟨s, i, o, s'⟩ hstep (hP _ List.mem_cons_self) hs
    have hrest := ih (fun c hc => hP c (List.mem_cons_of_mem _ hc)) hI
    rcases hf : f ⟨s, i, o, s'⟩ with _ | d
    · rw [List.filterMap_cons_none hf, ← hnone hf]
      exact hrest
    · obtain ⟨hbefore, hafter, hstep'⟩ := hsome d hf
      rw [List.filterMap_cons_some hf, cons_iff]
      exact ⟨hbefore, hbefore ▸ hstep', hafter ▸ hrest⟩

/-- Refinement in which every step of a machine is a step of the other one. -/
lemma simulate (abs : σ → τ) (f : Call σ ι ο → Call τ κ ρ)
    (hsim : ∀ c : Call σ ι ο, step c.before c.input = some (c.output, c.after) → I c.before →
      I c.after ∧ (f c).before = abs c.before ∧ (f c).after = abs c.after ∧
        step' (f c).before (f c).input = some ((f c).output, (f c).after))
    (h : Run step s cs s') (hs : I s) : Run step' (abs s) (cs.map f) (abs s') := by
  have hrun : Run step' (abs s) (cs.filterMap fun c => some (f c)) (abs s') :=
    h.simulate_filterMap (P := fun _ => True) (I := I) abs _ (fun c hstep _ hI => by
      obtain ⟨hI', hbefore, hafter, hstep'⟩ := hsim c hstep hI
      refine ⟨hI', (fun hnone => by cases hnone), ?_⟩
      intro d hd
      cases hd
      exact ⟨hbefore, hafter, hstep'⟩)
    (fun _ _ => trivial) hs
  rwa [List.filterMap_eq_map'] at hrun

end Simulation

end Run

/-! ### A run followed on another machine -/

section Follow

variable {τ : Type*} {step : σ → ι → Option (ο × σ)} {step' : τ → ι → Option (ο × τ)}

/-- A call that can be followed, before calls that can. -/
lemma Run.follow_cons {c : Call σ ι ο} {cs : List (Call σ ι ο)} {t t₁ : τ} {P : τ → Prop}
    (hstep : step' t c.input = some (c.output, t₁))
    (h : ∃ ds t', Run step' t₁ ds t' ∧ ds.map Call.input = cs.map Call.input ∧
      ds.map Call.output = cs.map Call.output ∧ P t') :
    ∃ ds t', Run step' t ds t' ∧ ds.map Call.input = (c :: cs).map Call.input ∧
      ds.map Call.output = (c :: cs).map Call.output ∧ P t' := by
  obtain ⟨ds, t', hds, hin, hout, hP⟩ := h
  refine ⟨_, t', .cons hstep hds, ?_, ?_, hP⟩
  · rw [List.map_cons, List.map_cons, hin]
  · rw [List.map_cons, List.map_cons, hout]

/-- When the steps from related states return the same and leave related states, a run of the one
machine is one of the other, on the same inputs and with the same outputs. -/
lemma Run.follow {R : σ → τ → Prop}
    (hsim : ∀ s t i o s', R s t → step s i = some (o, s') →
      ∃ t', step' t i = some (o, t') ∧ R s' t')
    {s s' : σ} {t : τ} {cs : List (Call σ ι ο)} (h : Run step s cs s') (hR : R s t) :
    ∃ ds t', Run step' t ds t' ∧ ds.map Call.input = cs.map Call.input ∧
      ds.map Call.output = cs.map Call.output ∧ R s' t' := by
  induction h generalizing t with
  | nil s => exact ⟨[], t, .nil t, rfl, rfl, hR⟩
  | cons hstep _ ih =>
    obtain ⟨t₁, hstep', hR'⟩ := hsim _ _ _ _ _ hR hstep
    exact Run.follow_cons hstep' (ih hR')

end Follow

/-! ### Two machines in lockstep -/

/-- The number of calls before the first one that returned `false`, or of all calls. -/
def firstFalse (cs : List (Call σ ι Bool)) : ℕ := cs.findIdx fun c => !c.output

section Lockstep

variable {τ : Type*} {step : σ → ι → Option (Bool × σ)} {step' : τ → ι → Option (Bool × τ)}

lemma firstFalse_cons (c : Call σ ι Bool) (cs : List (Call σ ι Bool)) :
    firstFalse (c :: cs) = if c.output then firstFalse cs + 1 else 0 := by
  rw [firstFalse, List.findIdx_cons]
  cases c.output <;> rfl

/-- Machines whose calls return the same from related states, and leave related states when they
return `true`, return `false` for the first time together and are related up to there. -/
lemma Run.lockstep {R : σ → τ → Prop}
    (hsim : ∀ s t i b b' s' t', R s t → step s i = some (b, s') → step' t i = some (b', t') →
      b = b' ∧ (b = true → R s' t'))
    {s s' : σ} {t t' : τ} {cs : List (Call σ ι Bool)} {ds : List (Call τ ι Bool)}
    (h : Run step s cs s') (h' : Run step' t ds t')
    (hin : cs.map Call.input = ds.map Call.input) (hR : R s t) :
    firstFalse cs = firstFalse ds ∧ ∀ n ≤ firstFalse cs, ∀ u v,
      Run step s (cs.take n) u → Run step' t (ds.take n) v → R u v := by
  induction h generalizing t ds with
  | nil s =>
    obtain rfl : ds = [] := by
      cases ds with
      | nil => rfl
      | cons d ds => cases hin
    refine ⟨rfl, fun n _ u v hu hv => ?_⟩
    rw [List.take_nil, Run.nil_iff] at hu hv
    exact hu ▸ hv ▸ hR
  | @cons s s₁ s' i b cs hstep hrun ih =>
    cases h' with
    | nil => cases hin
    | @cons _ t₁ _ j b' ds hstep' hrun' =>
      obtain ⟨rfl, hin'⟩ := List.cons.inj hin
      obtain ⟨rfl, hnext⟩ := hsim _ _ _ _ _ _ _ hR hstep hstep'
      simp only [firstFalse_cons]
      cases b with
      | false =>
        refine ⟨rfl, fun n hn u v hu hv => ?_⟩
        obtain rfl : n = 0 := Nat.le_zero.mp hn
        rw [List.take_zero, Run.nil_iff] at hu hv
        exact hu ▸ hv ▸ hR
      | true =>
        obtain ⟨hfirst, hrel⟩ := ih hrun' hin' (hnext rfl)
        refine ⟨congrArg (· + 1) hfirst, fun n hn u v hu hv => ?_⟩
        cases n with
        | zero =>
          rw [List.take_zero, Run.nil_iff] at hu hv
          exact hu ▸ hv ▸ hR
        | succ n =>
          rw [List.take_succ_cons, Run.cons_iff] at hu hv
          exact hrel n (Nat.le_of_succ_le_succ hn) u v hu.2.2 hv.2.2

/-- Machines in lockstep that never return `false` stay related, and what two calls tell about
related states is the same on both sides. -/
lemma Run.lockstep_map {R : σ → τ → Prop} {β : Type*} {f : Call σ ι Bool → β}
    {g : Call τ ι Bool → β}
    (hsim : ∀ s t i b b' s' t', R s t → step s i = some (b, s') → step' t i = some (b', t') →
      b = b' ∧ (b = true → R s' t'))
    (hfg : ∀ c d, R c.before d.before → c.input = d.input → f c = g d)
    {s s' : σ} {t t' : τ} {cs : List (Call σ ι Bool)} {ds : List (Call τ ι Bool)}
    (h : Run step s cs s') (h' : Run step' t ds t')
    (hin : cs.map Call.input = ds.map Call.input) (htrue : ∀ c ∈ cs, c.output = true)
    (hR : R s t) : R s' t' ∧ (∀ d ∈ ds, d.output = true) ∧ cs.map f = ds.map g := by
  induction h generalizing t ds with
  | nil s =>
    obtain rfl : ds = [] := by
      cases ds with
      | nil => rfl
      | cons d ds => cases hin
    obtain rfl := Run.nil_iff.mp h'
    exact ⟨hR, (fun d hd => by cases hd), rfl⟩
  | @cons s s₁ s' i b cs hstep hrun ih =>
    cases h' with
    | nil => cases hin
    | @cons _ t₁ _ j b' ds hstep' hrun' =>
      obtain ⟨rfl, hin'⟩ := List.cons.inj hin
      obtain ⟨hhead, htail⟩ := List.forall_mem_cons.mp htrue
      obtain ⟨rfl, hnext⟩ := hsim _ _ _ _ _ _ _ hR hstep hstep'
      obtain ⟨hR', hds, hmap⟩ := ih hrun' hin' htail (hnext hhead)
      refine ⟨hR', List.forall_mem_cons.mpr ⟨hhead, hds⟩, ?_⟩
      rw [List.map_cons, List.map_cons, hmap, hfg ⟨s, i, b, s₁⟩ ⟨t, i, b, t₁⟩ hR rfl]

end Lockstep

/-- The states a machine can reach from `s`. -/
def Reachable (step : σ → ι → Option (ο × σ)) (s s' : σ) : Prop :=
  ∃ cs, Run step s cs s'

namespace Reachable

variable {step : σ → ι → Option (ο × σ)} {s s' : σ}

/-- What every step returns in, and keeps, holds of the states a machine can reach. -/
lemma invariant_of_total {I : σ → Prop} (hstep : ∀ s i, I s → ∃ r, step s i = some r ∧ I r.2)
    (h : Reachable step s s') (hs : I s) : I s' := by
  obtain ⟨cs, hcs⟩ := h
  refine (hcs.invariant (fun s i o s' hcall hI => ?_) hs).2
  obtain ⟨r, hr, hr'⟩ := hstep s i hI
  rw [hcall] at hr
  cases hr
  exact hr'

end Reachable

end Core
