import Mathlib.Data.Nat.Init
import Mathlib.Data.Nat.Basic
import Mathlib.Logic.Function.Basic

/-!
# Counted loops and memory

`forLoop n body s` is `for (i = 0; i < n; i++)` on a state. A buffer is a function from
indices; `memcpy` overwrites a range of it.
-/

namespace Core

variable {σ τ α : Type*}

/-- `for (i = 0; i < n; i++) body`. -/
def forLoop : ℕ → (ℕ → σ → σ) → σ → σ
  | 0, _, s => s
  | n + 1, body, s => body n (forLoop n body s)

@[simp] lemma forLoop_zero (body : ℕ → σ → σ) (s : σ) : forLoop 0 body s = s := rfl

lemma forLoop_succ (n : ℕ) (body : ℕ → σ → σ) (s : σ) :
    forLoop (n + 1) body s = body n (forLoop n body s) := rfl

/-- Loop rule: what holds before the first round and is kept by every round holds at the end. -/
lemma forLoop_invariant {n : ℕ} {body : ℕ → σ → σ} {s : σ} (I : ℕ → σ → Prop) (h0 : I 0 s)
    (hstep : ∀ i < n, ∀ t, I i t → I (i + 1) (body i t)) : I n (forLoop n body s) := by
  induction n with
  | zero => exact h0
  | succ n ih =>
    exact hstep n (Nat.lt_succ_self n) _ (ih fun i hi => hstep i (Nat.lt_succ_of_lt hi))

/-- Two loops over related states end in related states. -/
lemma forLoop_rel {n : ℕ} {body : ℕ → σ → σ} {body' : ℕ → τ → τ} {s : σ} {t : τ}
    (R : ℕ → σ → τ → Prop) (h0 : R 0 s t)
    (hstep : ∀ i < n, ∀ a b, R i a b → R (i + 1) (body i a) (body' i b)) :
    R n (forLoop n body s) (forLoop n body' t) := by
  induction n with
  | zero => exact h0
  | succ n ih =>
    exact hstep n (Nat.lt_succ_self n) _ _ (ih fun i hi => hstep i (Nat.lt_succ_of_lt hi))

lemma forLoop_congr {n : ℕ} {body body' : ℕ → σ → σ} (s : σ)
    (h : ∀ i < n, ∀ t, body i t = body' i t) : forLoop n body s = forLoop n body' s := by
  apply forLoop_rel (fun _ => Eq) rfl
  intro i hi a b hab
  rw [hab, h i hi b]

/-- Rounds that lose nothing make a loop that loses nothing. -/
lemma forLoop_injective {n : ℕ} {body : ℕ → σ → σ} (h : ∀ i < n, Function.Injective (body i)) :
    Function.Injective (forLoop n body) := by
  induction n with
  | zero => exact fun _ _ heq => heq
  | succ n ih =>
    intro s t heq
    exact ih (fun i hi => h i (Nat.lt_succ_of_lt hi)) (h n (Nat.lt_succ_self n) heq)

lemma forLoop_add (m n : ℕ) (body : ℕ → σ → σ) (s : σ) :
    forLoop (m + n) body s = forLoop n (fun i => body (m + i)) (forLoop m body s) := by
  induction n with
  | zero => rfl
  | succ n ih => rw [← Nat.add_assoc, forLoop_succ, forLoop_succ, ih]

/-- A loop nested in another is one loop over both counters. -/
lemma forLoop_nested (m : ℕ) {n : ℕ} (hn : 0 < n) (body : ℕ → ℕ → σ → σ) (s : σ) :
    forLoop m (fun x s => forLoop n (fun y s => body x y s) s) s =
      forLoop (m * n) (fun i s => body (i / n) (i % n) s) s := by
  induction m with
  | zero => rw [Nat.zero_mul, forLoop_zero, forLoop_zero]
  | succ m ih =>
    rw [forLoop_succ, ih, Nat.succ_mul, forLoop_add]
    apply forLoop_congr
    intro i hi t
    have hdiv : (m * n + i) / n = m := by
      rw [Nat.mul_comm, Nat.mul_add_div hn, Nat.div_eq_of_lt hi, Nat.add_zero]
    have hmod : (m * n + i) % n = i := by
      rw [Nat.mul_comm, Nat.mul_add_mod, Nat.mod_eq_of_lt hi]
    rw [hdiv, hmod]

/-- A loop that rewrites each entry of a vector once, from its own value, through distinct
indices. -/
lemma forLoop_set {m n : ℕ} (idx : ℕ → Fin n) (f : ℕ → α → α) (v : Vector α n)
    (hinj : ∀ i < m, ∀ j < m, idx i = idx j → i = j) :
    (∀ i < m, (forLoop m (fun k v => v.set (idx k) (f k v[idx k])) v)[idx i] = f i v[idx i]) ∧
      ∀ a : Fin n, (∀ i < m, idx i ≠ a) →
        (forLoop m (fun k v => v.set (idx k) (f k v[idx k])) v)[a] = v[a] := by
  induction m with
  | zero => simp
  | succ m ih =>
    obtain ⟨hin, hout⟩ := ih fun i hi j hj => hinj i (by omega) j (by omega)
    constructor
    · intro i hi
      rw [forLoop_succ]
      by_cases him : i = m
      · subst him
        have hold := hout (idx i) fun j hj heq =>
          absurd (hinj j (by omega) i (by omega) heq) (by omega)
        simp only [Fin.getElem_fin] at hold ⊢
        rw [Vector.getElem_set_self, hold]
      · have hne : (idx m).val ≠ (idx i).val := fun heq =>
          him (hinj i hi m (by omega) (Fin.ext heq.symm))
        have hold := hin i (by omega)
        simp only [Fin.getElem_fin] at hold ⊢
        rw [Vector.getElem_set_ne _ _ hne, hold]
    · intro a ha
      have hne : (idx m).val ≠ a.val := fun heq => ha m (by omega) (Fin.ext heq)
      have hold := hout a fun i hi => ha i (by omega)
      rw [forLoop_succ]
      simp only [Fin.getElem_fin] at hold ⊢
      rw [Vector.getElem_set_ne _ _ hne, hold]

/-! ### Loops that can stop early -/

/-- A loop whose body may stop it: the body says whether to go on, and `none` stands for a body
that does not come to an end. The result says whether every round was made. -/
def forWhile : ℕ → (ℕ → σ → Option (Bool × σ)) → σ → Option (Bool × σ)
  | 0, _, s => some (true, s)
  | n + 1, body, s =>
    match forWhile n body s with
    | some (true, s) => body n s
    | stopped => stopped

/-- Loop rule: `I` is kept by the rounds that go on, and a round that stops leads to `J`. -/
lemma forWhile_invariant {n : ℕ} {body : ℕ → σ → Option (Bool × σ)} {s s' : σ} {b : Bool}
    (I : ℕ → σ → Prop) (J : σ → Prop) (h0 : I 0 s)
    (hnext : ∀ i < n, ∀ t t', I i t → body i t = some (true, t') → I (i + 1) t')
    (hstop : ∀ i < n, ∀ t t', I i t → body i t = some (false, t') → J t')
    (h : forWhile n body s = some (b, s')) : (b = true → I n s') ∧ (b = false → J s') := by
  induction n generalizing b s' with
  | zero =>
    cases h
    exact ⟨fun _ => h0, fun hf => absurd hf (by simp)⟩
  | succ n ih =>
    have ih' := fun b t => @ih t b (fun i hi => hnext i (Nat.lt_succ_of_lt hi))
      (fun i hi => hstop i (Nat.lt_succ_of_lt hi))
    simp only [forWhile] at h
    rcases hprev : forWhile n body s with _ | ⟨_ | _, t⟩
    · simp [hprev] at h
    · rw [hprev] at h
      cases h
      exact ⟨fun hf => absurd hf (by simp), fun _ => (ih' false _ hprev).2 rfl⟩
    · rw [hprev] at h
      have hI := (ih' true t hprev).1 rfl
      refine ⟨?_, ?_⟩
      · rintro rfl
        exact hnext n (Nat.lt_succ_self n) t s' hI h
      · rintro rfl
        exact hstop n (Nat.lt_succ_self n) t s' hI h

/-- A loop keeps what every round keeps, whether or not it stops. -/
lemma forWhile_keeps {n : ℕ} {body : ℕ → σ → Option (Bool × σ)} {s s' : σ} {b : Bool}
    {I : σ → Prop} (hstep : ∀ i < n, ∀ t t' b, body i t = some (b, t') → I t → I t')
    (h : forWhile n body s = some (b, s')) (hs : I s) : I s' := by
  obtain ⟨htrue, hfalse⟩ := forWhile_invariant (fun _ => I) I hs
    (fun i hi t t' ht hbody => hstep i hi t t' true hbody ht)
    (fun i hi t t' ht hbody => hstep i hi t t' false hbody ht) h
  cases b
  · exact hfalse rfl
  · exact htrue rfl

/-- A loop ends when every round does, from the states that `I` allows. -/
lemma forWhile_returns {n : ℕ} {body : ℕ → σ → Option (Bool × σ)} {s : σ} (I : σ → Prop)
    (h0 : I s) (h : ∀ i < n, ∀ t, I t → ∃ r, body i t = some r ∧ I r.2) :
    ∃ r, forWhile n body s = some r ∧ I r.2 := by
  induction n with
  | zero => exact ⟨(true, s), rfl, h0⟩
  | succ n ih =>
    obtain ⟨⟨ok, t⟩, hprev, ht⟩ := ih fun i hi => h i (Nat.lt_succ_of_lt hi)
    rcases ok with _ | _
    · exact ⟨(false, t), by simp only [forWhile, hprev], ht⟩
    · obtain ⟨r, hr, hI⟩ := h n (Nat.lt_succ_self n) t ht
      exact ⟨r, by simp only [forWhile, hprev, hr], hI⟩

/-- A loop that goes on in lockstep with another one stops where it does. -/
lemma forWhile_sim {n : ℕ} {body : ℕ → σ → Option (Bool × σ)} {body' : ℕ → τ → Option (Bool × τ)}
    {R : σ → τ → Prop} {s s' : σ} {t : τ} {b : Bool}
    (hstep : ∀ i < n, ∀ s t b s', R s t → body i s = some (b, s') →
      ∃ t', body' i t = some (b, t') ∧ R s' t')
    (hR : R s t) (h : forWhile n body s = some (b, s')) :
    ∃ t', forWhile n body' t = some (b, t') ∧ R s' t' := by
  induction n generalizing b s' with
  | zero =>
    cases h
    exact ⟨t, rfl, hR⟩
  | succ n ih =>
    have ih' := fun b s' => @ih s' b fun i hi => hstep i (Nat.lt_succ_of_lt hi)
    simp only [forWhile] at h ⊢
    rcases hprev : forWhile n body s with _ | ⟨_ | _, s₁⟩
    · rw [hprev] at h
      cases h
    · rw [hprev] at h
      cases h
      obtain ⟨t', ht', hR'⟩ := ih' false _ hprev
      exact ⟨t', by rw [ht'], hR'⟩
    · rw [hprev] at h
      obtain ⟨t₁, ht₁, hR₁⟩ := ih' true _ hprev
      obtain ⟨t', ht', hR'⟩ := hstep n (Nat.lt_succ_self n) s₁ t₁ b s' hR₁ h
      exact ⟨t', by rw [ht₁]; exact ht', hR'⟩

/-- What the first round does not look at, the loop does not look at. -/
lemma forWhile_congr_first {n : ℕ} {body : ℕ → σ → Option (Bool × σ)} {s t : σ} (hn : 0 < n)
    (h : body 0 s = body 0 t) : forWhile n body s = forWhile n body t := by
  induction n with
  | zero => cases hn
  | succ n ih =>
    rcases Nat.eq_zero_or_pos n with rfl | hpos
    · exact h
    · rw [forWhile, ih hpos, forWhile]

/-! ### Memory -/

/-- `memcpy(dst + off, src, len)`. -/
def memcpy (dst : ℕ → α) (off : ℕ) (src : ℕ → α) (len : ℕ) : ℕ → α :=
  fun i => if off ≤ i ∧ i < off + len then src (i - off) else dst i

lemma memcpy_of_lt {dst src : ℕ → α} {off len i : ℕ} (h : off ≤ i) (h' : i < off + len) :
    memcpy dst off src len i = src (i - off) := if_pos ⟨h, h'⟩

/-- The bytes of a list, written from `off` on. -/
def memcpyList (dst : ℕ → α) (off : ℕ) (src : List α) : ℕ → α :=
  fun i => if off ≤ i then src[i - off]?.getD (dst i) else dst i

lemma memcpyList_append (dst : ℕ → α) (off : ℕ) (xs ys : List α) :
    memcpyList (memcpyList dst off xs) (off + xs.length) ys = memcpyList dst off (xs ++ ys) := by
  funext i
  simp only [memcpyList]
  by_cases hi : off + xs.length ≤ i
  · have hi' : off ≤ i := by omega
    rw [if_pos hi, if_pos hi', if_pos hi', List.getElem?_append_right (by omega),
      List.getElem?_eq_none (l := xs) (by omega), Option.getD_none, Nat.sub_sub]
  · by_cases hi' : off ≤ i
    · rw [if_neg hi, if_pos hi', if_pos hi', List.getElem?_append_left (by omega)]
    · rw [if_neg hi, if_neg hi', if_neg hi']

end Core
