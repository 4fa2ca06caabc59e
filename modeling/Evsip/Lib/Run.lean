import Mathlib.Tactic.Common

/-! Finite runs of a labelled transition relation, with the rules that carry a
fact about one step to a fact about a whole run. -/

namespace Transition

variable {σ τ ι : Type*} {step : σ → ι → σ → Prop} {s t u : σ} {is js : List ι}

/-- `Run step s is t`: the inputs `is`, taken in order, lead from `s` to `t`. -/
inductive Run (step : σ → ι → σ → Prop) : σ → List ι → σ → Prop
  | nil (s : σ) : Run step s [] s
  | cons {s t u : σ} {i : ι} {is : List ι} :
      step s i t → Run step t is u → Run step s (i :: is) u

def guarded (step : σ → ι → σ → Prop) (ok : σ → ι → Prop) : σ → ι → σ → Prop :=
  fun s i t => step s i t ∧ ok s i

theorem Run.append (h : Run step s is t) (h' : Run step t js u) : Run step s (is ++ js) u := by
  induction h with
  | nil _ => exact h'
  | cons hs _ ih => exact .cons hs (ih h')

theorem run_append_iff : Run step s (is ++ js) u ↔ ∃ t, Run step s is t ∧ Run step t js u := by
  refine ⟨fun h => ?_, fun ⟨_, h, h'⟩ => h.append h'⟩
  induction is generalizing s with
  | nil => exact ⟨s, .nil s, h⟩
  | cons i is ih =>
    cases h with
    | cons hs hr =>
      obtain ⟨t, h₁, h₂⟩ := ih hr
      exact ⟨t, .cons hs h₁, h₂⟩

theorem Run.of_guarded {ok : σ → ι → Prop} (h : Run (guarded step ok) s is t) :
    Run step s is t := by
  induction h with
  | nil s => exact .nil s
  | cons hst _ ih => exact .cons hst.1 ih

theorem Run.invariant {I : σ → Prop} (hstep : ∀ s i t, I s → step s i t → I t)
    (h : Run step s is t) (hs : I s) : I t := by
  induction h with
  | nil _ => exact hs
  | cons hst _ ih => exact ih (hstep _ _ _ hs hst)

theorem Run.invariant_of {I : σ → Prop} {P : ι → Prop}
    (hstep : ∀ s i t, I s → P i → step s i t → I t) (h : Run step s is t) (hs : I s)
    (hP : ∀ i ∈ is, P i) : I t := by
  induction h with
  | nil _ => exact hs
  | cons hst _ ih =>
    exact ih (hstep _ _ _ hs (hP _ (by simp)) hst) fun j hj => hP j (by simp [hj])

theorem Run.exists_of_progress {I : σ → Prop} {P : ι → Prop}
    (hinv : ∀ s i t, I s → P i → step s i t → I t)
    (hprog : ∀ s i, I s → P i → ∃ t, step s i t) (hs : I s) (hP : ∀ i ∈ is, P i) :
    ∃ t, Run step s is t := by
  induction is generalizing s with
  | nil => exact ⟨s, .nil s⟩
  | cons i is ih =>
    have hi := hP i (by simp)
    obtain ⟨t, ht⟩ := hprog s i hs hi
    obtain ⟨u, hu⟩ := ih (hinv s i t hs hi ht) fun j hj => hP j (by simp [hj])
    exact ⟨u, .cons ht hu⟩

theorem Run.refines {R : σ → τ → Prop} {P : ι → Prop} {f : τ → ι → τ}
    (hstep : ∀ s i t a, R s a → P i → step s i t → R t (f a i))
    (h : Run step s is t) {a : τ} (hs : R s a) (hP : ∀ i ∈ is, P i) : R t (is.foldl f a) := by
  induction h generalizing a with
  | nil _ => exact hs
  | cons hst _ ih =>
    exact ih (hstep _ _ _ _ hs (hP _ (by simp)) hst) fun j hj => hP j (by simp [hj])

theorem Run.simulates {R : σ → τ → Prop} {step' : τ → ι → τ → Prop} {a b : τ}
    (h : Run step s is t) (h' : Run step' a is b)
    (hsim : ∀ s i t a b, R s a → step s i t → step' a i b → R t b) (hs : R s a) : R t b := by
  induction h generalizing a with
  | nil _ =>
    cases h'
    exact hs
  | cons hst _ ih =>
    cases h' with
    | cons hst' hr' => exact ih hr' (hsim _ _ _ _ _ hs hst hst')

/-- A property that a step keeps exactly under `ok`, and that is never regained once lost,
holds at the end of a run exactly when every step of the run met `ok`. -/
theorem Run.good_iff_guarded {I G : σ → Prop} {ok : σ → ι → Prop}
    (hinv : ∀ s i t, I s → step s i t → I t)
    (hgood : ∀ s i t, I s → G s → step s i t → (G t ↔ ok s i))
    (hbad : ∀ s i t, I s → ¬ G s → step s i t → ¬ G t)
    (h : Run step s is t) (hi : I s) (hg : G s) :
    G t ↔ Run (guarded step ok) s is t := by
  constructor
  · intro ht
    induction h with
    | nil s => exact .nil s
    | @cons _ s₁ _ _ _ hst hr ih =>
      have hi' := hinv _ _ _ hi hst
      have hg' : G s₁ := by
        -- what is lost at a step stays lost up to the end
        by_contra hng
        exact (hr.invariant (I := fun s => I s ∧ ¬ G s)
          (fun _ _ _ hs h => ⟨hinv _ _ _ hs.1 h, hbad _ _ _ hs.1 hs.2 h⟩) ⟨hi', hng⟩).2 ht
      exact .cons ⟨hst, (hgood _ _ _ hi hg hst).1 hg'⟩ (ih hi' hg' ht)
  · intro hr
    exact (hr.invariant (I := fun s => I s ∧ G s) (fun _ _ _ hs h =>
      ⟨hinv _ _ _ hs.1 h.1, (hgood _ _ _ hs.1 hs.2 h.1).2 h.2⟩) ⟨hi, hg⟩).2

/-- Runs that keep to the good states are the runs whose steps meet `ok`, when a good step
from a state with the invariant is one that meets `ok` and keeps the invariant. -/
theorem run_good_iff {I G : σ → Prop} {ok : σ → ι → Prop}
    (hgood : ∀ s i t, I s → step s i t → (G t ↔ ok s i))
    (hinv : ∀ s i t, I s → step s i t → G t → I t) (hs : I s) :
    Run (fun s i t => step s i t ∧ G t) s is t ↔ Run (guarded step ok) s is t := by
  constructor
  · intro h
    induction h with
    | nil s => exact .nil s
    | cons hst _ ih =>
      have hok := (hgood _ _ _ hs hst.1).1 hst.2
      exact .cons ⟨hst.1, hok⟩ (ih (hinv _ _ _ hs hst.1 hst.2))
  · intro h
    induction h with
    | nil s => exact .nil s
    | cons hst _ ih =>
      have hg := (hgood _ _ _ hs hst.1).2 hst.2
      exact .cons ⟨hst.1, hg⟩ (ih (hinv _ _ _ hs hst.1 hg))

end Transition
