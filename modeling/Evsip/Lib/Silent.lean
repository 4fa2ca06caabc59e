import Evsip.Lib.Run

/-! Inputs of a deterministic machine that an observer of its states should not notice. -/

namespace Transition

variable {σ ι ω : Type*} {f : σ → ι → σ} {keep : ι → Bool} {obs : σ → ω} {ok : σ → ι → Prop}
  {s : σ} {i : ι} {is : List ι}

/-- Up to every point, the run without the inputs that are not kept looks the same. -/
def Silent (f : σ → ι → σ) (keep : ι → Bool) (obs : σ → ω) (s : σ) (is : List ι) : Prop :=
  ∀ pre, pre <+: is → obs (pre.foldl f s) = obs ((pre.filter keep).foldl f s)

theorem silent_nil : Silent f keep obs s [] := by
  intro pre hpre
  rw [List.prefix_nil.1 hpre, List.filter_nil]

theorem silent_cons_iff : Silent f keep obs s (i :: is) ↔
    ∀ pre, pre <+: is → obs (pre.foldl f (f s i)) = obs (((i :: pre).filter keep).foldl f s) := by
  constructor
  · intro h pre hpre
    exact h (i :: pre) (List.cons_prefix_cons.2 ⟨rfl, hpre⟩)
  · intro h pre hpre
    rcases List.prefix_cons_iff.1 hpre with rfl | ⟨rest, rfl, hrest⟩
    · rw [List.filter_nil]
    · exact h rest hrest

theorem silent_cons_kept (hi : keep i) :
    Silent f keep obs s (i :: is) ↔ Silent f keep obs (f s i) is := by
  rw [silent_cons_iff]
  simp only [List.filter_cons_of_pos hi, List.foldl_cons]
  rfl

theorem silent_cons_dropped (hi : keep i = false) (hok : ok s i → f s i = s)
    (hbad : ¬ ok s i → obs (f s i) ≠ obs s) :
    Silent f keep obs s (i :: is) ↔ ok s i ∧ Silent f keep obs (f s i) is := by
  have hsame : f s i = s → (Silent f keep obs s (i :: is) ↔ Silent f keep obs s is) := by
    intro hs
    rw [silent_cons_iff, hs]
    simp only [List.filter_cons_of_neg (Bool.eq_false_iff.1 hi)]
    rfl
  by_cases hsi : ok s i
  · rw [hok hsi, hsame (hok hsi)]
    exact (and_iff_right hsi).symm
  · refine iff_of_false (fun h => ?_) fun h => hsi h.1
    -- the first point past the input tells the two runs apart
    have hfirst := silent_cons_iff.1 h [] List.nil_prefix
    rw [List.filter_cons_of_neg (Bool.eq_false_iff.1 hi)] at hfirst
    exact hbad hsi hfirst

theorem run_guarded_cons_iff : Run (guarded (fun s i t => t = f s i) ok) s (i :: is)
    ((i :: is).foldl f s) ↔
      ok s i ∧ Run (guarded (fun s i t => t = f s i) ok) (f s i) is (is.foldl f (f s i)) := by
  constructor
  · rintro (_ | ⟨⟨rfl, hi⟩, hr⟩)
    exact ⟨hi, hr⟩
  · rintro ⟨hi, hr⟩
    exact .cons ⟨rfl, hi⟩ hr

/-- If an input that is not kept changes either nothing or what is observed, the run looks the
same without such inputs exactly when each of them changes nothing. -/
theorem silent_iff (hkept : ∀ s i, keep i → ok s i)
    (hok : ∀ s i, keep i = false → ok s i → f s i = s)
    (hbad : ∀ s i, keep i = false → ¬ ok s i → obs (f s i) ≠ obs s) :
    Silent f keep obs s is ↔ Run (guarded (fun s i t => t = f s i) ok) s is (is.foldl f s) := by
  induction is generalizing s with
  | nil => exact iff_of_true silent_nil (.nil s)
  | cons i is ih =>
    rw [run_guarded_cons_iff, ← ih]
    rcases hi : keep i with _ | _
    · exact silent_cons_dropped hi (hok s i hi) (hbad s i hi)
    · rw [silent_cons_kept hi, and_iff_right (hkept s i hi)]

end Transition
