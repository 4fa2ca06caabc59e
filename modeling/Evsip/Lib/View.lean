import Evsip.Lib.Proc

/-! Procedures seen through a function of their state. What is proved of one step carries over to
a list of steps, faults included. -/

namespace Proc

variable {σ τ ε ι α β : Type} {I : σ → Prop} {f : σ → τ}

/-- From the states with `I`, which it keeps, `x` does through `f` what `y` does. -/
structure Views (I : σ → Prop) (f : σ → τ) (x : StateT σ (Except ε) α)
    (y : StateT τ (Except ε) α) : Prop where
  run : ∀ s, I s → (x.run s).map (fun r => (r.1, f r.2)) = y.run (f s)
  keeps : ∀ s a t, I s → x.run s = .ok (a, t) → I t

namespace Views

theorem pure (a : α) : Views I f (pure a : StateT σ (Except ε) α) (pure a) where
  run _ _ := rfl
  keeps s b t hs hrun := by
    cases hrun
    exact hs

theorem bind {x : StateT σ (Except ε) α} {y : StateT τ (Except ε) α}
    {g : α → StateT σ (Except ε) β} {h : α → StateT τ (Except ε) β} (hx : Views I f x y)
    (hg : ∀ a, Views I f (g a) (h a)) : Views I f (x >>= g) (y >>= h) where
  run s hs := by
    rw [StateT.run_bind, StateT.run_bind, ← hx.run s hs]
    rcases hr : x.run s with e | ⟨a, t⟩
    · rfl
    · exact (hg a).run t (hx.keeps s a t hs hr)
  keeps s b u hs hrun := by
    rw [StateT.run_bind] at hrun
    rcases hr : x.run s with e | ⟨a, t⟩
    · rw [hr] at hrun
      cases hrun
    · rw [hr] at hrun
      exact (hg a).keeps t b u (hx.keeps s a t hs hr) hrun

theorem mapM {x : ι → StateT σ (Except ε) α} {y : ι → StateT τ (Except ε) α}
    (h : ∀ i, Views I f (x i) (y i)) (is : List ι) : Views I f (is.mapM x) (is.mapM y) := by
  induction is with
  | nil => exact .pure []
  | cons i is ih =>
    rw [List.mapM_cons, List.mapM_cons]
    exact (h i).bind fun a => ih.bind fun as => .pure (a :: as)

end Views

theorem mapM_kept {x : ι → StateT σ (Except ε) α} {g : α → Bool} {is : List ι} {as : List α}
    {s t : σ} (hx : ∀ i s a t, (x i).run s = .ok (a, t) → g a = false → t = s)
    (h : (is.mapM x).run s = .ok (as, t)) :
    ((((is.zip as).filter fun y => g y.2).map Prod.fst).mapM x).run s =
      .ok (((is.zip as).filter fun y => g y.2).map Prod.snd, t) := by
  induction is generalizing s as with
  | nil =>
    cases h
    rfl
  | cons i is ih =>
    rw [List.mapM_cons] at h
    rcases hi : (x i).run s with e | ⟨a, u⟩
    · rw [StateT.run_bind, hi] at h
      cases h
    rw [run_bind_ok hi] at h
    rcases his : (is.mapM x).run u with e | ⟨bs, v⟩
    · rw [StateT.run_bind, his] at h
      cases h
    rw [run_bind_ok his] at h
    cases h
    have hrest := ih his
    rcases hg : g a with _ | _
    · rw [hx i s a u hi hg] at hrest
      rw [List.zip_cons_cons, List.filter_cons_of_neg (by simp [hg])]
      exact hrest
    · rw [List.zip_cons_cons, List.filter_cons_of_pos (by simp [hg]), List.map_cons, List.map_cons,
        List.mapM_cons, run_bind_ok hi, run_bind_ok hrest]
      rfl

end Proc
