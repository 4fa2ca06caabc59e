import Mathlib.Tactic.Common

/-! Stateful procedures that may fault. A run either stops at a fault or returns a
value and the state it leaves. -/

namespace Proc

variable {σ ε α β : Type}

/-- Follows a pointer, `none` being NULL. -/
def deref (fault : ε) (ptr : Option α) : StateT σ (Except ε) α :=
  match ptr with
  | none => throw fault
  | some a => pure a

@[simp] theorem pure_eq_ok (a : α) : (pure a : Except ε α) = .ok a := rfl

@[simp] theorem ok_bind (a : α) (f : α → Except ε β) : (Except.ok a >>= f) = f a := rfl

@[simp] theorem error_bind (e : ε) (f : α → Except ε β) : (Except.error e >>= f) = .error e := rfl

@[simp] theorem run_throw (e : ε) (s : σ) :
    (throw e : StateT σ (Except ε) α).run s = .error e := rfl

@[simp] theorem run_deref_none (e : ε) (s : σ) :
    (deref e none : StateT σ (Except ε) α).run s = .error e := rfl

@[simp] theorem run_deref_some (e : ε) (a : α) (s : σ) :
    (deref e (some a) : StateT σ (Except ε) α).run s = .ok (a, s) := rfl

theorem run_bind_ok {x : StateT σ (Except ε) α} {f : α → StateT σ (Except ε) β} {s t : σ} {a : α}
    (h : x.run s = .ok (a, t)) : (x >>= f).run s = (f a).run t := by
  rw [StateT.run_bind, h, ok_bind]

theorem run_bind_congr {x y : StateT σ (Except ε) α} {f g : α → StateT σ (Except ε) β} {s : σ}
    (hxy : x.run s = y.run s) (hfg : ∀ a t, y.run s = .ok (a, t) → (f a).run t = (g a).run t) :
    (x >>= f).run s = (y >>= g).run s := by
  rw [StateT.run_bind, StateT.run_bind, hxy]
  rcases hs : y.run s with e | ⟨a, t⟩
  · rfl
  · exact hfg a t hs

/-- Where `x` returns, the state it leaves is related to the one it found. -/
def Along (R : σ → σ → Prop) (x : StateT σ (Except ε) α) : Prop :=
  ∀ s a t, x.run s = .ok (a, t) → R s t

variable {R : σ → σ → Prop} {x : StateT σ (Except ε) α}

theorem Along.pure (hrefl : ∀ s, R s s) (a : α) : Along R (pure a : StateT σ (Except ε) α) := by
  intro s b t hrun
  cases hrun
  exact hrefl s

theorem Along.get (hrefl : ∀ s, R s s) : Along R (get : StateT σ (Except ε) σ) := by
  intro s b t hrun
  cases hrun
  exact hrefl s

theorem Along.modify {f : σ → σ} (hf : ∀ s, R s (f s)) :
    Along R (modify f : StateT σ (Except ε) Unit) := by
  intro s b t hrun
  cases hrun
  exact hf s

theorem Along.throw (e : ε) : Along R (throw e : StateT σ (Except ε) α) := by
  intro s b t hrun
  cases hrun

theorem Along.bind {f : α → StateT σ (Except ε) β} (htrans : ∀ s t u, R s t → R t u → R s u)
    (hx : Along R x) (hf : ∀ a, Along R (f a)) : Along R (x >>= f) := by
  intro s b u hrun
  rw [StateT.run_bind] at hrun
  rcases hs : x.run s with e | ⟨a, t⟩
  · rw [hs] at hrun
    cases hrun
  · rw [hs] at hrun
    exact htrans s t u (hx s a t hs) (hf a t b u hrun)

theorem Along.ite {c : Prop} [Decidable c] {y : StateT σ (Except ε) α} (hx : Along R x)
    (hy : Along R y) : Along R (if c then x else y) := by
  split
  · exact hx
  · exact hy

end Proc
