import Evsip.Lib.Run

/-! A machine and a part of it, related by what is seen of the part. Of the inputs of the machine,
some are inputs of the part, and the others must leave it alone. -/

namespace Transition

variable {σ τ ι κ : Type*} {step : σ → ι → σ → Prop} {part : τ → κ → τ → Prop} {R : σ → τ → Prop}
  {sel : ι → Option κ} {I : σ → Prop} {s t : σ} {is : List ι}

/-- What one step of the whole is for the part. -/
structure Projects (step : σ → ι → σ → Prop) (part : τ → κ → τ → Prop) (R : σ → τ → Prop)
    (sel : ι → Option κ) (I : σ → Prop) : Prop where
  inv : ∀ s i t, I s → step s i t → I t
  own : ∀ s i t k a, I s → R s a → step s i t → sel i = some k → ∃ b, part a k b ∧ R t b
  other : ∀ s i t a, I s → R s a → step s i t → sel i = none → R t a

/-- However the inputs are interleaved, the part runs on its own inputs alone. -/
theorem Projects.run (h : Projects step part R sel I) (hr : Run step s is t) (hs : I s) {a : τ}
    (ha : R s a) : ∃ b, Run part a (is.filterMap sel) b ∧ R t b := by
  induction hr generalizing a with
  | nil s => exact ⟨a, .nil a, ha⟩
  | @cons s u _ i is hst _ ih =>
    have hu := h.inv _ _ _ hs hst
    rcases hsel : sel i with _ | k
    · rw [List.filterMap_cons_none hsel]
      exact ih hu (h.other _ _ _ _ hs ha hst hsel)
    · rw [List.filterMap_cons_some hsel]
      obtain ⟨b, hab, hb⟩ := h.own _ _ _ _ _ hs ha hst hsel
      obtain ⟨c, hbc, hc⟩ := ih hu hb
      exact ⟨c, .cons hab hbc, hc⟩

theorem Projects.restrict {ok : τ → κ → Prop} {ok' : σ → ι → Prop}
    (h : Projects step part R sel I)
    (hok : ∀ s i a k, R s a → sel i = some k → ok' s i → ok a k) :
    Projects (guarded step ok') (guarded part ok) R sel I where
  inv s i t hs hst := h.inv s i t hs hst.1
  own s i t k a hs ha hst hsel := by
    obtain ⟨b, hab, hb⟩ := h.own s i t k a hs ha hst.1 hsel
    exact ⟨b, ⟨hab, hok s i a k ha hsel hst.2⟩, hb⟩
  other s i t a hs ha hst hsel := h.other s i t a hs ha hst.1 hsel

theorem Projects.lift (h : Projects step part R sel I)
    (hown : ∀ s i k a b, I s → R s a → sel i = some k → part a k b → ∃ t, step s i t)
    (hother : ∀ s i, I s → sel i = none → ∃ t, step s i t)
    (hdet : ∀ (a : τ) k b c, part a k b → part a k c → b = c) {a b : τ}
    (hr : Run part a (is.filterMap sel) b) (hs : I s) (ha : R s a) : ∃ t, Run step s is t := by
  induction is generalizing s a with
  | nil => exact ⟨s, .nil s⟩
  | cons i is ih =>
    rcases hsel : sel i with _ | k
    · rw [List.filterMap_cons_none hsel] at hr
      obtain ⟨t, ht⟩ := hother s i hs hsel
      obtain ⟨u, hu⟩ := ih hr (h.inv s i t hs ht) (h.other s i t a hs ha ht hsel)
      exact ⟨u, .cons ht hu⟩
    · rw [List.filterMap_cons_some hsel] at hr
      cases hr with
      | @cons _ c _ _ _ hc hr =>
        obtain ⟨t, ht⟩ := hown s i k a c hs ha hsel hc
        obtain ⟨c', hc', htc⟩ := h.own s i t k a hs ha ht hsel
        obtain ⟨u, hu⟩ := ih (hdet a k c' c hc' hc ▸ hr) (h.inv s i t hs ht) htc
        exact ⟨u, .cons ht hu⟩

theorem Projects.guard {ok : τ → κ → Prop} {ok' : σ → ι → Prop} (h : Projects step part R sel I)
    (hok : ∀ s i a, R s a → (∀ k, sel i = some k → ok a k) → ok' s i)
    (hdet : ∀ (a : τ) k b c, part a k b → part a k c → b = c) {a b : τ} (hr : Run step s is t)
    (hp : Run (guarded part ok) a (is.filterMap sel) b) (hs : I s) (ha : R s a) :
    Run (guarded step ok') s is t := by
  induction hr generalizing a with
  | nil s => exact .nil s
  | @cons s u _ i is hst _ ih =>
    have hu := h.inv _ _ _ hs hst
    rcases hsel : sel i with _ | k
    · rw [List.filterMap_cons_none hsel] at hp
      refine .cons ⟨hst, hok s i a ha fun k hk => ?_⟩
        (ih hp hu (h.other _ _ _ _ hs ha hst hsel))
      rw [hsel] at hk
      cases hk
    · rw [List.filterMap_cons_some hsel] at hp
      cases hp with
      | @cons _ c _ _ _ hc hp =>
        obtain ⟨c', hc', huc⟩ := h.own _ _ _ _ _ hs ha hst hsel
        rw [hdet a k c c' hc.1 hc'] at hp
        refine .cons ⟨hst, hok s i a ha fun k' hk => ?_⟩ (ih hp hu huc)
        cases hsel.symm.trans hk
        exact hc.2

end Transition
