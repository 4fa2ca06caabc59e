import Mathlib.Data.List.Basic
import Mathlib.Data.List.Nodup
import Mathlib.Tactic.Common

/-! Lists without repetition whose elements remember their place. A place is written when an
element is put at the end or looked up; a removal moves those behind it and leaves their places
as they were. -/

namespace Places

variable {α : Type*} {l stale : List α} {f g : α → ℕ} {p q : α} {i : ℕ}

/-- No place is too small, and the stale elements are those whose place is too large. -/
structure Tracks (l : List α) (f : α → ℕ) (stale : List α) : Prop where
  nodup : l.Nodup
  sub : stale ⊆ l
  place : ∀ i p, l[i]? = some p → i ≤ f p ∧ (p ∈ stale ↔ i < f p)

theorem inj (h : l.Nodup) {j : ℕ} (hi : l[i]? = some p) (hj : l[j]? = some p) : i = j :=
  (List.getElem?_inj (List.getElem?_eq_some_iff.1 hi).1 h).1 (hi.trans hj.symm)

namespace Tracks

theorem nil : Tracks [] f [] := ⟨.nil, .refl _, nofun⟩

theorem congr (h : Tracks l f stale) (hc : ∀ p ∈ l, g p = f p) :
    Tracks l g stale := by
  refine ⟨h.nodup, h.sub, fun i p hp => ?_⟩
  rw [hc p (List.mem_of_getElem? hp)]
  exact h.place i p hp

theorem getElem?_place (h : Tracks l f stale) (hp : p ∈ l) :
    l[f p]? = some p ↔ p ∉ stale := by
  obtain ⟨i, hi⟩ := List.mem_iff_getElem?.1 hp
  obtain ⟨hle, hstale⟩ := h.place i p hi
  rw [hstale, Nat.not_lt]
  constructor
  · intro hplace
    exact Nat.le_of_eq (inj h.nodup hi hplace).symm
  · intro hge
    rwa [Nat.le_antisymm hge hle]

theorem append (h : Tracks l f stale) (hp : p ∉ l) (hplace : f p = l.length) :
    Tracks (l ++ [p]) f stale := by
  refine ⟨List.concat_eq_append ▸ h.nodup.concat hp, fun q hq => List.mem_append_left _ (h.sub hq),
    fun i q hq => ?_⟩
  rw [List.getElem?_append] at hq
  split_ifs at hq with hi
  · exact h.place i q hq
  · obtain ⟨hi0, rfl⟩ : i - l.length = 0 ∧ p = q := by simpa [List.getElem?_singleton] using hq
    have heq : i = l.length := by omega
    have hs : p ∉ stale := fun hs => hp (h.sub hs)
    simp [heq, hplace, hs]

variable [DecidableEq α]

theorem found (h : Tracks l f stale) (hi : l[i]? = some p) (hplace : g p = i)
    (hrest : ∀ q ∈ l, q ≠ p → g q = f q) :
    Tracks l g (stale.filter (· ≠ p)) := by
  refine ⟨h.nodup, fun q hq => h.sub (List.mem_of_mem_filter hq), fun j q hq => ?_⟩
  by_cases hqp : q = p
  · obtain rfl : i = j := inj h.nodup hi (hqp ▸ hq)
    simp [hqp, hplace]
  · rw [hrest q (List.mem_of_getElem? hq) hqp]
    simpa [hqp] using h.place j q hq

theorem erase (h : Tracks l f stale) (hp : p ∈ l) (hs : p ∉ stale) :
    Tracks (l.erase p) f (l.drop (l.idxOf p + 1) ++ stale) := by
  obtain ⟨k, hk⟩ := List.mem_iff_getElem?.1 hp
  have hkth : l.idxOf p = k := inj h.nodup (List.getElem?_idxOf hp) hk
  have herase := List.erase_eq_eraseIdx_of_idxOf hkth
  rw [herase, hkth]
  have hbehind : ∀ {j q}, l[j]? = some q → (q ∈ l.drop (k + 1) ↔ k < j) := fun {j q} hq => by
    rw [List.mem_iff_getElem?]
    constructor
    · rintro ⟨m, hm⟩
      rw [List.getElem?_drop] at hm
      have := inj h.nodup hm hq
      omega
    · intro hlt
      refine ⟨j - (k + 1), ?_⟩
      rw [List.getElem?_drop, ← hq]
      congr 1
      omega
  refine ⟨h.nodup.eraseIdx k, fun q hq => ?_, fun i q hq => ?_⟩
  · rw [← herase, h.nodup.mem_erase_iff]
    rcases List.mem_append.1 hq with hq | hq
    · exact ⟨fun hqp => Nat.lt_irrefl k ((hbehind hk).1 (hqp ▸ hq)), List.mem_of_mem_drop hq⟩
    · exact ⟨fun hqp => hs (hqp ▸ hq), h.sub hq⟩
  · rw [List.getElem?_eraseIdx] at hq
    split_ifs at hq with hi
    · obtain ⟨hle, hstale⟩ := h.place i q hq
      rw [List.mem_append, hbehind hq, hstale]
      exact ⟨hle, by omega⟩
    · obtain ⟨hle, hstale⟩ := h.place (i + 1) q hq
      rw [List.mem_append, hbehind hq]
      exact ⟨by omega, by omega⟩

end Tracks
end Places
