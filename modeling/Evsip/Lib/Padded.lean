import Mathlib.Data.List.GetD
import Mathlib.Tactic.Common

/-! A fixed array that holds a shorter list, padded to its end. -/

variable {α : Type*} {n : Nat} {buf buf' : Vector α n} {pad a : α} {l : List α}

/-- The cells of `buf` are those of `l`, and `pad` from there on. -/
structure Holds (buf : Vector α n) (pad : α) (l : List α) : Prop where
  length_le : l.length ≤ n
  get : ∀ (i : Nat) (h : i < n), buf[i] = l.getD i pad

namespace Holds

theorem nil : Holds (Vector.replicate n pad) pad [] := ⟨n.zero_le, by simp⟩

theorem push (h : Holds buf pad l) (hl : l.length < n) :
    Holds (buf.setIfInBounds l.length a) pad (l ++ [a]) := by
  refine ⟨by simpa using Nat.succ_le_of_lt hl, fun i hi => ?_⟩
  rw [Vector.getElem_setIfInBounds]
  split
  · next he => simp [← he]
  · next hne =>
    rw [h.get i hi]
    rcases Nat.lt_or_gt_of_ne hne with hlt | hgt
    · rw [List.getD_eq_default _ _ (by omega), List.getD_eq_default _ _ (by simp; omega)]
    · rw [List.getD_append _ _ _ _ hgt]

theorem pop (h : Holds buf pad l) : Holds (buf.setIfInBounds (l.length - 1) pad) pad l.dropLast := by
  have hlen : l.dropLast.length = l.length - 1 := List.length_dropLast
  have hle := h.length_le
  refine ⟨by omega, fun i hi => ?_⟩
  rw [Vector.getElem_setIfInBounds]
  split
  · next he => rw [List.getD_eq_default _ _ (by omega)]
  · next hne =>
    rw [h.get i hi]
    by_cases hlt : i < l.length - 1
    · have hlt' : i < l.dropLast.length := by omega
      rw [List.getD_eq_getElem l pad (by omega), List.getD_eq_getElem _ _ hlt', List.getElem_dropLast]
    · rw [List.getD_eq_default _ _ (by omega), List.getD_eq_default _ _ (by omega)]

theorem toList_eq (h : Holds buf pad l) :
    buf.toList = l ++ List.replicate (n - l.length) pad := by
  have hle := h.length_le
  refine List.ext_getElem (by simp; omega) fun i hi _ => ?_
  have hi' : i < n := by simpa using hi
  rw [Vector.getElem_toList, h.get i hi']
  by_cases hlt : i < l.length
  · rw [List.getD_eq_getElem _ _ hlt, List.getElem_append_left hlt]
  · rw [List.getD_eq_default _ _ (by omega), List.getElem_append_right (by omega),
      List.getElem_replicate]

end Holds
