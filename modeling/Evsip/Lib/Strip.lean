import Mathlib.Data.List.DropRight
import Mathlib.Data.List.TakeWhile
import Mathlib.Tactic.Common

/-! Taking off the ends of a list what satisfies a predicate, when the list is put together. -/

namespace List

variable {α : Type*} {p : α → Bool} {l r : List α} {a : α}

theorem rdropWhile_append_of_pos (h : ∀ a ∈ r, p a) :
    (l ++ r).rdropWhile p = l.rdropWhile p := by
  unfold rdropWhile
  rw [reverse_append, dropWhile_append_of_pos fun a ha => h a (mem_reverse.1 ha)]

theorem dropWhile_append_cons (h : ¬ p a) :
    (l ++ a :: r).dropWhile p = l.dropWhile p ++ a :: r := by
  induction l with
  | nil => rw [nil_append, dropWhile_cons_of_neg h, dropWhile_nil, nil_append]
  | cons b l ih =>
    rw [cons_append, dropWhile_cons, dropWhile_cons]
    split_ifs
    · exact ih
    · rfl

theorem rdropWhile_append_cons (h : ¬ p a) :
    (l ++ a :: r).rdropWhile p = l ++ a :: r.rdropWhile p := by
  unfold rdropWhile
  rw [reverse_append, reverse_cons, append_assoc, singleton_append, dropWhile_append_cons h]
  simp

theorem dropWhile_rdropWhile : (l.rdropWhile p).dropWhile p = (l.dropWhile p).rdropWhile p := by
  rcases hl : l.dropWhile p with _ | ⟨a, r⟩
  · rw [rdropWhile_eq_nil_iff.2 (dropWhile_eq_nil_iff.1 hl)]
    rfl
  · have ha : ¬ p a := by
      have h := head?_dropWhile_not p l
      rw [hl] at h
      simpa using h
    have hw : ∀ b ∈ l.takeWhile p, p b := fun b => mem_takeWhile_imp
    rw [← takeWhile_append_dropWhile (p := p) (l := l), hl, rdropWhile_append_cons ha,
      dropWhile_append_of_pos hw, dropWhile_cons_of_neg ha, ← nil_append (a :: r),
      rdropWhile_append_cons ha, nil_append]

end List
