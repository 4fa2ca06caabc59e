import Mathlib.Algebra.BigOperators.Group.Finset.Basic
import Mathlib.Algebra.Order.BigOperators.Group.Finset
import Mathlib.Data.Finset.Max
import Mathlib.Logic.Relation

/-! Objects that own references to one another: how many references an object is owned by,
what an acyclic ownership leaves unowned, and which objects are reached. -/

namespace Ownership
open Finset

variable {out out' : Nat → List Nat} {n p q : Nat}

def owned (out : Nat → List Nat) (n p : Nat) : Nat := ∑ q ∈ range n, (out q).count p

theorem owned_congr (h : ∀ q < n, out' q = out q) : owned out' n p = owned out n p :=
  sum_congr rfl fun q hq => by rw [h q (mem_range.1 hq)]

theorem owned_succ : owned out (n + 1) p = owned out n p + (out n).count p :=
  sum_range_succ ..

theorem owned_update (hq : q < n) (l : List Nat) :
    owned (Function.update out q l) n p + (out q).count p = owned out n p + l.count p := by
  have hmem : q ∈ range n := mem_range.2 hq
  have hrest : ∑ x ∈ (range n).erase q, (Function.update out q l x).count p =
      ∑ x ∈ (range n).erase q, (out x).count p :=
    sum_congr rfl fun x hx => by rw [Function.update_of_ne (ne_of_mem_erase hx)]
  rw [owned, owned, ← add_sum_erase _ _ hmem, ← add_sum_erase _ _ hmem, hrest,
    Function.update_self]
  omega

theorem exists_owner (h : owned out n p ≠ 0) : ∃ q < n, p ∈ out q := by
  obtain ⟨q, hq, hne⟩ := exists_ne_zero_of_sum_ne_zero h
  exact ⟨q, mem_range.1 hq, List.count_pos_iff.1 (Nat.pos_of_ne_zero hne)⟩

def Acyclic (out : Nat → List Nat) : Prop := ∃ rank : Nat → Nat, ∀ q, ∀ p ∈ out q, rank p < rank q

theorem Acyclic.mono (h : Acyclic out) (hsub : ∀ q, out' q ⊆ out q) : Acyclic out' :=
  let ⟨rank, hrank⟩ := h
  ⟨rank, fun q p hp => hrank q p (hsub q hp)⟩

theorem Acyclic.exists_unowned (h : Acyclic out) {s : Finset Nat} (hs : s.Nonempty) :
    ∃ p ∈ s, ∀ q ∈ s, p ∉ out q := by
  obtain ⟨rank, hrank⟩ := h
  obtain ⟨p, hp, hmax⟩ := exists_max_image s rank hs
  exact ⟨p, hp, fun q hq hmem => absurd (hrank q p hmem) (Nat.not_lt.2 (hmax q hq))⟩

/-- What somebody holds, or what is owned by something reached. -/
def Reached (out : Nat → List Nat) (held : Nat → Nat) (p : Nat) : Prop :=
  ∃ q, 0 < held q ∧ Relation.ReflTransGen (fun x y => y ∈ out x) q p

theorem Reached.held {held : Nat → Nat} (h : 0 < held p) : Reached out held p := ⟨p, h, .refl⟩

theorem Reached.owned {held : Nat → Nat} (h : Reached out held q) (hp : p ∈ out q) :
    Reached out held p := by
  obtain ⟨x, hx, hq⟩ := h
  exact ⟨x, hx, hq.tail hp⟩

theorem Reached.mono {held held' : Nat → Nat} (h : Reached out held p)
    (hheld : ∀ q, 0 < held q → 0 < held' q) (hsub : ∀ q, out q ⊆ out' q) :
    Reached out' held' p := by
  obtain ⟨q, hq, hpath⟩ := h
  exact ⟨q, hheld q hq, Relation.ReflTransGen.mono (fun x _ hy => hsub x hy) _ _ hpath⟩

theorem Reached.closed {held : Nat → Nat} {keep : Nat → Prop} (h : Reached out held p)
    (hheld : ∀ q, 0 < held q → keep q) (howned : ∀ q, keep q → ∀ p ∈ out q, keep p) : keep p := by
  obtain ⟨q, hq, hpath⟩ := h
  induction hpath with
  | refl => exact hheld q hq
  | tail _ hmem ih => exact howned _ ih _ hmem

/-- Without cycles, what is counted is what is reached. -/
theorem Acyclic.keep_iff {held : Nat → Nat} {keep : Nat → Prop} (h : Acyclic out)
    (hkeep : ∀ p, keep p ↔ 0 < held p + owned out n p) (hlt : ∀ p, keep p → p < n)
    (hout : ∀ q, ∀ p ∈ out q, keep q) : keep p ↔ Reached out held p := by
  classical
  have howned : ∀ q, keep q → ∀ p ∈ out q, keep p := fun q hq p hp => by
    have hle := single_le_sum (f := fun q => (out q).count p) (fun _ _ => Nat.zero_le _)
      (mem_range.2 (hlt q hq))
    exact (hkeep p).2 (Nat.add_pos_right _ ((List.count_pos_iff.2 hp).trans_le hle))
  refine ⟨fun hp => ?_, fun hp => hp.closed (fun q hq => (hkeep q).2 (by omega)) howned⟩
  -- of those kept and not reached one would be owned by none of them
  by_contra hno
  obtain ⟨q, hq, hunowned⟩ := h.exists_unowned (s := (range n).filter fun q =>
    keep q ∧ ¬ Reached out held q) ⟨p, by simp [hlt p hp, hp, hno]⟩
  obtain ⟨hqn, hqk, hqr⟩ := by simpa using hq
  have hnone : held q = 0 := Nat.eq_zero_of_not_pos fun hpos => hqr (.held hpos)
  have hcount := (hkeep q).1 hqk
  rw [hnone, Nat.zero_add] at hcount
  obtain ⟨x, hx, hmem⟩ := exists_owner hcount.ne'
  by_cases hxr : Reached out held x
  · exact hqr (hxr.owned hmem)
  · exact hunowned x (by simp [hx, hxr, hout x q hmem]) hmem

end Ownership
