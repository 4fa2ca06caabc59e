import Mathlib.Data.List.Nodup

/-! Association lists in order of arrival: a key keeps its place as long as it has a value, and
comes in at the end. -/

namespace Assoc

variable {α β : Type*} [DecidableEq α] {l : List (α × β)} {k : α} {v : β}

def keys (l : List (α × β)) : List α := l.map Prod.fst

def put (l : List (α × β)) (k : α) (v : β) : List (α × β) :=
  if k ∈ keys l then l.map fun e => if e.1 = k then (k, v) else e else l ++ [(k, v)]

def remove (l : List (α × β)) (k : α) : List (α × β) := l.filter (·.1 ≠ k)

theorem mem_put {e : α × β} :
    e ∈ put l k v ↔ e = (k, v) ∨ e.1 ≠ k ∧ e ∈ l := by
  unfold put
  split
  · next hk =>
    obtain ⟨e', he', rfl⟩ := List.mem_map.1 hk
    simp only [List.mem_map]
    constructor
    · rintro ⟨x, hx, rfl⟩
      by_cases hxk : x.1 = e'.1 <;> simp [hxk, hx]
    · rintro (rfl | ⟨hne, he⟩)
      · exact ⟨e', he', by simp⟩
      · exact ⟨e, he, by simp [hne]⟩
  · next hk =>
    have hne : e ∈ l → e.1 ≠ k := fun he hek => hk (hek ▸ List.mem_map_of_mem he)
    simp only [List.mem_append, List.mem_singleton]
    constructor
    · rintro (he | he)
      · exact .inr ⟨hne he, he⟩
      · exact .inl he
    · rintro (he | ⟨-, he⟩)
      · exact .inr he
      · exact .inl he

theorem mem_remove {e : α × β} : e ∈ remove l k ↔ e.1 ≠ k ∧ e ∈ l := by
  simp [remove, and_comm]

theorem keys_put : keys (put l k v) = if k ∈ keys l then keys l else keys l ++ [k] := by
  unfold put
  split
  · rw [keys, List.map_map]
    refine List.map_congr_left fun e _ => ?_
    by_cases he : e.1 = k <;> simp [he]
  · simp [keys]

theorem keys_remove : keys (remove l k) = (keys l).filter (· ≠ k) := by
  rw [keys, keys, remove, List.filter_map]
  rfl

theorem nodup_put (h : (keys l).Nodup) : (keys (put l k v)).Nodup := by
  rw [keys_put]
  split
  · exact h
  · next hk => exact List.concat_eq_append ▸ h.concat hk

theorem nodup_remove (h : (keys l).Nodup) : (keys (remove l k)).Nodup := by
  rw [keys_remove]
  exact h.filter _

end Assoc
