import Evsip.Lib.CString

/-! Terminated strings inside a byte array: where they lie, and what storing a byte does to them. -/

namespace CLib

variable {mem : List UInt8} {p q : Nat} {s a b : List UInt8} {c : UInt8}

/-- The terminated string `s` lies at `p`. -/
structure StrAt (mem : List UInt8) (p : Nat) (s : List UInt8) : Prop where
  noNul : 0 ∉ s
  drop_eq : ∃ rest, mem.drop p = s ++ 0 :: rest

theorem takeWhile_ne_zero {rest : List UInt8} (h : 0 ∉ s) :
    (s ++ 0 :: rest).takeWhile (· ≠ 0) = s := by
  have hs : ∀ x ∈ s, decide (x ≠ 0) = true := fun x hx =>
    decide_eq_true (ne_of_mem_of_not_mem hx h)
  rw [List.takeWhile_append_of_pos hs]
  simp

theorem StrAt.takeWhile_eq (h : StrAt mem p s) : (mem.drop p).takeWhile (· ≠ 0) = s := by
  obtain ⟨rest, hrest⟩ := h.drop_eq
  rw [hrest, takeWhile_ne_zero h.noNul]

theorem strAt_of_zero (rest : List UInt8) :
    StrAt (s ++ 0 :: rest) 0 (s.takeWhile (· ≠ 0)) := by
  refine ⟨fun h => by simpa using List.mem_takeWhile_imp h, ?_⟩
  induction s with
  | nil => exact ⟨rest, rfl⟩
  | cons c s ih =>
    by_cases hc : c = 0
    · exact ⟨s ++ 0 :: rest, by simp [hc]⟩
    · obtain ⟨rest', hrest⟩ := ih
      exact ⟨rest', by simpa [hc] using hrest⟩

theorem StrAt.advance (h : StrAt mem p (a ++ b)) : StrAt mem (p + a.length) b := by
  obtain ⟨rest, hrest⟩ := h.drop_eq
  refine ⟨fun h0 => h.noNul (List.mem_append_right a h0), rest, ?_⟩
  rw [← List.drop_drop, hrest, List.append_assoc, List.drop_left]

theorem StrAt.getD (h : StrAt mem p (a ++ c :: b)) : mem.getD (p + a.length) 0 = c := by
  obtain ⟨rest, hrest⟩ := h.advance.drop_eq
  have hget : (mem.drop (p + a.length)).getD 0 0 = c := by rw [hrest]; rfl
  simpa [List.getD_eq_getElem?_getD] using hget

theorem StrAt.getD_add (h : StrAt mem p s) {k : Nat} (hk : k ≤ s.length) :
    mem.getD (p + k) 0 = s.getD k 0 := by
  obtain ⟨rest, hrest⟩ := h.drop_eq
  have hget : mem.getD (p + k) 0 = (mem.drop p).getD k 0 := by simp [List.getD_eq_getElem?_getD]
  rw [hget, hrest]
  rcases hk.lt_or_eq with hlt | rfl
  · simp [List.getD_eq_getElem?_getD, List.getElem?_append_left hlt]
  · simp [List.getD_eq_getElem?_getD]

theorem drop_set_of_lt (h : q < p) : (mem.set q c).drop p = mem.drop p := by
  rw [List.drop_set, if_pos h]

theorem StrAt.set_before (h : StrAt mem p s) (hq : q < p) : StrAt (mem.set q c) p s :=
  ⟨h.noNul, by rw [drop_set_of_lt hq]; exact h.drop_eq⟩

theorem StrAt.set_after (h : StrAt mem p s) (hq : p + s.length < q) : StrAt (mem.set q c) p s := by
  obtain ⟨rest, hrest⟩ := h.drop_eq
  refine ⟨h.noNul, rest.set (q - p - s.length - 1) c, ?_⟩
  rw [List.drop_set, if_neg (by omega), hrest, List.set_append, if_neg (by omega)]
  obtain ⟨k, hk⟩ : ∃ k, q - p - s.length = k + 1 := ⟨q - p - s.length - 1, by omega⟩
  rw [hk, List.set_cons_succ, Nat.add_sub_cancel]

theorem StrAt.cut (h : StrAt mem p (a ++ c :: b)) : StrAt (mem.set (p + a.length) 0) p a := by
  obtain ⟨rest, hrest⟩ := h.drop_eq
  refine ⟨fun h0 => h.noNul (List.mem_append_left _ h0), b ++ 0 :: rest, ?_⟩
  rw [List.drop_set, if_neg (by omega), hrest, Nat.add_sub_cancel_left, List.append_assoc,
    List.set_append, if_neg (by omega), Nat.sub_self]
  rfl

theorem StrAt.cut_take (h : StrAt mem p s) {k : Nat} (hk : k < s.length) :
    StrAt (mem.set (p + k) 0) p (s.take k) := by
  have hs : s = s.take k ++ s[k] :: s.drop (k + 1) := by simp
  have hlen : (s.take k).length = k := List.length_take_of_le hk.le
  have hcut := StrAt.cut (hs ▸ h)
  rwa [hlen] at hcut

theorem StrAt.cut_drop (h : StrAt mem p s) {k : Nat} (hk : k < s.length) :
    StrAt (mem.set (p + k) 0) (p + k + 1) (s.drop (k + 1)) := by
  have hs : s.take (k + 1) ++ s.drop (k + 1) = s := List.take_append_drop ..
  have hlen : (s.take (k + 1)).length = k + 1 := List.length_take_of_le hk
  have hadv := StrAt.advance (hs.symm ▸ h)
  rw [hlen] at hadv
  exact hadv.set_before (by omega)

end CLib
