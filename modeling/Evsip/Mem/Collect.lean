import Evsip.Mem.Exact
import Evsip.Mem.Reentrant

/-! What is alive is what a client can still reach, and references given back, in any order, end
exactly what they leave out of reach. -/

namespace Evsip.Mem
open Ownership Heap Transition

variable {s t u : Session} {h : Heap} {ops : List Op} {p q : Ptr} {ps : List Ptr}

theorem alive_of_out (hp : p ∈ h.out q) : h.Alive q := by
  by_contra hno
  rw [out_of_not_active fun ha => hno ha.1] at hp
  exact List.not_mem_nil hp

theorem Sound.alive_iff (hs : Sound s) : s.heap.Alive p ↔ Reached s.heap.out s.held p :=
  hs.acyclic.keep_iff (fun _ => hs.outstanding_pos_iff.symm) (fun p ha => (hs.account.created p ha).1)
    fun _ _ => alive_of_out

/-- After every run, the objects alive are those that are held or that others alive own. -/
theorem alive_iff_reached (hr : Run sessionStep .init ops s) (p : Ptr) :
    s.heap.Alive p ↔ Reached s.heap.out s.held p := (Sound.of_run hr).alive_iff

theorem run_child : ∃ s, Run sessionStep .init
    [.alloc false true 4 false, .alloc true true 8 true, .entrust 1 [0]] s ∧
    ∀ p, [1].count p ≤ s.held p := by
  have hsize : headerSize.toNat + UInt64.toNat 4 < 2 ^ 64 := by decide
  have hsize' : headerSize.toNat + UInt64.toNat 8 < 2 ^ 64 := by decide
  refine ⟨_, .cons ⟨hsize, rfl⟩ (.cons ⟨hsize', rfl⟩ (.cons ⟨⟨rfl, rfl, fun q => ?_, id, ?_⟩,
    rfl⟩ (.nil _))), fun p => ?_⟩
  · rcases q with _ | q
    · decide
    · simp
  · rintro (_ | _ | q) p hp
    · change p ∈ [] at hp
      simp at hp
    · obtain rfl : p = 0 := List.mem_singleton.1 hp
      decide
    · change p ∈ [] at hp
      simp at hp
  · rcases p with _ | _ | p
    · decide
    · decide
    · simp

theorem alive_iff_reached_child : ∃ s, Run sessionStep .init
    [.alloc false true 4 false, .alloc true true 8 true, .entrust 1 [0]] s ∧
    (s.heap.Alive 0 ↔ Reached s.heap.out s.held 0) := by
  obtain ⟨s, hr, -⟩ := run_child
  exact ⟨s, hr, alive_iff_reached hr 0⟩

structure Lowered (s t : Session) : Prop where
  alive : ∀ q, t.heap.Alive q → s.heap.Alive q
  out : ∀ q, t.heap.Alive q → t.heap.out q = s.heap.out q
  out_sub : ∀ q, t.heap.out q ⊆ s.heap.out q
  sound : Sound t

theorem give_eq (held : Ptr → Nat) (p q : Ptr) :
    give held (some p) q = held q - [p].count q := by
  rw [give]
  by_cases hq : q = p
  · subst hq
    rw [Function.update_self, List.count_singleton_self]
  · rw [Function.update_of_ne hq, List.count_cons_of_ne (Ne.symm hq), List.count_nil, Nat.sub_zero]

theorem held_of_give {held : Ptr → Nat} (h : 0 < give held (some p) q) : 0 < held q := by
  rw [give_eq] at h
  exact h.trans_le (Nat.sub_le _ _)

namespace Lowered

theorem refl (hs : Sound s) : Lowered s s :=
  ⟨fun _ ha => ha, fun _ _ => rfl, fun _ => List.Subset.refl _, hs⟩

theorem trans (h₁ : Lowered s t) (h₂ : Lowered t u) : Lowered s u where
  alive q ha := h₁.alive q (h₂.alive q ha)
  out q ha := (h₂.out q ha).trans (h₁.out q (h₂.alive q ha))
  out_sub q := List.Subset.trans (h₂.out_sub q) (h₁.out_sub q)
  sound := h₂.sound

theorem alive_iff (h : Lowered s t) : t.heap.Alive q ↔ Reached s.heap.out t.held q := by
  refine ⟨fun ha => (h.sound.alive_iff.1 ha).mono (fun _ hq => hq) h.out_sub, fun hq => ?_⟩
  refine hq.closed (fun q hq => h.sound.alive_iff.2 (.held hq)) fun q ha p hp => ?_
  rw [← h.out q ha] at hp
  exact h.sound.alive_iff.2 ((h.sound.alive_iff.1 ha).owned hp)

end Lowered

theorem Sound.lowered (hs : Sound s) (hp : 0 < s.held p) :
    ∃ t, sessionStep s (.deref (some p)) t ∧ t.held = give s.held (some p) ∧ Lowered s t := by
  have hi := hs.account.ofHeld hp
  obtain ⟨r, h, hrun, hi', hsettled, -⟩ := derefSpec hi active_lt_fuel
  have hderef : (memDeref s.fuel (some p)).run s.heap = .ok (r, h) := hrun
  have hdh : SameDestructors s.heap h := sameDestructors_frame.derefObj s.fuel p s.heap r h hrun
  have hsound : Sound ⟨h, give s.held (some p)⟩ :=
    ⟨hi', fun q hq => hs.settled q (hsettled.no_new q hq), hs.acyclic.mono hsettled.out_sub⟩
  have halive : ∀ q, h.Alive q → s.heap.Alive q := fun q ha =>
    hs.alive_iff.2 ((hsound.alive_iff.1 ha).mono (fun _ => held_of_give) hsettled.out_sub)
  refine ⟨_, ⟨fun q hq => Option.mem_some.1 hq ▸ hp, by simp [Session.apply, hderef]⟩, rfl,
    halive, fun q ha => ?_, hsettled.out_sub, hsound⟩
  rw [Heap.out, Heap.out, if_pos (hsound.active ha), if_pos (hs.active (halive q ha)), hdh q]

theorem Sound.lowered_all (hs : Sound s) (hps : ∀ p, ps.count p ≤ s.held p) :
    ∃ t, Run sessionStep s (ps.map fun p => .deref (some p)) t ∧
      (t.held = fun p => s.held p - ps.count p) ∧ Lowered s t := by
  induction ps generalizing s with
  | nil => exact ⟨s, .nil s, rfl, .refl hs⟩
  | cons p ps ih =>
    have hcons : ∀ q, (p :: ps).count q = [p].count q + ps.count q := fun q => by
      rw [← List.count_append, List.singleton_append]
    have hpos : 0 < s.held p := by
      have hle := hps p
      rw [List.count_cons_self] at hle
      omega
    obtain ⟨u, hstep, hheld, hlow⟩ := hs.lowered hpos
    have hcount : ∀ q, u.held q - ps.count q = s.held q - (p :: ps).count q := fun q => by
      rw [hheld, give_eq, hcons, Nat.sub_sub]
    have hle : ∀ q, ps.count q ≤ u.held q := fun q => by
      rw [hheld, give_eq]
      exact Nat.le_sub_of_add_le' (hcons q ▸ hps q)
    obtain ⟨t, hrun, htheld, hlow'⟩ := ih hlow.sound hle
    exact ⟨t, .cons hstep hrun, htheld.trans (funext hcount), hlow.trans hlow'⟩

/-- References that are held can all be given back, and in any order this ends the same objects:
those that the other references do not reach. -/
theorem derefs_end_unreached (hr : Run sessionStep .init ops s)
    (hps : ∀ p, ps.count p ≤ s.held p) :
    ∃ t, Run sessionStep s (ps.map fun p => .deref (some p)) t ∧
      ∀ q, t.heap.Alive q ↔ Reached s.heap.out (fun p => s.held p - ps.count p) q := by
  obtain ⟨t, hrun, hheld, hlow⟩ := (Sound.of_run hr).lowered_all hps
  exact ⟨t, hrun, fun q => hheld ▸ hlow.alive_iff⟩

theorem derefs_end_unreached_child : ∃ s, Run sessionStep .init
    [.alloc false true 4 false, .alloc true true 8 true, .entrust 1 [0]] s ∧
    ∃ t, Run sessionStep s [.deref (some 1)] t ∧
      ∀ q, t.heap.Alive q ↔ Reached s.heap.out (fun p => s.held p - [1].count p) q := by
  obtain ⟨s, hr, hheld⟩ := run_child
  exact ⟨s, hr, derefs_end_unreached hr hheld⟩

end Evsip.Mem
