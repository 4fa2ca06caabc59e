import Evsip.Mem.Deref

/-! A reference given back, with the destructors this starts and those that they start. The
induction is on the number of objects in use, which every started destructor lowers by one. -/

namespace Evsip.Mem
open Ownership Heap

variable {h h' h'' : Heap} {p q : Ptr} {held : Ptr → Nat} {pend : List Ptr} {n : Nat}
  {calls : List Action}

/-- What a completed deref leaves of a heap: dying objects are as they were, no object was left
dying, nothing came to own more, and no more objects are in use. -/
structure Settled (h h' : Heap) : Prop where
  next_eq : h'.next = h.next
  dying : ∀ q, h.Dying q → h'.objs q = h.objs q
  no_new : ∀ q, h'.Dying q → h.Dying q
  out_sub : ∀ q, h'.out q ⊆ h.out q
  active_le : h'.active ≤ h.active

theorem Settled.refl (h : Heap) : Settled h h :=
  ⟨rfl, fun _ _ => rfl, fun _ hq => hq, fun _ => List.Subset.refl _, le_rfl⟩

theorem Settled.trans (h₁ : Settled h h') (h₂ : Settled h' h'') : Settled h h'' where
  next_eq := h₂.next_eq.trans h₁.next_eq
  dying q hq := by
    have ho := h₁.dying q hq
    exact (h₂.dying q ((dying_congr ho).2 hq)).trans ho
  no_new q hq := h₁.no_new q (h₂.no_new q hq)
  out_sub q := List.Subset.trans (h₂.out_sub q) (h₁.out_sub q)
  active_le := h₂.active_le.trans h₁.active_le

theorem Settled.record (hs : Settled h h') (e : Event) : Settled h (h'.record e) :=
  ⟨hs.next_eq, hs.dying, hs.no_new, hs.out_sub, hs.active_le⟩

theorem active_le_of (hn : h'.next = h.next) (ha : ∀ q, h'.Active q → h.Active q) :
    h'.active ≤ h.active := by
  rw [Heap.active, Heap.active, hn]
  exact Finset.card_le_card (Finset.monotone_filter_right _ fun q _ => ha q)

theorem kept_settled (ha : h.Active p) (hpos : (h.objs p).nbRefs - 1 ≠ 0) :
    Settled h (h.setObj p .drop) := by
  have hactive := kept_active ha hpos
  refine ⟨rfl, fun q hq => ?_, fun q hq => ?_, fun q => ?_, active_le_of rfl fun q hq => ?_⟩
  · exact setObj_of_ne fun he => hq.not_active (he ▸ ha)
  · have hqp : q ≠ p := fun he => hq.not_active (he ▸ hactive)
    exact (dying_congr (setObj_of_ne hqp)).1 hq
  · rw [out_setObj_same ha hactive rfl]
    exact List.Subset.refl _
  · by_cases hqp : q = p
    · exact hqp ▸ ha
    · exact (active_congr (setObj_of_ne hqp)).1 hq

theorem started_of_ne (hq : q ≠ p) : (h.started p).objs q = h.objs q := by
  rw [started_objs, setObj_of_ne hq]

theorem started_active_lt (ha : h.Active p) (hp : p < h.next) (h0 : (h.objs p).nbRefs - 1 = 0) :
    (h.started p).active < h.active := by
  have hdying := started_dying ha h0
  rw [Heap.active, Heap.active, started_next]
  refine Finset.card_lt_card (Finset.ssubset_iff_of_subset ?_ |>.2 ⟨p, ?_, ?_⟩)
  · refine Finset.monotone_filter_right _ fun q _ hq => ?_
    have hqp : q ≠ p := fun he => hdying.not_active (he ▸ hq)
    exact (active_congr (started_of_ne hqp)).1 hq
  · simpa using ⟨hp, ha⟩
  · simpa using fun _ => hdying.not_active

theorem freed_settled (ha : h.Active p) (hp : p < h.next) (h0 : (h.objs p).nbRefs - 1 = 0)
    (hs : Settled (h.started p) h') : Settled h (h'.freed p) := by
  have hdying := started_dying ha h0
  have hdying' : h'.Dying p := (dying_congr (hs.dying p hdying)).2 hdying
  refine ⟨hs.next_eq.trans started_next, fun q hq => ?_, fun q hq => ?_, fun q => ?_, ?_⟩
  · have hqp : q ≠ p := fun he => hq.not_active (he ▸ ha)
    have hq' := started_of_ne (h := h) hqp
    rw [freed_objs hqp, hs.dying q ((dying_congr hq').2 hq), hq']
  · have hqp : q ≠ p := fun he => freed_not_alive (he ▸ hq.1)
    have hq' := hs.no_new q ((dying_congr (freed_objs hqp)).1 hq)
    exact (dying_congr (started_of_ne hqp)).1 hq'
  · rw [freed_out hdying']
    refine List.Subset.trans (hs.out_sub q) ?_
    rw [started_out ha h0]
    by_cases hqp : q = p
    · simp [hqp]
    · rw [Function.update_of_ne hqp]
      exact List.Subset.refl _
  · have hle : (h'.freed p).active ≤ h'.active := active_le_of rfl fun q hq => by
      have hqp : q ≠ p := fun he => freed_not_alive (he ▸ hq.1)
      exact (active_congr (freed_objs hqp)).1 hq
    exact hle.trans (hs.active_le.trans (started_active_lt ha hp h0).le)

/-- What a deref does when it may nest `n` deep: it ends, the reference is off the account,
and it returns NULL exactly when the object was freed, which is when the reference was the last. -/
def DerefSpec (n : Nat) : Prop :=
  ∀ {h : Heap} {held : Ptr → Nat} {pend : List Ptr} {p : Ptr}, Inv h held (p :: pend) →
    h.active < n → ∃ r h', (derefObj n p).run h = .ok (r, h') ∧ Inv h' held pend ∧ Settled h h' ∧
      (r = none ↔ ¬ h'.Alive p) ∧ (¬ h'.Alive p ↔ (h.objs p).nbRefs = 1)

theorem nbRefs_eq_one (ha : h.Active p) (h0 : (h.objs p).nbRefs - 1 = 0) : (h.objs p).nbRefs = 1 := by
  have hne : (h.objs p).nbRefs.toNat ≠ 0 := fun hz => ha.2 (UInt32.toNat_inj.1 hz)
  have hz : (h.objs p).drop.nbRefs.toNat = 0 := by simp [MemHeader.drop, h0]
  rw [drop_toNat ha.2] at hz
  exact UInt32.toNat_inj.1 (by rw [UInt32.toNat_one]; omega)

theorem runDestructor_spec (hn : DerefSpec n) (hcalls : ∀ a ∈ calls, ∃ q, a = .deref q)
    (hi : Inv h held (targets (some calls) ++ pend)) (hlt : h.active < n) :
    ∃ h', (runDestructor (derefObj n) p calls).run h = .ok ((), h') ∧ Inv h' held pend ∧
      Settled h h' := by
  -- the calls are made in order, each on the account that the one before left
  induction calls generalizing h with
  | nil => exact ⟨h, rfl, hi, .refl h⟩
  | cons a calls ih =>
    obtain ⟨q, rfl⟩ := hcalls a (by simp)
    obtain ⟨r, h₁, hrun, hi₁, hs₁, -, -⟩ := hn (p := q) hi hlt
    obtain ⟨h₂, hrun₂, hi₂, hs₂⟩ := ih (fun a ha => hcalls a (by simp [ha])) hi₁
      (hs₁.active_le.trans_lt hlt)
    exact ⟨h₂, by simp [runDestructor, hrun, hrun₂], hi₂, hs₁.trans hs₂⟩

theorem derefBody_spec (hn : DerefSpec n) (hi : Inv h held (p :: pend)) (hlt : h.active < n + 1) :
    ∃ r h', (derefBody (derefObj n) p).run h = .ok (r, h') ∧ Inv h' held pend ∧ Settled h h' ∧
      (r = none ↔ ¬ h'.Alive p) ∧ (¬ h'.Alive p ↔ (h.objs p).nbRefs = 1) := by
  have ha := hi.active
  obtain ⟨hp, hm⟩ := hi.created p ha.1
  by_cases h0 : (h.objs p).nbRefs - 1 = 0
  · have hdying := started_dying ha h0
    have hlt' : (h.started p).active < n :=
      (started_active_lt ha hp h0).trans_le (Nat.le_of_lt_succ hlt)
    have hcalls : ∀ a ∈ (h.objs p).dh.getD [], ∃ q, a = .deref q := by
      rcases hdh : (h.objs p).dh with _ | calls
      · simp
      · exact hi.calls p calls ha.1 hdh
    have htargets : targets (some ((h.objs p).dh.getD [])) = targets (h.objs p).dh := by
      cases (h.objs p).dh <;> rfl
    -- what the object owned is pending now, and one object less is in use
    obtain ⟨h', hrun, hi', hs⟩ := runDestructor_spec (p := p) hn hcalls
      (htargets ▸ hi.started h0) hlt'
    have hdying' : h'.Dying p := (dying_congr (hs.dying p hdying)).2 hdying
    refine ⟨none, h'.freed p, ?_, hi'.freed hdying', freed_settled ha hp h0 hs, ?_, ?_⟩
    · rw [derefBody_last ha.1 hm h0]
      simp [hrun, freeUnlessReferenced_run hdying']
    · exact iff_of_true rfl freed_not_alive
    · exact iff_of_true freed_not_alive (nbRefs_eq_one ha h0)
  · refine ⟨_, _, derefBody_kept ha.1 hm h0, hi.kept h0, kept_settled ha h0, ?_, ?_⟩
    · exact iff_of_false (by simp) (not_not.2 (alive_drop ha.1))
    · exact iff_of_false (not_not.2 (alive_drop ha.1)) fun h1 => h0 (by simp [h1])

theorem derefSpec : DerefSpec n := by
  induction n with
  | zero => exact fun _ hlt => absurd hlt (Nat.not_lt_zero _)
  | succ n ih =>
    intro h held pend p hi hlt
    obtain ⟨r, h', hrun, hi', hs, hr, hlast⟩ := derefBody_spec ih hi hlt
    have hp : p < h'.next := hs.next_eq ▸ (hi.created p hi.alive).1
    exact ⟨r, h'.record (.returned p r), by simp [derefObj, hrun], hi'.returned hp hr, hs.record _,
      hr, hlast⟩

end Evsip.Mem
