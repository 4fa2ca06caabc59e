import Evsip.Mem.Clients

/-! Reference counting over whole runs. -/

namespace Evsip.Mem
open Ownership Heap Transition

variable {s t : Session} {op : Op} {ops : List Op} {p : Ptr}

theorem Inv.init : Inv Heap.init (fun _ => 0) [] := by
  constructor <;>
    simp [Heap.init, Alive, Heap.owned, Ownership.owned, Heap.history, fate, Truthful]

theorem init_dead : ¬ Heap.init.Alive p := by simp [Heap.init, Alive]

theorem Session.init_sound : Sound .init := by
  refine ⟨Inv.init, fun p hp => init_dead hp.1, fun _ => 0, fun q p hp => ?_⟩
  have hout : Session.init.heap.out q = [] := out_of_not_active fun ha => init_dead ha.1
  rw [hout] at hp
  simp at hp

theorem Sound.of_step (hs : Sound s) (hst : sessionStep s op t) : Sound t := by
  obtain ⟨t', ht', hsound⟩ := hs.step hst.1
  obtain rfl : t' = t := Except.ok.inj (ht'.symm.trans hst.2)
  exact hsound

theorem Sound.of_run (hr : Run sessionStep .init ops s) : Sound s :=
  hr.invariant (fun _ _ _ => Sound.of_step) Session.init_sound

theorem Sound.outstanding_eq (hs : Sound s) (ha : s.heap.Alive p) :
    (s.heap.objs p).nbRefs.toNat = s.outstanding p := hs.account.refs p ha

theorem Sound.outstanding_pos_iff (hs : Sound s) : 0 < s.outstanding p ↔ s.heap.Alive p := by
  refine ⟨fun hpos => ?_, fun ha => ?_⟩
  · by_contra hno
    exact hpos.ne' (hs.account.dead p hno)
  · rw [← hs.outstanding_eq ha, Nat.pos_iff_ne_zero]
    exact fun hz => (hs.active ha).2 (UInt32.toNat_inj.1 hz)

theorem Sound.history_of_alive (hs : Sound s) (ha : s.heap.Alive p) : s.heap.history p = [] := by
  rw [hs.account.history, fate, if_pos ha, if_neg (hs.active ha).2]

theorem Sound.history_of_not_alive (hs : Sound s) (hp : p < s.heap.next) (ha : ¬ s.heap.Alive p) :
    s.heap.history p = .free p :: s.heap.destructs p := by
  rw [hs.account.history, fate, if_neg ha, if_pos hp]

theorem Sound.none_alive (hs : Sound s) (hheld : ∀ p, s.held p = 0) : ¬ s.heap.Alive p := by
  intro ha
  have hne : ((Finset.range s.heap.next).filter s.heap.Alive).Nonempty :=
    ⟨p, by simp [ha, (hs.account.created p ha).1]⟩
  obtain ⟨q, hq, hunowned⟩ := hs.acyclic.exists_unowned hne
  have hqa : s.heap.Alive q := (Finset.mem_filter.1 hq).2
  have hpos := hs.outstanding_pos_iff.2 hqa
  rw [Session.outstanding, hheld, Nat.zero_add] at hpos
  obtain ⟨x, hx, hmem⟩ := exists_owner hpos.ne'
  have hxa : s.heap.Alive x := by
    by_contra hno
    rw [out_of_not_active fun ha => hno ha.1] at hmem
    simp at hmem
  exact hunowned x (by simp [hx, hxa]) hmem

/-- References are counted exactly, and objects end once, with their last reference. -/
structure Exact (s : Session) : Prop where
  nrefs : ∀ p, s.heap.Alive p → ∃ n, (memNrefs (some p)).run s.heap = .ok (n, s.heap) ∧
    n.toNat = s.outstanding p
  ref : ∀ p, s.heap.Alive p → s.outstanding p + 1 < 2 ^ 32 →
    ∃ h, (memRef (some p)).run s.heap = .ok (some p, h) ∧
      ∃ n, (memNrefs (some p)).run h = .ok (n, h) ∧ n.toNat = s.outstanding p + 1
  kept : ∀ p, 0 < s.outstanding p ↔ s.heap.Alive p
  lasting : ∀ p, s.heap.Alive p → s.heap.history p = []
  ended : ∀ p < s.heap.next, ¬ s.heap.Alive p → s.heap.history p = .free p :: s.heap.destructs p
  intact : ∀ p, .late p ∉ s.heap.trace
  answered : ∀ p r later earlier, s.heap.trace = later ++ .returned p r :: earlier →
    (r = none ↔ .free p ∈ earlier)
  deref : ∀ p, 0 < s.held p → ∃ r h, (memDeref s.fuel (some p)).run s.heap = .ok (r, h) ∧
    (r = none ↔ ¬ h.Alive p) ∧ (¬ h.Alive p ↔ s.outstanding p = 1) ∧
    h.history p = if s.outstanding p = 1 then .free p :: h.destructs p else []
  all_ended : (∀ p, s.held p = 0) → ∀ p, ¬ s.heap.Alive p
  room : ∀ p size, .clear p size ∈ s.heap.trace →
    (s.heap.objs p).block.toNat = headerSize.toNat + size.toNat
  progress : ∀ op : Op, op.Legal s → ∃ t, sessionStep s op t

theorem refcount_exact (hr : Run sessionStep .init ops s) : Exact s := by
  have hs := Sound.of_run hr
  refine
    { nrefs := fun p ha => ?_
      ref := fun p ha hroom => ?_
      kept := fun p => hs.outstanding_pos_iff
      lasting := fun p => hs.history_of_alive
      ended := fun p => hs.history_of_not_alive
      intact := hs.account.noLate
      answered := fun p r later earlier htrace => ?_
      deref := fun p hp => ?_
      all_ended := fun hheld p => hs.none_alive hheld
      room := fun p size hc => (hs.account.room p size hc).2
      progress := fun op hl => ?_ }
  · exact ⟨_, memNrefs_run ha (hs.account.created p ha).2, hs.outstanding_eq ha⟩
  · have hm := (hs.account.created p ha).2
    have ha' : (s.heap.setObj p .addRef).Alive p := by
      simpa [Heap.Alive, MemHeader.addRef] using ha
    have hm' : ((s.heap.setObj p .addRef).objs p).magic = memMagic := by
      rw [setObj_self]
      exact hm
    refine ⟨_, memRef_run ha hm, _, memNrefs_run ha' hm', ?_⟩
    rw [setObj_self, hs.addRef_toNat ha hroom, hs.outstanding_eq ha]
  · have ht := hs.account.truthful
    rw [htrace] at ht
    exact ht.at
  · obtain ⟨r, h, hrun, hs', hr, hlast, hlt⟩ := hs.deref_run hp
    refine ⟨r, h, hrun, hr, hlast, ?_⟩
    split_ifs with hone
    · exact hs'.history_of_not_alive hlt (hlast.2 hone)
    · exact hs'.history_of_alive (not_not.1 (mt hlast.1 hone))
  · obtain ⟨t, ht, -⟩ := hs.step hl
    exact ⟨t, hl, ht⟩

theorem refcount_exact_cascade : ∃ s, Run sessionStep .init
    [.alloc false true 4 false, .alloc true true 8 true, .entrust 1 [0], .deref (some 1)] s ∧
    s.heap.trace =
      [.returned 1 none, .free 1, .returned 0 none, .free 0, .destruct 1, .clear 1 8] ∧
    Exact s := by
  have hsize : headerSize.toNat + UInt64.toNat 4 < 2 ^ 64 := by decide
  have hsize' : headerSize.toNat + UInt64.toNat 8 < 2 ^ 64 := by decide
  suffices hrun : ∃ s, Run sessionStep .init
      [.alloc false true 4 false, .alloc true true 8 true, .entrust 1 [0], .deref (some 1)] s ∧
      s.heap.trace =
        [.returned 1 none, .free 1, .returned 0 none, .free 0, .destruct 1, .clear 1 8] by
    obtain ⟨s, hr, htrace⟩ := hrun
    exact ⟨s, hr, htrace, refcount_exact hr⟩
  refine ⟨_, .cons ⟨hsize, rfl⟩ (.cons ⟨hsize', rfl⟩ (.cons ⟨⟨rfl, rfl, fun q => ?_, id, ?_⟩,
    rfl⟩ (.cons ⟨?_, rfl⟩ (.nil _)))), rfl⟩
  · rcases q with _ | q
    · decide
    · simp
  · rintro (_ | _ | q) p hp
    · change p ∈ [] at hp
      simp at hp
    · obtain rfl : p = 0 := List.mem_singleton.1 hp
      decide
    · change p ∈ [] at hp
      simp at hp
  · rintro p ⟨⟩
    decide

end Evsip.Mem
