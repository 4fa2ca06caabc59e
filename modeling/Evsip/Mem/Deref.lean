import Evsip.Mem.Account

/-! One `evsip_mem_deref` with all it brings about. The destructors it starts work on a
shrinking set of objects in use, and leave the dying ones to the calls that wait for them. -/

namespace Evsip.Mem
open Ownership Heap

variable {h h' h'' : Heap} {p q : Ptr} {f : MemHeader → MemHeader} {held held' : Ptr → Nat}
  {pend pend' : List Ptr} {calls : List Action} {deref : Ptr → Proc (Option Ptr)} {r : Option Ptr}

/-! The small steps, on objects that are alive -/

theorem touch_run (ha : h.Alive p) : (touch p).run h = .ok ((), h) := by
  simp [touch, ha]

theorem readHeader_run {α : Type} (g : MemHeader → α) (ha : h.Alive p) :
    (readHeader p g).run h = .ok (g (h.objs p), h) := by
  simp [readHeader, touch_run ha]

theorem writeHeader_run (ha : h.Alive p) :
    (writeHeader p f).run h = .ok ((), h.setObj p f) := by
  simp [writeHeader, touch_run ha]

def Heap.started (h : Heap) (p : Ptr) : Heap :=
  if (h.objs p).dh.isSome then (h.setObj p .drop).record (.destruct p) else h.setObj p .drop

def Heap.freed (h : Heap) (p : Ptr) : Heap := (h.setObj p .release).record (.free p)

theorem freeUnlessReferenced_run (hd : h.Dying p) :
    (freeUnlessReferenced p).run h = .ok (none, h.freed p) := by
  have ha : h.Alive p := hd.1
  simp [freeUnlessReferenced, readHeader_run, writeHeader_run, suFree, ha, hd.2, Heap.freed]

theorem alive_drop (ha : h.Alive p) : (h.setObj p .drop).Alive p := by
  simpa [Alive, MemHeader.drop] using ha

theorem derefBody_kept (ha : h.Alive p) (hm : (h.objs p).magic = memMagic)
    (hpos : (h.objs p).nbRefs - 1 ≠ 0) :
    (derefBody deref p).run h = .ok (some p, h.setObj p .drop) := by
  have hgt : (h.objs p).nbRefs - 1 > 0 := UInt32.pos_iff_ne_zero.2 hpos
  simp [derefBody, readHeader_run, writeHeader_run, ha, hm, alive_drop ha, MemHeader.drop, hgt]

theorem derefBody_last (ha : h.Alive p) (hm : (h.objs p).magic = memMagic)
    (h0 : (h.objs p).nbRefs - 1 = 0) :
    (derefBody deref p).run h =
      (do runDestructor deref p ((h.objs p).dh.getD [])
          freeUnlessReferenced p).run (h.started p) := by
  rcases hdh : (h.objs p).dh with _ | calls
  · simp [derefBody, readHeader_run, writeHeader_run, ha, hm, alive_drop ha, MemHeader.drop, h0, hdh,
      Heap.started, runDestructor]
  · simp [derefBody, readHeader_run, writeHeader_run, ha, hm, alive_drop ha, MemHeader.drop, h0, hdh,
      Heap.started]

/-! The account after each of them -/

theorem drop_toNat {m : MemHeader} (h0 : m.nbRefs ≠ 0) :
    m.drop.nbRefs.toNat = m.nbRefs.toNat - 1 := by
  have hne : m.nbRefs.toNat ≠ 0 := fun hz => h0 (UInt32.toNat_inj.1 hz)
  have hpos : (1 : UInt32) ≤ m.nbRefs := UInt32.le_iff_toNat_le.2 (Nat.pos_of_ne_zero hne)
  exact UInt32.toNat_sub_of_le _ _ hpos

theorem out_setObj_of_ne (hq : q ≠ p) : (h.setObj p f).out q = h.out q :=
  out_congr (setObj_of_ne hq)

theorem out_setObj_same (ha : h.Active p) (ha' : (h.setObj p f).Active p)
    (hdh : (f (h.objs p)).dh = (h.objs p).dh) (q : Ptr) : (h.setObj p f).out q = h.out q := by
  by_cases hq : q = p
  · rw [hq, Heap.out, Heap.out, if_pos ha, if_pos ha', setObj_self, hdh]
  · exact out_setObj_of_ne hq

theorem Inv.revised (hi : Inv h held pend) (ha : h.Active p) (ha' : (h.setObj p f).Active p)
    (hmagic : (f (h.objs p)).magic = (h.objs p).magic)
    (hblock : (f (h.objs p)).block = (h.objs p).block)
    (hdh : (f (h.objs p)).dh.isSome = (h.objs p).dh.isSome)
    (hcalls : ∀ calls, (f (h.objs p)).dh = some calls → ∀ a ∈ calls, ∃ q, a = .deref q)
    (hself : (f (h.objs p)).nbRefs.toNat = held' p + (h.setObj p f).owned p + pend'.count p)
    (hrest : ∀ q, q ≠ p → held' q + (h.setObj p f).owned q + pend'.count q =
      held q + h.owned q + pend.count q) : Inv (h.setObj p f) held' pend' := by
  have halive : ∀ q, (h.setObj p f).Alive q ↔ h.Alive q := fun q => by
    by_cases hq : q = p
    · subst hq
      exact iff_of_true ha'.1 ha.1
    · exact alive_congr (setObj_of_ne hq)
  refine ⟨fun q hq => ?_, fun q calls hq => ?_, fun q hq => ?_, fun q hq => ?_, fun q => ?_,
    hi.noLate, hi.truthful, fun q size hq => ?_⟩
  · have hc := hi.created q ((halive q).1 hq)
    by_cases hqp : q = p
    · subst hqp
      rw [setObj_self, hmagic]
      exact hc
    · rw [setObj_of_ne hqp]
      exact hc
  · by_cases hqp : q = p
    · subst hqp
      rw [setObj_self]
      exact hcalls calls
    · rw [setObj_of_ne hqp]
      exact hi.calls q calls ((halive q).1 hq)
  · by_cases hqp : q = p
    · subst hqp
      rw [setObj_self, hself]
    · rw [setObj_of_ne hqp, hrest q hqp]
      exact hi.refs q ((halive q).1 hq)
  · have hqp : q ≠ p := fun he => hq (he ▸ ha'.1)
    rw [hrest q hqp]
    exact hi.dead q fun hq' => hq ((halive q).2 hq')
  · refine (hi.history q).trans ?_
    by_cases hqp : q = p
    · subst hqp
      rw [fate, fate, if_pos ha.1, if_neg ha.2, if_pos ha'.1, if_neg ha'.2]
    · exact (fate_congr (setObj_of_ne hqp) rfl).symm
  · rw [setObj_block hblock]
    exact hi.room q size hq

theorem kept_active (ha : h.Active p) (hpos : (h.objs p).nbRefs - 1 ≠ 0) :
    (h.setObj p .drop).Active p :=
  ⟨alive_drop ha.1, by simpa [MemHeader.drop] using hpos⟩

theorem Inv.kept (hi : Inv h held (p :: pend)) (hpos : (h.objs p).nbRefs - 1 ≠ 0) :
    Inv (h.setObj p .drop) held pend := by
  have ha := hi.active
  have ha' := kept_active ha hpos
  have howned : ∀ q, (h.setObj p .drop).owned q = h.owned q := fun q =>
    owned_congr rfl fun q _ => out_setObj_same ha ha' rfl q
  refine hi.revised ha ha' rfl rfl rfl (fun calls => hi.calls p calls ha.1) ?_ fun q hq => ?_
  · have hr := hi.refs p ha.1
    rw [List.count_cons_self] at hr
    rw [drop_toNat ha.2, howned]
    omega
  · rw [howned, List.count_cons_of_ne (Ne.symm hq)]

theorem started_objs : (h.started p).objs = (h.setObj p .drop).objs := by
  unfold Heap.started
  split <;> rfl

theorem started_out (ha : h.Active p) (h0 : (h.objs p).nbRefs - 1 = 0) (q : Ptr) :
    (h.started p).out q = Function.update h.out p [] q := by
  rw [out_congr (congrFun started_objs q)]
  by_cases hq : q = p
  · subst hq
    rw [Function.update_self]
    exact out_of_not_active fun ha' => ha'.2 (by simpa [MemHeader.drop] using h0)
  · rw [Function.update_of_ne hq, out_setObj_of_ne hq]

@[simp] theorem started_next : (h.started p).next = h.next := by
  unfold Heap.started
  split <;> rfl

theorem started_history : (h.started p).history q =
    (if q = p then h.destructs p else []) ++ h.history q := by
  rw [Heap.started, destructs]
  by_cases hdh : (h.objs p).dh.isSome <;> by_cases hq : q = p
  · simp [hdh, hq, Heap.history, Heap.record]
  · simp [hdh, hq, Ne.symm hq, Heap.history, Heap.record]
  · simp [hdh, hq, Heap.history]
  · simp [hdh, hq, Heap.history]

theorem started_dying (ha : h.Active p) (h0 : (h.objs p).nbRefs - 1 = 0) :
    (h.started p).Dying p := by
  refine (dying_congr (congrFun started_objs p)).2 ⟨alive_drop ha.1, ?_⟩
  simpa [MemHeader.drop] using h0

theorem started_owned (ha : h.Active p) (hp : p < h.next) (h0 : (h.objs p).nbRefs - 1 = 0)
    (q : Ptr) : (h.started p).owned q + (targets (h.objs p).dh).count q = h.owned q := by
  have hout : h.out p = targets (h.objs p).dh := if_pos ha
  have hupd : Ownership.owned (Function.update h.out p []) h.next q + (h.out p).count q =
      h.owned q + [].count q := owned_update hp []
  have hs : (h.started p).owned q = Ownership.owned (Function.update h.out p []) h.next q := by
    rw [Heap.owned, started_next]
    exact Ownership.owned_congr fun x _ => started_out ha h0 x
  rw [hout] at hupd
  rw [hs, hupd]
  rfl

theorem Inv.no_other (hi : Inv h held (p :: pend)) (h0 : (h.objs p).nbRefs - 1 = 0) :
    held p + h.owned p + pend.count p = 0 := by
  have hr := hi.refs p hi.alive
  have hz : (h.objs p).drop.nbRefs.toNat = 0 := by simp [MemHeader.drop, h0]
  rw [drop_toNat hi.active.2] at hz
  rw [List.count_cons_self] at hr
  omega

theorem Inv.started (hi : Inv h held (p :: pend)) (h0 : (h.objs p).nbRefs - 1 = 0) :
    Inv (h.started p) held (targets (h.objs p).dh ++ pend) := by
  have ha := hi.active
  have howned := started_owned ha (hi.created p ha.1).1 h0
  have hobjs : ∀ q, q ≠ p → (h.started p).objs q = h.objs q := fun q hq => by
    rw [started_objs, setObj_of_ne hq]
  have hself : (h.started p).objs p = (h.objs p).drop := by rw [started_objs, setObj_self]
  have hdying := started_dying ha h0
  have hone := hi.no_other h0
  refine ⟨fun q hq => ?_, fun q calls hq => ?_, fun q hq => ?_, fun q hq => ?_, fun q => ?_,
    fun q => ?_, ?_, fun q size hq => ?_⟩
  · by_cases hqp : q = p
    · subst hqp
      simpa [hself, MemHeader.drop] using hi.created q ha.1
    · simpa [hobjs q hqp] using hi.created q ((alive_congr (hobjs q hqp)).1 hq)
  · by_cases hqp : q = p
    · subst hqp
      simpa [hself, MemHeader.drop] using hi.calls q calls ha.1
    · simpa [hobjs q hqp] using hi.calls q calls ((alive_congr (hobjs q hqp)).1 hq)
  · have hq' := howned q
    rw [List.count_append]
    by_cases hqp : q = p
    · subst hqp
      rw [hdying.2]
      simp
      omega
    · have hr := hi.refs q ((alive_congr (hobjs q hqp)).1 hq)
      rw [List.count_cons_of_ne (Ne.symm hqp)] at hr
      rw [hobjs q hqp]
      omega
  · have hqp : q ≠ p := fun he => hq (he ▸ hdying.1)
    have hd := hi.dead q fun hq' => hq ((alive_congr (hobjs q hqp)).2 hq')
    have hq' := howned q
    rw [List.count_cons_of_ne (Ne.symm hqp)] at hd
    rw [List.count_append]
    omega
  · rw [started_history, hi.history q]
    by_cases hqp : q = p
    · subst hqp
      simp [fate, ha.1, ha.2, hdying.1, destructs, hself, MemHeader.drop, h0]
    · rw [if_neg hqp, List.nil_append, fate_congr (hobjs q hqp) started_next]
  · rw [Heap.started]
    split
    · simpa [Heap.record] using hi.noLate q
    · exact hi.noLate q
  · rw [Heap.started]
    split <;> exact hi.truthful
  · have hmem : .clear q size ∈ h.trace := by
      rw [Heap.started] at hq
      split at hq
      · simpa [Heap.record] using hq
      · exact hq
    rw [started_next, started_objs, setObj_block rfl]
    exact hi.room q size hmem

theorem freed_history : (h.freed p).history q =
    (if q = p then [.free p] else []) ++ h.history q := by
  by_cases hq : q = p
  · simp [hq, Heap.freed, Heap.history, Heap.record]
  · simp [hq, Ne.symm hq, Heap.freed, Heap.history, Heap.record]

theorem freed_objs (hq : q ≠ p) : (h.freed p).objs q = h.objs q := setObj_of_ne hq

theorem freed_self : (h.freed p).objs p = (h.objs p).release := setObj_self

theorem freed_not_alive : ¬ (h.freed p).Alive p := by
  simp [Heap.freed, Alive, MemHeader.release]

theorem freed_out (hd : h.Dying p) (q : Ptr) : (h.freed p).out q = h.out q := by
  by_cases hq : q = p
  · subst hq
    rw [out_of_not_active fun ha => freed_not_alive ha.1, out_of_not_active hd.not_active]
  · exact out_congr (freed_objs hq)

theorem Inv.freed (hi : Inv h held pend) (hd : h.Dying p) : Inv (h.freed p) held pend := by
  have howned : ∀ q, (h.freed p).owned q = h.owned q := fun q =>
    owned_congr rfl fun q _ => freed_out hd q
  have hne : ∀ {q}, (h.freed p).Alive q → q ≠ p := fun hq he => freed_not_alive (he ▸ hq)
  have halive : ∀ {q}, (h.freed p).Alive q → h.Alive q := fun hq =>
    (alive_congr (freed_objs (hne hq))).1 hq
  refine ⟨fun q hq => ?_, fun q calls hq => ?_, fun q hq => ?_, fun q hq => ?_, fun q => ?_,
    fun q => ?_, hi.truthful, fun q size hq => ?_⟩
  · rw [freed_objs (hne hq)]
    exact hi.created q (halive hq)
  · rw [freed_objs (hne hq)]
    exact hi.calls q calls (halive hq)
  · rw [freed_objs (hne hq), howned]
    exact hi.refs q (halive hq)
  · rw [howned]
    by_cases hqp : q = p
    · subst hqp
      rw [← hi.refs q hd.1, hd.2]
      rfl
    · exact hi.dead q fun hq' => hq ((alive_congr (freed_objs hqp)).2 hq')
  · rw [freed_history, hi.history q]
    by_cases hqp : q = p
    · subst hqp
      have hlt : q < (h.freed q).next := (hi.created q hd.1).1
      rw [fate, fate, if_pos hd.1, if_pos hd.2, if_neg freed_not_alive, if_pos hlt, if_pos rfl,
        destructs, destructs, freed_self]
      rfl
    · rw [if_neg hqp, List.nil_append]
      exact (fate_congr (freed_objs hqp) rfl).symm
  · simpa [Heap.freed, Heap.record] using hi.noLate q
  · have hmem : .clear q size ∈ h.trace := by simpa [Heap.freed, Heap.record] using hq
    have hblock : ((h.freed p).objs q).block = (h.objs q).block := setObj_block rfl q
    rw [hblock]
    exact hi.room q size hmem

theorem Inv.record {e : Event} (hi : Inv h held pend) (hhistory : ∀ q, e ≠ .destruct q ∧ e ≠ .free q)
    (hlate : ∀ q, e ≠ .late q) (htruthful : Truthful (e :: h.trace))
    (hroom : ∀ q size, e = .clear q size →
      q < h.next ∧ (h.objs q).block.toNat = headerSize.toNat + size.toNat) :
    Inv (h.record e) held pend where
  created := hi.created
  calls := hi.calls
  refs := hi.refs
  dead := hi.dead
  history q := by
    have hkeep : (h.record e).history q = h.history q := by
      simp [Heap.history, Heap.record, hhistory q]
    rw [hkeep, hi.history]
    exact (fate_congr rfl rfl).symm
  noLate q hq := by
    rcases List.mem_cons.1 hq with rfl | hq
    · exact hlate q rfl
    · exact hi.noLate q hq
  truthful := htruthful
  room q size hq := by
    rcases List.mem_cons.1 hq with he | hq
    · exact hroom q size he.symm
    · exact hi.room q size hq

theorem Inv.returned (hi : Inv h held pend) (hp : p < h.next) (hr : r = none ↔ ¬ h.Alive p) :
    Inv (h.record (.returned p r)) held pend := by
  refine hi.record (by simp) (by simp) ⟨?_, hi.truthful⟩ (by simp)
  rw [hr, hi.mem_free_iff]
  exact (and_iff_right hp).symm

end Evsip.Mem
