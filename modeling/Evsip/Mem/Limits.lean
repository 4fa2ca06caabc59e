import Evsip.Mem.Reentrant

/-! Where the memory objects come to the end of their integers: a `uint32_t` counts the
references to an object, and its size is added to that of the header in a `size_t`. -/

namespace Evsip.Mem
open Heap Proc Transition

/-- One object among others, and the number of references to it that were handed out and
not given back. -/
structure Shared where
  heap : Heap
  held : Nat

inductive RefOp
  | ref
  | deref
  deriving DecidableEq

def Shared.fresh (h : Heap) (size : UInt64) (dh : Option (List Action)) : Shared :=
  ⟨h.allocated size dh, 1⟩

def sharedStep (p : Ptr) (s : Shared) (op : RefOp) (t : Shared) : Prop :=
  0 < s.held ∧ match op with
  | .ref => ∃ r, (memRef (some p)).run s.heap = .ok (r, t.heap) ∧
      t.held = if r.isSome then s.held + 1 else s.held
  | .deref => (∃ fuel r, (memDeref fuel (some p)).run s.heap = .ok (r, t.heap)) ∧
      t.held = s.held - 1

/-- While references are out the object is not freed and their number is what
`evsip_mem_nrefs` says, so that none was handed out that could not be counted. -/
def Counted (p : Ptr) (s : Shared) : Prop :=
  0 < s.held → s.heap.Alive p ∧
    ∃ n, (memNrefs (some p)).run s.heap = .ok (n, s.heap) ∧ 0 < n ∧ n.toNat = s.held

def Countable (s : Shared) (op : RefOp) : Prop := op = .ref → s.held + 1 < UInt32.size

def InCount (p : Ptr) (s : Shared) : Prop :=
  s.held = 0 ∨ Counts s.heap p s.held ∧ s.held < UInt32.size

variable {h : Heap} {s t : Shared} {p : Ptr} {op : RefOp} {n fuel : Nat} {size : UInt64}
  {dh : Option (List Action)}

theorem one_lt_size : 1 < UInt32.size := by decide

theorem Counts.allocated : Counts (h.allocated size dh) h.next 1 where
  alive := allocated_active.1
  magic := by rw [allocated_self]
  refs := by rw [allocated_self]; rfl

theorem InCount.fresh : InCount h.next (.fresh h size dh) := .inr ⟨.allocated, one_lt_size⟩

theorem Counts.counted_iff (hc : Counts s.heap p s.held) : Counted p s ↔ s.held < UInt32.size := by
  have hrun := memNrefs_run hc.alive hc.magic
  rw [hc.refs] at hrun
  constructor
  · intro hcounted
    by_cases hpos : 0 < s.held
    · obtain ⟨-, n, hn, -, heq⟩ := hcounted hpos
      cases hn.symm.trans hrun
      rw [← heq]
      exact UInt32.toNat_lt_size _
    · rw [Nat.eq_zero_of_not_pos hpos]
      decide
  · intro hlt hpos
    have htoNat : (UInt32.ofNat s.held).toNat = s.held := UInt32.toNat_ofNat_of_lt' hlt
    refine ⟨hc.alive, _, hrun, ?_, htoNat⟩
    rw [UInt32.lt_iff_toNat_lt, htoNat]
    exact hpos

theorem sharedStep_ref (hc : Counts s.heap p s.held) (hst : sharedStep p s .ref t) :
    t.held = s.held + 1 ∧ Counts t.heap p t.held := by
  obtain ⟨-, r, hrun, hheld⟩ := hst
  obtain ⟨rfl, hheap⟩ : some p = r ∧ s.heap.setObj p .addRef = t.heap := by
    simpa [memRef_run hc.alive hc.magic] using hrun
  have hheld : t.held = s.held + 1 := hheld
  rw [hheld, ← hheap]
  exact ⟨rfl, hc.addRef⟩

theorem derefObj_kept (fuel : Nat) (hc : Counts h p (n + 1)) (hn : ¬ UInt32.size ∣ n) :
    (derefObj (fuel + 1) p).run h =
      .ok (some p, (h.setObj p .drop).record (.returned p (some p))) := by
  have hpos : (h.objs p).nbRefs - 1 ≠ 0 := by
    rw [hc.sub_one]
    exact mt ofNat_eq_zero_iff.1 hn
  simp [derefObj, derefBody_kept hc.alive hc.magic hpos]

theorem derefObj_freed (fuel : Nat) (hc : Counts h p (n + 1)) (hn : UInt32.size ∣ n)
    (hdh : (h.objs p).dh = none) : (derefObj (fuel + 1) p).run h =
      .ok (none, ((h.setObj p .drop).freed p).record (.returned p none)) := by
  have h0 : (h.objs p).nbRefs - 1 = 0 := by
    rw [hc.sub_one, ofNat_eq_zero_iff]
    exact hn
  have hstarted : h.started p = h.setObj p .drop := by simp [Heap.started, hdh]
  have hfree : (freeUnlessReferenced p).run (h.setObj p .drop) =
      .ok (none, (h.setObj p .drop).freed p) := by
    rw [freeUnlessReferenced_counts hc.drop, if_pos hn]
  simp [derefObj, derefBody_last hc.alive hc.magic h0, hdh, hstarted, runDestructor, hfree]

theorem sharedStep_deref (hc : Counts s.heap p s.held) (hlt : s.held < UInt32.size)
    (hst : sharedStep p s .deref t) :
    t.held < UInt32.size ∧ (t.held = 0 ∨ Counts t.heap p t.held) := by
  obtain ⟨heap, held⟩ := t
  obtain ⟨hpos, ⟨fuel, r, hrun⟩, hheld⟩ := hst
  obtain ⟨n, hn⟩ := Nat.exists_eq_succ_of_ne_zero hpos.ne'
  obtain rfl : held = n := hheld.trans (by rw [hn, Nat.succ_sub_one])
  have hnlt : held < UInt32.size := by omega
  refine ⟨hnlt, ?_⟩
  by_cases h0 : held = 0
  · exact .inl h0
  · rw [hn] at hc
    have hkept := fun fuel => derefObj_kept fuel hc (Nat.not_dvd_of_pos_of_lt
      (Nat.pos_of_ne_zero h0) hnlt)
    rcases fuel with _ | fuel
    · cases hrun
    · cases (hkept fuel).symm.trans hrun
      exact .inr (hc.drop.record _)

theorem counted_of_none (h0 : t.held = 0) : Counted p t := fun hpos =>
  absurd h0 hpos.ne'

theorem InCount.step (hs : InCount p s) (hst : sharedStep p s op t) :
    t.held = 0 ∧ op = .deref ∨
      Counts t.heap p t.held ∧ (t.held < UInt32.size ↔ Countable s op) := by
  obtain ⟨hc, hlt⟩ := hs.resolve_left hst.1.ne'
  cases op with
  | ref =>
    obtain ⟨hheld, hct⟩ := sharedStep_ref hc hst
    exact .inr ⟨hct, by simp [Countable, hheld]⟩
  | deref =>
    obtain ⟨htlt, h0 | hct⟩ := sharedStep_deref hc hlt hst
    · exact .inl ⟨h0, rfl⟩
    · exact .inr ⟨hct, by simp [Countable, htlt]⟩

/-- The references to an object stay counted exactly when each one taken can be. -/
theorem refs_counted_iff (h : Heap) (size : UInt64) (dh : Option (List Action))
    (ops : List RefOp) (t : Shared) :
    Run (fun s op t => sharedStep h.next s op t ∧ Counted h.next t) (.fresh h size dh) ops t ↔
      Run (guarded (sharedStep h.next) Countable) (.fresh h size dh) ops t := by
  refine run_good_iff (I := InCount h.next) (fun s op t hs hst => ?_)
    (fun s op t hs hst hcounted => ?_) .fresh
  · rcases hs.step hst with ⟨h0, rfl⟩ | ⟨hc, hiff⟩
    · exact iff_of_true (counted_of_none h0) fun hop => by cases hop
    · exact hc.counted_iff.trans hiff
  · rcases hs.step hst with ⟨h0, -⟩ | ⟨hc, -⟩
    · exact .inl h0
    · exact .inr ⟨hc, hc.counted_iff.1 hcounted⟩

theorem run_refs (n : Nat) (hc : Counts s.heap p s.held) (hpos : 0 < s.held) :
    ∃ t, Run (sharedStep p) s (List.replicate n .ref) t ∧ t.held = s.held + n ∧
      Counts t.heap p t.held ∧ SameDestructors s.heap t.heap := by
  induction n generalizing s with
  | zero => exact ⟨s, .nil s, rfl, hc, fun _ => rfl⟩
  | succ n ih =>
    have hrun := memRef_run hc.alive hc.magic
    obtain ⟨t, hr, hheld, hct, hdh⟩ := ih (s := ⟨s.heap.setObj p .addRef, s.held + 1⟩) hc.addRef
      (Nat.succ_pos _)
    refine ⟨t, .cons ⟨hpos, _, hrun, rfl⟩ hr, by rw [hheld]; exact Nat.succ_add_eq_add_succ _ _,
      hct, fun q => (hdh q).trans ?_⟩
    exact sameDestructors_frame.memRef _ _ _ hrun q

theorem not_refs_counted_wrapped : ∃ s t,
    Run (sharedStep 0) (.fresh .init 4 none) (List.replicate UInt32.size .ref) s ∧
    s.held = UInt32.size + 1 ∧ sharedStep 0 s .deref t ∧ t.held = UInt32.size ∧
    ¬ t.heap.Alive 0 ∧ ¬ Counted 0 t := by
  have hfresh : Counts (Shared.fresh .init 4 none).heap 0 1 := Counts.allocated (h := .init)
  obtain ⟨s, hr, hheld, hc, hdh⟩ := run_refs UInt32.size hfresh Nat.one_pos
  have hheld : s.held = UInt32.size + 1 := hheld.trans (Nat.add_comm _ _)
  have hlast := derefObj_freed 0 (hheld ▸ hc) dvd_rfl (hdh 0)
  have hdead : ¬ (((s.heap.setObj 0 .drop).freed 0).record (.returned 0 none)).Alive 0 :=
    freed_not_alive
  refine ⟨s, ⟨_, UInt32.size⟩, hr, hheld, ⟨by rw [hheld]; exact Nat.succ_pos _, ⟨1, _, hlast⟩,
    by rw [hheld, Nat.add_sub_cancel]⟩, rfl, hdead, fun hcounted => ?_⟩
  exact hdead (hcounted (Nat.zero_lt_one.trans one_lt_size)).1

def allocate (zero ok : Bool) (size : UInt64) (dh : Option (List Action)) : Proc (Option Ptr) :=
  if zero then memZalloc ok size dh else memAlloc ok size dh

/-- An object of this size is handed out only with room for it and its header, whatever `su_alloc`
gives beyond the bytes it was asked for, and only those are cleared. -/
structure Roomy (zero : Bool) (size : UInt64) (dh : Option (List Action)) (h : Heap) : Prop where
  room : ∀ ok p t, (allocate zero ok size dh).run h = .ok (some p, t) →
    ∀ block ≥ (t.objs p).block.toNat, headerSize.toNat + size.toNat ≤ block
  cleared : ∀ ok r t q n, (allocate zero ok size dh).run h = .ok (r, t) →
    t.trace = .clear q n :: h.trace → r = some q ∧
      ∀ block ≥ (t.objs q).block.toNat, headerSize.toNat + n.toNat ≤ block
  refused : UInt64.size ≤ headerSize.toNat + size.toNat → ∀ ok r t,
    (allocate zero ok size dh).run h = .ok (r, t) → r = none

theorem allocate_run_false (zero : Bool) : (allocate zero false size dh).run h = .ok (none, h) := by
  cases zero
  · exact memAlloc_run_false
  · exact memZalloc_run_false

theorem allocate_run (zero : Bool) : (allocate zero true size dh).run h = .ok (some h.next,
    if zero then (h.allocated size dh).record (.clear h.next size) else h.allocated size dh) := by
  cases zero
  · exact memAlloc_run
  · exact memZalloc_run

theorem allocate_cases {zero ok : Bool} {r : Option Ptr} {t : Heap}
    (hrun : (allocate zero ok size dh).run h = .ok (r, t)) :
    r = none ∧ t = h ∨ r = some h.next ∧ (t.objs h.next).block = headerSize + size ∧
      t.trace = if zero then .clear h.next size :: h.trace else h.trace := by
  cases ok
  · cases (allocate_run_false zero).symm.trans hrun
    exact .inl ⟨rfl, rfl⟩
  · cases (allocate_run zero).symm.trans hrun
    refine .inr ⟨rfl, ?_⟩
    cases zero <;> exact ⟨by simp [allocated_self], rfl⟩

theorem roomy_iff (zero : Bool) (size : UInt64) (dh : Option (List Action)) (h : Heap) :
    Roomy zero size dh h ↔ headerSize.toNat + size.toNat < UInt64.size := by
  constructor
  · intro hroomy
    by_contra hsize
    have hnone := hroomy.refused (Nat.not_lt.1 hsize) true _ _ (allocate_run zero)
    cases hnone
  · intro hsize
    have hroom := headerSize_add_toNat hsize
    refine ⟨fun ok p t hrun block hblock => ?_, fun ok r t q n hrun htrace => ?_,
      fun hle => absurd hsize (Nat.not_lt.2 hle)⟩
    · rcases allocate_cases hrun with ⟨hr, -⟩ | ⟨hr, hb, -⟩
      · cases hr
      · cases hr
        rw [← hroom, ← hb]
        exact hblock
    · rcases allocate_cases hrun with ⟨-, rfl⟩ | ⟨hr, hb, ht⟩
      · exact absurd (congrArg List.length htrace) (by simp)
      · rw [ht] at htrace
        cases zero
        · exact absurd (congrArg List.length htrace) (by simp)
        · obtain ⟨rfl, rfl⟩ : h.next = q ∧ size = n := by simpa using htrace
          refine ⟨hr, fun block hblock => ?_⟩
          rw [← hroom, ← hb]
          exact hblock

theorem not_roomy_carry :
    (∃ t, (memAlloc true 18446744073709551615 none).run .init = .ok (some 0, t) ∧
      (t.objs 0).block = 15 ∧ ¬ Roomy false 18446744073709551615 none .init) ∧
    ∃ t, (memZalloc true 18446744073709551615 none).run .init = .ok (some 0, t) ∧
      t.trace = [.clear 0 18446744073709551615] ∧ ¬ Roomy true 18446744073709551615 none .init := by
  refine ⟨⟨_, memAlloc_run, by decide, fun hroomy => ?_⟩, _, memZalloc_run, rfl, fun hroomy => ?_⟩
  · exact absurd (hroomy.room true 0 _ memAlloc_run 15 (by decide)) (by decide)
  · exact absurd (hroomy.room true 0 _ memZalloc_run 15 (by decide)) (by decide)

end Evsip.Mem
