import Evsip.Lib.Run
import Evsip.Mem.Cascade

/-! Clients of reference-counted memory: they allocate, refer, entrust references to objects
whose destructors give them back, and give back the references they hold. -/

namespace Evsip.Mem
open Ownership Heap Transition

structure Session where
  heap : Heap
  held : Ptr → Nat

def Session.init : Session := ⟨.init, fun _ => 0⟩

def MemHeader.entrust (qs : List Ptr) (m : MemHeader) : MemHeader :=
  { m with dh := some (qs.map .deref) }

inductive Op
  | alloc (zero ok : Bool) (size : UInt64) (destructor : Bool)
  | ref (data : Option Ptr)
  | deref (data : Option Ptr)
  /-- The references stored in an object become these. -/
  | entrust (p : Ptr) (qs : List Ptr)

def gain (held : Ptr → Nat) : Option Ptr → Ptr → Nat
  | none => held
  | some p => Function.update held p (held p + 1)

def give (held : Ptr → Nat) : Option Ptr → Ptr → Nat
  | none => held
  | some p => Function.update held p (held p - 1)

namespace Session

def outstanding (s : Session) (p : Ptr) : Nat := s.held p + s.heap.owned p

def fuel (s : Session) : Nat := s.heap.next + 1

def apply (s : Session) : Op → Except Fault Session
  | .alloc zero ok size destructor => do
    let dh := if destructor then some [] else none
    let (r, h) ← (if zero then memZalloc ok size dh else memAlloc ok size dh).run s.heap
    return ⟨h, gain s.held r⟩
  | .ref data => do
    let (r, h) ← (memRef data).run s.heap
    return ⟨h, gain s.held r⟩
  | .deref data => do
    let (_, h) ← (memDeref s.fuel data).run s.heap
    return ⟨h, give s.held data⟩
  | .entrust p qs =>
    return ⟨s.heap.setObj p (.entrust qs),
      fun q => s.held q + (s.heap.out p).count q - qs.count q⟩

end Session

/-- Sizes leave room for the header, counts for one more reference; references are given back
and entrusted by those who have them, and entrusted without a cycle. -/
def Op.Legal (s : Session) : Op → Prop
  | alloc _ _ size _ => headerSize.toNat + size.toNat < 2 ^ 64
  | ref data => ∀ p ∈ data, s.heap.Alive p ∧ s.outstanding p + 1 < 2 ^ 32
  | deref data => ∀ p ∈ data, 0 < s.held p
  | entrust p qs => s.heap.Alive p ∧ (s.heap.objs p).dh.isSome ∧
      (∀ q, qs.count q ≤ s.held q + (s.heap.out p).count q) ∧
      Acyclic (Function.update s.heap.out p qs)

def sessionStep (s : Session) (op : Op) (t : Session) : Prop := op.Legal s ∧ s.apply op = .ok t

/-- The account holds, and no call is under way. -/
structure Sound (s : Session) : Prop where
  account : Inv s.heap s.held []
  settled : ∀ p, ¬ s.heap.Dying p
  acyclic : Acyclic s.heap.out

variable {s t : Session} {op : Op} {h : Heap} {p q : Ptr} {held held' : Ptr → Nat} {qs : List Ptr}
  {pend : List Ptr} {size : UInt64} {dh : Option (List Action)}

theorem Sound.active (hs : Sound s) (ha : s.heap.Alive p) : s.heap.Active p :=
  ⟨ha, fun h0 => hs.settled p ⟨ha, h0⟩⟩

/-! Allocation -/

def Heap.allocated (h : Heap) (size : UInt64) (dh : Option (List Action)) : Heap :=
  { h.setObj h.next fun _ => ⟨memMagic, 1, dh, headerSize + size, true⟩ with next := h.next + 1 }

theorem memAlloc_run : (memAlloc true size dh).run h = .ok (some h.next, h.allocated size dh) := by
  simp [memAlloc, suAlloc, writeHeader, touch, Alive, Heap.setObj, Heap.allocated]

theorem memAlloc_run_false : (memAlloc false size dh).run h = .ok (none, h) := by
  simp [memAlloc, suAlloc]

theorem memZalloc_run : (memZalloc true size dh).run h =
    .ok (some h.next, (h.allocated size dh).record (.clear h.next size)) := by
  simp [memZalloc, memAlloc_run]

theorem memZalloc_run_false : (memZalloc false size dh).run h = .ok (none, h) := by
  simp [memZalloc, memAlloc_run_false]

theorem allocated_of_ne (hq : q ≠ h.next) : (h.allocated size dh).objs q = h.objs q := by
  simp [Heap.allocated, Heap.setObj, hq]

theorem allocated_self :
    (h.allocated size dh).objs h.next = ⟨memMagic, 1, dh, headerSize + size, true⟩ := by
  simp [Heap.allocated, Heap.setObj]

theorem headerSize_add_toNat (hsize : headerSize.toNat + size.toNat < UInt64.size) :
    (headerSize + size).toNat = headerSize.toNat + size.toNat := by
  rw [UInt64.toNat_add]
  exact Nat.mod_eq_of_lt hsize

theorem allocated_active : (h.allocated size dh).Active h.next :=
  ⟨by simp [Alive, allocated_self], by simp [allocated_self]⟩

theorem allocated_out (hdh : targets dh = []) (hnext : ¬ h.Alive h.next) (q : Ptr) :
    (h.allocated size dh).out q = h.out q := by
  by_cases hq : q = h.next
  · rw [hq, Heap.out, if_pos allocated_active, allocated_self, hdh,
      out_of_not_active fun ha => hnext ha.1]
  · exact out_congr (allocated_of_ne hq)

theorem Inv.next_not_alive (hi : Inv h held []) : ¬ h.Alive h.next := fun ha =>
  absurd (hi.created _ ha).1 (lt_irrefl _)

theorem Inv.allocated (hi : Inv h held []) (hdh : dh = none ∨ dh = some []) :
    Inv (h.allocated size dh) (gain held (some h.next)) [] := by
  have htargets : targets dh = [] := by rcases hdh with rfl | rfl <;> rfl
  have hnext := hi.next_not_alive
  have howned : ∀ q, (h.allocated size dh).owned q = h.owned q := fun q => by
    have hout : (h.allocated size dh).out h.next = [] :=
      (allocated_out htargets hnext _).trans (out_of_not_active fun ha => hnext ha.1)
    have hsucc : (h.allocated size dh).owned q =
        Ownership.owned (h.allocated size dh).out h.next q +
          ((h.allocated size dh).out h.next).count q := owned_succ
    rw [hout] at hsucc
    exact hsucc.trans (Ownership.owned_congr fun x _ => allocated_out htargets hnext x)
  have hfree := hi.dead h.next hnext
  have halive : ∀ {q}, q ≠ h.next → (h.allocated size dh).Alive q → h.Alive q := fun hq =>
    (alive_congr (allocated_of_ne hq)).1
  refine ⟨fun q hq => ?_, fun q calls hq => ?_, fun q hq => ?_, fun q hq => ?_, fun q => ?_,
    hi.noLate, hi.truthful, fun q n hq => ?_⟩
  · by_cases hqn : q = h.next
    · subst hqn
      exact ⟨Nat.lt_succ_self _, by rw [allocated_self]⟩
    · rw [allocated_of_ne hqn]
      have hc := hi.created q (halive hqn hq)
      exact ⟨Nat.lt_succ_of_lt hc.1, hc.2⟩
  · by_cases hqn : q = h.next
    · subst hqn
      rw [allocated_self]
      rintro rfl
      rcases hdh with h' | h' <;> simp at h'
      simp [h']
    · rw [allocated_of_ne hqn]
      exact hi.calls q calls (halive hqn hq)
  · rw [howned]
    by_cases hqn : q = h.next
    · subst hqn
      rw [allocated_self, gain, Function.update_self, UInt32.toNat_one]
      omega
    · rw [allocated_of_ne hqn, gain, Function.update_of_ne hqn]
      exact hi.refs q (halive hqn hq)
  · have hqn : q ≠ h.next := fun he => hq (he ▸ allocated_active.1)
    rw [howned, gain, Function.update_of_ne hqn]
    exact hi.dead q fun hq' => hq ((alive_congr (allocated_of_ne hqn)).2 hq')
  · refine (hi.history q).trans ?_
    by_cases hqn : q = h.next
    · subst hqn
      rw [fate, fate, if_neg hnext, if_neg (lt_irrefl _), if_pos allocated_active.1,
        if_neg allocated_active.2]
    · have hlt : q < (h.allocated size dh).next ↔ q < h.next := by
        simp only [Heap.allocated]
        exact ⟨fun hl => lt_of_le_of_ne (Nat.le_of_lt_succ hl) hqn, Nat.lt_succ_of_lt⟩
      simp only [fate, destructs, alive_congr (allocated_of_ne hqn), allocated_of_ne hqn, hlt]
  · obtain ⟨hlt, hblock⟩ := hi.room q n hq
    rw [allocated_of_ne hlt.ne]
    exact ⟨Nat.lt_succ_of_lt hlt, hblock⟩

theorem Sound.allocated (hs : Sound s) (hdh : dh = none ∨ dh = some []) :
    Sound ⟨s.heap.allocated size dh, gain s.held (some s.heap.next)⟩ := by
  have htargets : targets dh = [] := by rcases hdh with rfl | rfl <;> rfl
  have hnext := hs.account.next_not_alive
  refine ⟨hs.account.allocated hdh, fun q hq => ?_, hs.acyclic.mono fun q => ?_⟩
  · have hqn : q ≠ s.heap.next := by
      rintro rfl
      exact hq.not_active allocated_active
    exact hs.settled q ((dying_congr (allocated_of_ne hqn)).1 hq)
  · rw [allocated_out htargets hnext]
    exact List.Subset.refl _

theorem Sound.record {e : Event} (hs : Sound s) (hi : Inv (s.heap.record e) s.held []) :
    Sound ⟨s.heap.record e, s.held⟩ := ⟨hi, hs.settled, hs.acyclic⟩

theorem Sound.alloc {zero ok destructor : Bool} (hs : Sound s)
    (hsize : headerSize.toNat + size.toNat < 2 ^ 64) :
    ∃ t, s.apply (.alloc zero ok size destructor) = .ok t ∧ Sound t := by
  obtain ⟨dh, hdh, hempty⟩ : ∃ dh, dh = (if destructor then some [] else none) ∧
      (dh = none ∨ dh = some []) := by
    cases destructor
    · exact ⟨none, rfl, .inl rfl⟩
    · exact ⟨some [], rfl, .inr rfl⟩
  have hs' : Sound ⟨s.heap.allocated size dh, gain s.held (some s.heap.next)⟩ :=
    hs.allocated hempty
  cases ok <;> cases zero
  · exact ⟨s, by simp [Session.apply, memAlloc_run_false, gain], hs⟩
  · exact ⟨s, by simp [Session.apply, memZalloc_run_false, gain], hs⟩
  · exact ⟨_, by simp [Session.apply, memAlloc_run, ← hdh], hs'⟩
  · refine ⟨⟨(s.heap.allocated size dh).record (.clear s.heap.next size), _⟩, by
      simp [Session.apply, memZalloc_run, ← hdh], hs'.record ?_⟩
    have hroom := headerSize_add_toNat hsize
    refine hs'.account.record (by simp) (by simp) hs'.account.truthful fun q n he => ?_
    obtain ⟨rfl, rfl⟩ : s.heap.next = q ∧ size = n := by simpa using he
    rw [allocated_self]
    exact ⟨Nat.lt_succ_self _, hroom⟩

/-! References taken and entrusted -/

theorem memRef_run (ha : h.Alive p) (hm : (h.objs p).magic = memMagic) :
    (memRef (some p)).run h =
      .ok (some p, h.setObj p .addRef) := by
  simp [memRef, readHeader_run, writeHeader_run, ha, hm]

theorem memNrefs_run (ha : h.Alive p) (hm : (h.objs p).magic = memMagic) :
    (memNrefs (some p)).run h = .ok ((h.objs p).nbRefs, h) := by
  simp [memNrefs, readHeader_run, ha, hm]

theorem Sound.revised {f : MemHeader → MemHeader} {held' : Ptr → Nat} (hs : Sound s)
    (ha' : (s.heap.setObj p f).Active p) (hi : Inv (s.heap.setObj p f) held' [])
    (hacyclic : Acyclic (s.heap.setObj p f).out) : Sound ⟨s.heap.setObj p f, held'⟩ := by
  refine ⟨hi, fun q hq => ?_, hacyclic⟩
  have hqp : q ≠ p := by
    rintro rfl
    exact hq.not_active ha'
  exact hs.settled q ((dying_congr (setObj_of_ne hqp)).1 hq)

theorem Sound.addRef_toNat (hs : Sound s) (ha : s.heap.Alive p)
    (hroom : s.outstanding p + 1 < 2 ^ 32) :
    (s.heap.objs p).addRef.nbRefs.toNat = (s.heap.objs p).nbRefs.toNat + 1 := by
  rw [MemHeader.addRef, UInt32.toNat_add, UInt32.toNat_one, Nat.mod_eq_of_lt]
  rw [hs.account.refs p ha]
  exact hroom

theorem Sound.ref {data : Option Ptr} (hs : Sound s) (hl : (Op.ref data).Legal s) :
    ∃ t, s.apply (.ref data) = .ok t ∧ Sound t := by
  rcases data with _ | p
  · exact ⟨s, rfl, hs⟩
  obtain ⟨halive, hroom⟩ := hl p rfl
  have ha := hs.active halive
  have hm := (hs.account.created p halive).2
  have hr := hs.account.refs p halive
  have hadd := hs.addRef_toNat halive hroom
  have ha' : (s.heap.setObj p .addRef).Active p := by
    refine ⟨by simpa [Alive, MemHeader.addRef] using halive, fun h0 => ?_⟩
    have hz := congrArg UInt32.toNat h0
    rw [setObj_self, hadd] at hz
    simp at hz
  have hout := out_setObj_same ha ha' rfl
  have howned : ∀ q, (s.heap.setObj p .addRef).owned q =
      s.heap.owned q := fun q => owned_congr rfl fun q _ => hout q
  refine ⟨⟨s.heap.setObj p .addRef, gain s.held (some p)⟩, by
    simp [Session.apply, memRef_run halive hm], hs.revised ha' ?_ ?_⟩
  · refine hs.account.revised ha ha' rfl rfl rfl (fun calls => hs.account.calls p calls halive) ?_ ?_
    · rw [hadd, howned, hr, gain, Function.update_self]
      omega
    · intro q hq
      rw [howned, gain, Function.update_of_ne hq]
  · exact hs.acyclic.mono fun q => (hout q).symm ▸ List.Subset.refl _

theorem targets_map_deref (qs : List Ptr) : targets (some (qs.map .deref)) = qs := by
  induction qs with
  | nil => rfl
  | cons q qs ih => exact congrArg (q :: ·) ih

theorem Sound.entrust (hs : Sound s) (hl : (Op.entrust p qs).Legal s) :
    ∃ t, s.apply (.entrust p qs) = .ok t ∧ Sound t := by
  obtain ⟨halive, hdh, hcount, hacyclic⟩ := hl
  have ha := hs.active halive
  have ha' : (s.heap.setObj p (.entrust qs)).Active p := by
    simpa [Active, Alive, MemHeader.entrust] using ha
  have hout : (s.heap.setObj p (.entrust qs)).out =
      Function.update s.heap.out p qs := by
    funext q
    by_cases hq : q = p
    · rw [hq, Function.update_self, Heap.out, if_pos ha', setObj_self]
      exact targets_map_deref qs
    · rw [Function.update_of_ne hq]
      exact out_setObj_of_ne hq
  have howned : ∀ q, (s.heap.setObj p (.entrust qs)).owned q +
      (s.heap.out p).count q = s.heap.owned q + qs.count q := fun q => by
    rw [Heap.owned, hout]
    exact owned_update (hs.account.created p halive).1 qs
  -- what the object gave back and what it got cancel out for every reference
  have hsum : ∀ q, s.held q + (s.heap.out p).count q - qs.count q +
      (s.heap.setObj p (.entrust qs)).owned q =
        s.held q + s.heap.owned q := fun q => by
    have hq := howned q
    have hle := hcount q
    omega
  refine ⟨_, rfl, hs.revised ha' ?_ (hout ▸ hacyclic)⟩
  refine hs.account.revised ha ha' rfl rfl hdh.symm ?_ ?_ fun q _ => ?_
  · rintro calls hcalls a hmem
    obtain rfl : qs.map Action.deref = calls := by simpa [MemHeader.entrust] using hcalls
    obtain ⟨q, -, rfl⟩ := List.mem_map.1 hmem
    exact ⟨q, rfl⟩
  · rw [hsum]
    exact hs.account.refs p halive
  · rw [hsum]

/-! References given back -/

theorem active_lt_fuel : s.heap.active < s.fuel := by
  have hle := Finset.card_filter_le (Finset.range s.heap.next) s.heap.Active
  rw [Finset.card_range] at hle
  exact Nat.lt_succ_of_le hle

theorem Sound.deref_run (hs : Sound s) (hp : 0 < s.held p) :
    ∃ r h', (memDeref s.fuel (some p)).run s.heap = .ok (r, h') ∧
      Sound ⟨h', give s.held (some p)⟩ ∧ (r = none ↔ ¬ h'.Alive p) ∧
      (¬ h'.Alive p ↔ s.outstanding p = 1) ∧ p < h'.next := by
  have hi := hs.account.ofHeld hp
  obtain ⟨r, h', hrun, hi', hsettled, hr, hlast⟩ := derefSpec hi active_lt_fuel
  refine ⟨r, h', hrun, ⟨hi', fun q hq => hs.settled q (hsettled.no_new q hq),
    hs.acyclic.mono hsettled.out_sub⟩, hr, hlast.trans ?_,
    hsettled.next_eq ▸ (hs.account.created p hi.alive).1⟩
  have hrefs := hs.account.refs p hi.alive
  rw [← UInt32.toNat_inj, hrefs]
  rfl

theorem Sound.deref {data : Option Ptr} (hs : Sound s) (hl : (Op.deref data).Legal s) :
    ∃ t, s.apply (.deref data) = .ok t ∧ Sound t := by
  rcases data with _ | p
  · exact ⟨s, rfl, hs⟩
  obtain ⟨r, h', hrun, hs', -⟩ := hs.deref_run (hl p rfl)
  exact ⟨_, by simp [Session.apply, hrun], hs'⟩

theorem Sound.step (hs : Sound s) (hl : op.Legal s) : ∃ t, s.apply op = .ok t ∧ Sound t := by
  cases op with
  | alloc zero ok size destructor => exact hs.alloc hl
  | ref data => exact hs.ref hl
  | deref data => exact hs.deref hl
  | entrust p qs => exact hs.entrust hl

end Evsip.Mem
