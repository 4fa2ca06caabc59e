import Evsip.Mem.Heap
import Evsip.Lib.Ownership

/-! The account of a heap: every reference counted is held by a client, owned by an object
that is in use, or still to be given back by a destructor that is running. -/

namespace Evsip.Mem
open Ownership

variable {h h' : Heap} {p q : Ptr} {f : MemHeader → MemHeader} {held : Ptr → Nat} {pend : List Ptr}
  {r : Option Ptr} {later earlier : List Event}

def targets : Option (List Action) → List Ptr
  | none => []
  | some calls => calls.filterMap fun
    | .deref q => some q
    | _ => none

namespace Heap

/-- In use: not freed, and referenced. -/
def Active (h : Heap) (p : Ptr) : Prop := h.Alive p ∧ (h.objs p).nbRefs ≠ 0

def Dying (h : Heap) (p : Ptr) : Prop := h.Alive p ∧ (h.objs p).nbRefs = 0

instance (h : Heap) (p : Ptr) : Decidable (h.Active p) := inferInstanceAs (Decidable (_ ∧ _))

def out (h : Heap) (p : Ptr) : List Ptr := if h.Active p then targets (h.objs p).dh else []

def owned (h : Heap) (p : Ptr) : Nat := Ownership.owned h.out h.next p

def active (h : Heap) : Nat := ((Finset.range h.next).filter h.Active).card

def history (h : Heap) (p : Ptr) : List Event :=
  h.trace.filter fun e => e = .destruct p ∨ e = .free p

def destructs (h : Heap) (p : Ptr) : List Event :=
  if (h.objs p).dh.isSome then [.destruct p] else []

def fate (h : Heap) (p : Ptr) : List Event :=
  if h.Alive p then if (h.objs p).nbRefs = 0 then h.destructs p else []
  else if p < h.next then .free p :: h.destructs p
  else []

@[simp] theorem setObj_next : (h.setObj p f).next = h.next := rfl
@[simp] theorem setObj_trace : (h.setObj p f).trace = h.trace := rfl
@[simp] theorem setObj_self : (h.setObj p f).objs p = f (h.objs p) := by simp [setObj]

theorem setObj_block (hf : (f (h.objs p)).block = (h.objs p).block) (q : Ptr) :
    ((h.setObj p f).objs q).block = (h.objs q).block := by
  by_cases hq : q = p
  · rw [hq, setObj_self, hf]
  · simp [setObj, hq]

theorem setObj_of_ne (hq : q ≠ p) : (h.setObj p f).objs q = h.objs q := by
  simp [setObj, hq]

@[simp] theorem record_objs (e : Event) : (h.record e).objs = h.objs := rfl
@[simp] theorem record_next (e : Event) : (h.record e).next = h.next := rfl

theorem alive_congr (ho : h'.objs p = h.objs p) : h'.Alive p ↔ h.Alive p := by rw [Alive, Alive, ho]

theorem active_congr (ho : h'.objs p = h.objs p) : h'.Active p ↔ h.Active p := by
  rw [Active, Active, alive_congr ho, ho]

theorem dying_congr (ho : h'.objs p = h.objs p) : h'.Dying p ↔ h.Dying p := by
  rw [Dying, Dying, alive_congr ho, ho]

theorem out_congr (ho : h'.objs p = h.objs p) : h'.out p = h.out p := by
  simp only [out, active_congr ho, ho]

theorem fate_congr (ho : h'.objs p = h.objs p) (hn : h'.next = h.next) : h'.fate p = h.fate p := by
  simp only [fate, destructs, alive_congr ho, ho, hn]

theorem owned_congr (hn : h'.next = h.next) (ho : ∀ q < h.next, h'.out q = h.out q) :
    h'.owned p = h.owned p := by
  rw [owned, owned, hn]
  exact Ownership.owned_congr ho

theorem out_of_not_active (ha : ¬ h.Active p) : h.out p = [] := if_neg ha

theorem Dying.not_active (hd : h.Dying p) : ¬ h.Active p := fun ha => ha.2 hd.2

end Heap

/-- Every `evsip_mem_deref` returned NULL when its object had been freed and then only. -/
def Truthful : List Event → Prop
  | [] => True
  | .returned p r :: earlier => (r = none ↔ .free p ∈ earlier) ∧ Truthful earlier
  | _ :: earlier => Truthful earlier

theorem Truthful.at (ht : Truthful (later ++ .returned p r :: earlier)) :
    r = none ↔ .free p ∈ earlier := by
  induction later with
  | nil => exact ht.1
  | cons e later ih =>
    refine ih ?_
    cases e with
    | returned => exact ht.2
    | _ => exact ht

/-- The account, with `held` references in the hands of clients and `pend` to be given back. -/
structure Inv (h : Heap) (held : Ptr → Nat) (pend : List Ptr) : Prop where
  created : ∀ p, h.Alive p → p < h.next ∧ (h.objs p).magic = memMagic
  calls : ∀ p calls, h.Alive p → (h.objs p).dh = some calls → ∀ a ∈ calls, ∃ q, a = .deref q
  refs : ∀ p, h.Alive p → (h.objs p).nbRefs.toNat = held p + h.owned p + pend.count p
  dead : ∀ p, ¬ h.Alive p → held p + h.owned p + pend.count p = 0
  history : ∀ p, h.history p = h.fate p
  noLate : ∀ p, .late p ∉ h.trace
  truthful : Truthful h.trace
  room : ∀ p size, .clear p size ∈ h.trace →
    p < h.next ∧ (h.objs p).block.toNat = headerSize.toNat + size.toNat

theorem Inv.alive (hi : Inv h held (p :: pend)) : h.Alive p := by
  by_contra hno
  have := hi.dead p hno
  simp at this

theorem Inv.active (hi : Inv h held (p :: pend)) : h.Active p := by
  refine ⟨hi.alive, fun h0 => ?_⟩
  have := hi.refs p hi.alive
  simp [h0] at this

theorem Inv.ofHeld (hi : Inv h held []) (hp : 0 < held p) :
    Inv h (Function.update held p (held p - 1)) [p] := by
  have hsum : ∀ q, Function.update held p (held p - 1) q + h.owned q + [p].count q =
      held q + h.owned q + [].count q := fun q => by
    by_cases hq : q = p
    · subst hq
      simp
      omega
    · simp [Function.update_of_ne hq, Ne.symm hq]
  exact ⟨hi.created, hi.calls, fun q hq => (hi.refs q hq).trans (hsum q).symm,
    fun q hq => (hsum q).trans (hi.dead q hq), hi.history, hi.noLate, hi.truthful, hi.room⟩

theorem Inv.mem_free_iff (hi : Inv h held pend) : .free p ∈ h.trace ↔ p < h.next ∧ ¬ h.Alive p := by
  have hmem : .free p ∈ h.trace ↔ .free p ∈ h.history p := by simp [Heap.history]
  have hdestructs : .free p ∉ h.destructs p := by
    unfold Heap.destructs
    split <;> simp
  rw [hmem, hi.history, Heap.fate]
  by_cases ha : h.Alive p <;> by_cases h0 : (h.objs p).nbRefs = 0 <;> by_cases hp : p < h.next <;>
    simp [ha, h0, hp, hdestructs]

end Evsip.Mem
