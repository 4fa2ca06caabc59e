import Evsip.Lib.Proc
import Mathlib.Logic.Function.Basic

/-! Reference-counted memory. A destructor is the list of calls it will make, so that one
`evsip_mem_deref` may run through many objects. Freed blocks keep their contents here; what
happens to a block, and every use of it after it was freed, is recorded. -/

namespace Evsip.Mem

abbrev Ptr := Nat

inductive Action
  | refSelf
  | derefSelf
  | deref (p : Ptr)
  deriving DecidableEq

/-- `struct evsip_memHeader_str`, with the size of the block behind it and whether the block
has not been freed. -/
structure MemHeader where
  magic : UInt32
  nbRefs : UInt32
  dh : Option (List Action)
  block : UInt64
  live : Bool
  deriving DecidableEq

inductive Event
  | destruct (p : Ptr)
  | free (p : Ptr)
  /-- The object was used after its block was freed. -/
  | late (p : Ptr)
  | clear (p : Ptr) (size : UInt64)
  /-- `evsip_mem_deref` was called with the first and returned the second. -/
  | returned (p : Ptr) (r : Option Ptr)
  deriving DecidableEq

structure Heap where
  objs : Ptr → MemHeader
  next : Ptr
  trace : List Event

inductive Fault
  | outOfFuel
  deriving DecidableEq

abbrev Proc := StateT Heap (Except Fault)

def memMagic : UInt32 := 0x15170516

def headerSize : UInt64 := 16

def MemHeader.addRef (m : MemHeader) : MemHeader := { m with nbRefs := m.nbRefs + 1 }

def MemHeader.drop (m : MemHeader) : MemHeader := { m with nbRefs := m.nbRefs - 1 }

def MemHeader.release (m : MemHeader) : MemHeader := { m with live := false }

def Heap.init : Heap := ⟨fun _ => ⟨0, 0, none, 0, false⟩, 0, []⟩

namespace Heap

def setObj (h : Heap) (p : Ptr) (f : MemHeader → MemHeader) : Heap :=
  { h with objs := Function.update h.objs p (f (h.objs p)) }

def record (h : Heap) (e : Event) : Heap := { h with trace := e :: h.trace }

def Alive (h : Heap) (p : Ptr) : Prop := (h.objs p).live = true

instance (h : Heap) (p : Ptr) : Decidable (h.Alive p) := inferInstanceAs (Decidable (_ = _))

end Heap

def touch (p : Ptr) : Proc Unit := modify fun h => if h.Alive p then h else h.record (.late p)

def readHeader {α : Type} (p : Ptr) (f : MemHeader → α) : Proc α := do
  touch p
  return f ((← get).objs p)

def writeHeader (p : Ptr) (f : MemHeader → MemHeader) : Proc Unit := do
  touch p
  modify fun h => h.setObj p f

/-- `su_alloc`, with the flag saying whether it succeeds. -/
def suAlloc (ok : Bool) (size : UInt64) : Proc (Option Ptr) := do
  let h ← get
  if !ok then
    return none
  set { h.setObj h.next fun _ => ⟨0, 0, none, size, true⟩ with next := h.next + 1 }
  return some h.next

def suFree (p : Ptr) : Proc Unit := do
  writeHeader p .release
  modify fun h => h.record (.free p)

def memAlloc (ok : Bool) (size : UInt64) (dh : Option (List Action)) : Proc (Option Ptr) := do
  match ← suAlloc ok (headerSize + size) with
  | none => return none
  | some p =>
    writeHeader p fun m => { m with nbRefs := 1 }
    writeHeader p fun m => { m with dh := dh }
    writeHeader p fun m => { m with magic := memMagic }
    return some p

def memZalloc (ok : Bool) (size : UInt64) (dh : Option (List Action)) : Proc (Option Ptr) := do
  match ← memAlloc ok size dh with
  | none => return none
  | some p =>
    -- `memset`: where it leaves the block the program ends, and here it is only recorded
    modify fun h => h.record (.clear p size)
    return some p

def memRef (data : Option Ptr) : Proc (Option Ptr) := do
  match data with
  | none => return none
  | some p =>
    if (← readHeader p (·.magic)) ≠ memMagic then
      return none
    writeHeader p .addRef
    return some p

def memNrefs (data : Option Ptr) : Proc UInt32 := do
  match data with
  | none => return 0
  | some p =>
    if (← readHeader p (·.magic)) ≠ memMagic then
      return 0
    readHeader p (·.nbRefs)

def runDestructor (deref : Ptr → Proc (Option Ptr)) (self : Ptr) : List Action → Proc Unit
  | [] => return ()
  | .refSelf :: rest => do
    let _ ← memRef (some self)
    runDestructor deref self rest
  | .derefSelf :: rest => do
    let _ ← deref self
    runDestructor deref self rest
  | .deref p :: rest => do
    let _ ← deref p
    runDestructor deref self rest

def freeUnlessReferenced (p : Ptr) : Proc (Option Ptr) := do
  if (← readHeader p (·.nbRefs)) > 0 then
    return some p
  suFree p
  return none

/-- `evsip_mem_deref` on a pointer that is not NULL, `deref` standing for the calls to it
from the destructor. -/
def derefBody (deref : Ptr → Proc (Option Ptr)) (p : Ptr) : Proc (Option Ptr) := do
  if (← readHeader p (·.magic)) ≠ memMagic then
    return none
  writeHeader p .drop
  if (← readHeader p (·.nbRefs)) > 0 then
    return some p
  match ← readHeader p (·.dh) with
  | none => freeUnlessReferenced p
  | some calls =>
    modify fun h => h.record (.destruct p)
    runDestructor deref p calls
    -- the destructor may have referred to the object again
    freeUnlessReferenced p

/-- The calls nest no deeper than the fuel. -/
def derefObj : Nat → Ptr → Proc (Option Ptr)
  | 0, _ => throw .outOfFuel
  | fuel + 1, p => do
    let r ← derefBody (derefObj fuel) p
    modify fun h => h.record (.returned p r)
    return r

def memDeref (fuel : Nat) (data : Option Ptr) : Proc (Option Ptr) :=
  match data with
  | none => return none
  | some p => derefObj fuel p

end Evsip.Mem
