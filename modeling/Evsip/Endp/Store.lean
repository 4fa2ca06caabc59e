import Evsip.Lib.CString
import Evsip.Lib.Proc
import Evsip.Types

/-! End points, their memory homes and the cached list. Released memory keeps its contents here, and
every use of it is recorded: that of an end point in `Store.trace`, that of the list in
`Store.lateList`. -/

namespace Evsip.Endp
open CLib

abbrev EndpPtr := Nat

structure Dup where
  addr : Nat
  str : CString
  deriving DecidableEq

/-- `su_home_t`: its reference count and the strings allocated from it that are live. -/
structure SuHome where
  refs : Nat
  strings : List Dup
  deriving DecidableEq

structure EndpCtx where
  magic : UInt32
  home : SuHome
  flags : UInt32
  contact : Option Dup
  host : Option Dup
  deriving DecidableEq

/-- `su_vector_t`: the end point in whose home it was allocated, and its items. -/
structure SuVector where
  home : EndpPtr
  items : List EndpPtr
  deriving DecidableEq

inductive Event
  /-- `evsip_endp_destroy` reached `su_home_unref`. -/
  | homeUnref (p : EndpPtr)
  /-- A field of an end point was read or written after its home was released. -/
  | lateAccess (p : EndpPtr)
  /-- `evsip_endp_isAttached` found the flag set and the end point not listed. -/
  | attachedNotInList (p : EndpPtr)
  /-- The loop of `evsip_endp_extract` ended without finding the end point. -/
  | extractNotInList (p : EndpPtr)
  deriving DecidableEq

inductive Fault
  | nullPointer
  | nullString
  deriving DecidableEq

structure Store where
  endp : EndpPtr → EndpCtx
  next : EndpPtr
  nextStr : Nat
  gpEndpList : Option SuVector
  trace : List Event
  /-- How often the list was used after the home it lies in was released. -/
  lateList : Nat

abbrev Proc := StateT Store (Except Fault)

def endpMagic : UInt32 := 20150308
def endpFlagAdded : UInt32 := 1 <<< (0 : UInt32)

def EndpCtx.zero : EndpCtx := ⟨0, ⟨0, []⟩, 0, none, none⟩

def Store.init : Store := ⟨fun _ => .zero, 0, 0, none, [], 0⟩

namespace Store

def items (s : Store) : List EndpPtr :=
  match s.gpEndpList with
  | none => []
  | some v => v.items

def setEndp (s : Store) (p : EndpPtr) (f : EndpCtx → EndpCtx) : Store :=
  { s with endp := Function.update s.endp p (f (s.endp p)) }

def record (s : Store) (e : Event) : Store := { s with trace := e :: s.trace }

def setItems (s : Store) (items : List EndpPtr) : Store :=
  { s with gpEndpList := s.gpEndpList.map fun v => { v with items := items } }

def released (s : Store) (p : EndpPtr) : Prop := (s.endp p).home.refs = 0

instance (s : Store) (p : EndpPtr) : Decidable (s.released p) :=
  inferInstanceAs (Decidable (_ = _))

/-- The home the list was allocated from, if there is a list, has not been released. -/
def ListLive (s : Store) : Prop := ∀ v, s.gpEndpList = some v → ¬ s.released v.home

instance (s : Store) : Decidable s.ListLive :=
  match h : s.gpEndpList with
  | none => .isTrue fun v hv => by simp [h] at hv
  | some v => decidable_of_iff (¬ s.released v.home)
      ⟨fun hl w hw => by cases h.symm.trans hw; exact hl, fun hl => hl v h⟩

/-- The store after `n` uses of the list. -/
def used (s : Store) (n : Nat) : Store :=
  { s with lateList := s.lateList + if s.ListLive then 0 else n }

def hostOf (s : Store) (p : EndpPtr) : Option CString := (s.endp p).host.map Dup.str
def contactOf (s : Store) (p : EndpPtr) : Option CString := (s.endp p).contact.map Dup.str

end Store

def touch (p : EndpPtr) : Proc Unit :=
  modify fun s => if s.released p then s.record (.lateAccess p) else s

def readEndp {α : Type} (p : EndpPtr) (f : EndpCtx → α) : Proc α := do
  touch p
  return f ((← get).endp p)

def writeEndp (p : EndpPtr) (f : EndpCtx → EndpCtx) : Proc Unit := do
  touch p
  modify fun s => s.setEndp p f

/-! Of sofia-sip. The flag says whether the allocation succeeds. -/

def suHomeClone (ok : Bool) : Proc (Option EndpPtr) := do
  let s ← get
  if !ok then
    return none
  set { s.setEndp s.next (fun _ => { EndpCtx.zero with home := ⟨1, []⟩ }) with next := s.next + 1 }
  return some s.next

def suHomeUnref (p : EndpPtr) : Proc Unit := do
  touch p
  modify fun s => (s.setEndp p fun c =>
    if c.home.refs ≤ 1 then { c with home := ⟨0, []⟩ }
    else { c with home := { c.home with refs := c.home.refs - 1 } }).record (.homeUnref p)

/-- `su_strdup(home, str)`; of NULL, or without memory, NULL. -/
def suStrdup (ok : Bool) (p : EndpPtr) (str : Option CString) : Proc (Option Dup) := do
  touch p
  let s ← get
  match str with
  | none => return none
  | some str =>
    if !ok then
      return none
    let d : Dup := ⟨s.nextStr, str⟩
    set { s.setEndp p (fun c => { c with home := { c.home with strings := d :: c.home.strings } }) with
      nextStr := s.nextStr + 1 }
    return some d

def touchList : Proc Unit := modify (·.used 1)

/-- What a loop of `su_vector_len` and `su_vector_item` over `gpEndpList` visits. -/
def suVectorItems : Proc (List EndpPtr) := do
  touchList
  return (← get).items

def suVectorCreate (ok : Bool) (p : EndpPtr) : Proc (Option SuVector) := do
  touch p
  return if ok then some ⟨p, []⟩ else none

def suVectorAppend (ok : Bool) (p : EndpPtr) : Proc Bool := do
  touchList
  if ok then
    modify fun s => s.setItems (s.items ++ [p])
  return ok

end Evsip.Endp
