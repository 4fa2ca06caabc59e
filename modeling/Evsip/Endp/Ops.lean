import Evsip.Endp.Store

/-! The end point controller, function by function. -/

namespace Evsip.Endp
open CLib

def ctxCheckAndMagic {α : Type} (pEndp : Option EndpPtr) (codeRet : Proc α)
    (body : EndpPtr → Proc α) : Proc α :=
  match pEndp with
  | none => codeRet
  | some p => do
    if (← readEndp p (·.magic)) ≠ endpMagic then
      codeRet
    else
      body p

def endpCreate (ok : Bool) : Proc (Code × Option EndpPtr) := do
  match ← suHomeClone ok with
  | none => return (.errorOutOfResources, none)
  | some p =>
    -- the clearing `memset` is taken to leave the home as `su_home_clone` made it
    writeEndp p fun c => { c with magic := endpMagic }
    return (.success, some p)

def endpDestroy (pEndp : Option EndpPtr) : Proc Unit :=
  ctxCheckAndMagic pEndp (return ()) suHomeUnref

/-- `su_vector_remove(gpEndpList, index)`, with `evsip_endp_destroy` as its free function. -/
def suVectorRemove (index : Nat) : Proc Unit := do
  match (← suVectorItems)[index]? with
  | none => return ()
  | some item =>
    endpDestroy (some item)
    -- the home of the item may have been that of the list
    touchList
    modify fun s => s.setItems (s.items.eraseIdx index)

def endpAdd (okCreate okAppend : Bool) (pEndp : Option EndpPtr) : Proc Code :=
  ctxCheckAndMagic pEndp (return .errorInvalidHandle) fun p => do
    if (← get).gpEndpList.isNone then
      let v ← suVectorCreate okCreate p
      modify fun s => { s with gpEndpList := v }
      if v.isNone then
        return .errorOutOfResources
    if !(← suVectorAppend okAppend p) then
      return .errorInsufficientBuffer
    writeEndp p fun c => { c with flags := c.flags ||| endpFlagAdded }
    return .success

def endpExtract (pEndp : Option EndpPtr) : Proc Code :=
  ctxCheckAndMagic pEndp (return .errorInvalidHandle) fun p => do
    if (← readEndp p (·.flags)) &&& endpFlagAdded = 0 then
      return .errorNotFound
    match (← suVectorItems).idxOf? p with
    | some i =>
      suVectorRemove i
      writeEndp p fun c => { c with flags := c.flags &&& ~~~endpFlagAdded }
      return .success
    | none =>
      modify (·.record (.extractNotInList p))
      return .errorNotFound

/-- A setter: it keeps a copy of the string, through `put`, whether or not there is one. -/
def endpSetString (put : Option Dup → EndpCtx → EndpCtx) (ok : Bool) (pEndp : Option EndpPtr)
    (str : Option CString) : Proc Code :=
  ctxCheckAndMagic pEndp (return .errorInvalidHandle) fun p => do
    let d ← suStrdup ok p str
    writeEndp p (put d)
    return .success

def endpSetContact : Bool → Option EndpPtr → Option CString → Proc Code :=
  endpSetString fun d c => { c with contact := d }

def endpSetHostIpv4 : Bool → Option EndpPtr → Option CString → Proc Code :=
  endpSetString fun d c => { c with host := d }

def dumpLoop : List EndpPtr → Proc (List (Option CString × Option CString))
  | [] => return []
  | tmp :: rest => do
    let contact ← readEndp tmp (·.contact)
    let host ← readEndp tmp (·.host)
    return (contact.map Dup.str, host.map Dup.str) :: (← dumpLoop rest)

def endpDumpList : Proc (List (Option CString × Option CString)) := do
  dumpLoop (← suVectorItems)

def endpIsAttached (pEndp : Option EndpPtr) : Proc Code :=
  ctxCheckAndMagic pEndp (return .errorInvalidHandle) fun p => do
    if (← readEndp p (·.flags)) &&& endpFlagAdded = 0 then
      return .errorNotFound
    if p ∈ (← suVectorItems) then
      return .success
    modify (·.record (.attachedNotInList p))
    writeEndp p fun c => { c with flags := c.flags &&& ~~~endpFlagAdded }
    return .errorNotFound

def strcmpPtr (s1 s2 : Option CString) : Proc Int := do
  let s1 ← Proc.deref .nullString s1
  let s2 ← Proc.deref .nullString s2
  return strcmp s1.bytes s2.bytes

def findLoop (pIpv4 : Option CString) : List EndpPtr → Proc (Option EndpPtr)
  | [] => return none
  | tmp :: rest => do
    let host ← readEndp tmp (·.host)
    if (← strcmpPtr (host.map Dup.str) pIpv4) = 0 then
      return some tmp
    findLoop pIpv4 rest

def endpFindByIpv4 (pIpv4 : Option CString) : Proc (Code × Option EndpPtr) := do
  let pEndp ← findLoop pIpv4 (← suVectorItems)
  return (if pEndp.isSome then .success else .errorNotFound, pEndp)

end Evsip.Endp
