import Evsip.Endp.Ops

/-! The REGISTER handler and what it reads of a parsed SIP message. -/

namespace Evsip.Register
open CLib Endp

structure Url where
  urlUser : Option CString
  urlHost : Option CString
  deriving DecidableEq

/-- `sip_contact_t`; `m_url` is an array of one and never NULL. -/
structure SipContact where
  mUrl : Url
  mExpires : Option CString
  deriving DecidableEq

structure SipRequest where
  rqMethodName : Option CString
  deriving DecidableEq

structure SipTo where
  aUrl : Url
  deriving DecidableEq

structure SipExpires where
  exDelta : UInt64
  deriving DecidableEq

structure SipAuthorization where
  auScheme : CString
  deriving DecidableEq

/-- `sip_t`, with NULL for each header a message does not have. -/
structure Sip where
  sipRequest : Option SipRequest
  sipTo : Option SipTo
  sipContact : Option SipContact
  sipAuthorization : Option SipAuthorization
  sipProxyAuthorization : Option SipAuthorization
  sipExpires : Option SipExpires
  deriving DecidableEq

inductive Response
  | trying
  | ok (contact : Option SipContact) (expires : String)
  | unauthorized
  | internalServerError
  deriving DecidableEq

def Response.status : Response → Nat
  | .trying => 100
  | .ok _ _ => 200
  | .unauthorized => 401
  | .internalServerError => 500

/-- What a request comes to: the code, the responses, and the end points shown behind a 200. -/
structure Handled where
  code : Code
  sent : List Response
  shown : Option (List (Option CString × Option CString))
  deriving DecidableEq

/-- Which allocations succeed while a request is handled; none is made twice. -/
structure Allocs where
  homeClone : Bool
  strdupHost : Bool
  strdupContact : Bool
  vectorCreate : Bool
  vectorAppend : Bool
  deriving DecidableEq

def Allocs.all : Allocs := ⟨true, true, true, true, true⟩

def Sip.exptime (sip : Sip) : UInt64 :=
  match sip.sipExpires, sip.sipContact with
  | some e, _ => e.exDelta
  | none, some ⟨_, some text⟩ => UInt64.ofInt (atol text.bytes)
  | none, _ => 300

/-- The part of the handler under `exptime > 0`. -/
def registerAttach (a : Allocs) (pEndp : Option EndpPtr) (host user : Option CString) :
    Proc Unit := do
  let _ ← endpSetHostIpv4 a.strdupHost pEndp host
  let _ ← endpSetContact a.strdupContact pEndp user
  if (← endpIsAttached pEndp) ≠ .success then
    -- a failure is logged, and answered with a 200 OK all the same
    let _ ← endpAdd a.vectorCreate a.vectorAppend pEndp

def registerDetach (pEndp : Option EndpPtr) : Proc Unit := do
  if pEndp.isSome then
    -- the list has already destroyed what it gives up
    let _ ← endpExtract pEndp
    endpDestroy pEndp

def registerUpdate (a : Allocs) (sip : Sip) (contact : SipContact) (pEndp : Option EndpPtr) :
    Proc Handled := do
  if sip.exptime > 0 then
    registerAttach a pEndp contact.mUrl.urlHost contact.mUrl.urlUser
  else
    registerDetach pEndp
  return ⟨.success, [.trying, .ok (some contact) (formatLd sip.exptime)], some (← endpDumpList)⟩

def registerContact (a : Allocs) (sip : Sip) (contact : SipContact) : Proc Handled := do
  let (found, pEndp) ← endpFindByIpv4 contact.mUrl.urlHost
  if found ≠ .success ∧ sip.exptime > 0 then
    let (ret, pEndp) ← endpCreate a.homeClone
    if ret ≠ .success then
      return ⟨ret, [.trying, .internalServerError], none⟩
    registerUpdate a sip contact pEndp
  else
    registerUpdate a sip contact pEndp

def registerHandler (a : Allocs) (sip : Option Sip) : Proc Handled :=
  match sip with
  | none => return ⟨.success, [.internalServerError], none⟩
  | some sip => do
    if (sip.sipRequest.bind (·.rqMethodName)).isNone then
      return ⟨.success, [.internalServerError], none⟩
    let sipTo ← Proc.deref .nullPointer sip.sipTo
    if sipTo.aUrl.urlUser.isNone ∨ sipTo.aUrl.urlHost.isNone then
      return ⟨.success, [.unauthorized], none⟩
    -- decides nothing: the challenge for a request without credentials is compiled out
    let _authorization := sip.sipAuthorization <|> sip.sipProxyAuthorization
    -- the arguments of the log line follow the contact header without a check
    let contact ← Proc.deref .nullPointer sip.sipContact
    registerContact a sip contact

structure Sip.Accepted (sip : Sip) : Prop where
  method : (sip.sipRequest.bind (·.rqMethodName)).isSome
  target : ∃ sipTo, sip.sipTo = some sipTo ∧ sipTo.aUrl.urlUser.isSome ∧ sipTo.aUrl.urlHost.isSome

def contactA : SipContact := ⟨⟨some (.ofBytes [97]), some (.ofBytes [49])⟩, none⟩
def contactB : SipContact := ⟨⟨some (.ofBytes [98]), some (.ofBytes [50])⟩, none⟩

def Sip.request (contact : SipContact) (exDelta : UInt64) : Sip where
  sipRequest := some ⟨some (.ofBytes [82, 69, 71, 73, 83, 84, 69, 82])⟩
  sipTo := some ⟨contactA.mUrl⟩
  sipContact := some contact
  sipAuthorization := none
  sipProxyAuthorization := none
  sipExpires := some ⟨exDelta⟩

theorem Sip.request_accepted (c : SipContact) (e : UInt64) : (Sip.request c e).Accepted :=
  ⟨rfl, _, rfl, rfl, rfl⟩

end Evsip.Register
