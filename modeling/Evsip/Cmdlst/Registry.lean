import Evsip.Lib.CString
import Evsip.Types
import Mathlib.Logic.Function.Basic

/-! The command registry. A command caches its position in the list; released commands and
a released list keep their contents here, and every use of them is recorded. -/

namespace Evsip.Cmdlst
open CLib

abbrev CmdPtr := Nat

/-- `struct evsip_cli_cmd_str`, and whether its home still holds it. -/
structure Cmd where
  magic : UInt32
  live : Bool
  cmd : CString
  helpMsg : CString
  privilege : UInt32
  mode : UInt32
  execF : Option Nat
  execArg : Nat
  index : UInt32
  deriving DecidableEq

/-- `su_vector_t`, and whether it has not been destroyed. -/
structure SuVector where
  live : Bool
  items : List CmdPtr
  deriving DecidableEq

inductive Event
  | lateCmd (p : CmdPtr)
  | lateList
  | exec (p : CmdPtr) (f arg : Nat)
  | notImplemented (cmd helpMsg : CString)
  deriving DecidableEq

structure Registry where
  cmds : CmdPtr → Cmd
  next : CmdPtr
  evsipCmdl : Option SuVector
  trace : List Event

abbrev Proc := StateM Registry

def cmdMagic : UInt32 := 0x20150324

/-- The cell `memset` leaves; a NULL string of such a cell is never read, and is empty here. -/
def Cmd.zero (live : Bool) : Cmd := ⟨0, live, .ofBytes [], .ofBytes [], 0, 0, none, 0, 0⟩

def Cmd.callback (execF : Option Nat) (arg : Nat) (c : Cmd) : Cmd :=
  { c with execF := execF, execArg := arg }

/-- The position goes into an `unsigned int`. -/
def Cmd.position (i : Nat) (c : Cmd) : Cmd := { c with index := .ofNat i }

def Cmd.release (c : Cmd) : Cmd := { c with live := false }

def Registry.init : Registry := ⟨fun _ => .zero false, 0, none, []⟩

namespace Registry

def items (r : Registry) : List CmdPtr :=
  match r.evsipCmdl with
  | none => []
  | some v => v.items

def Dangling (r : Registry) : Prop := ∃ v, r.evsipCmdl = some v ∧ v.live = false

instance (r : Registry) : Decidable r.Dangling :=
  match h : r.evsipCmdl with
  | none => .isFalse fun ⟨_, hv, _⟩ => by simp [h] at hv
  | some v => decidable_of_iff (v.live = false)
      ⟨fun hl => ⟨v, h, hl⟩, fun ⟨_, hw, hl⟩ => by cases h.symm.trans hw; exact hl⟩

def setCmd (r : Registry) (p : CmdPtr) (f : Cmd → Cmd) : Registry :=
  { r with cmds := Function.update r.cmds p (f (r.cmds p)) }

def setItems (r : Registry) (items : List CmdPtr) : Registry :=
  { r with evsipCmdl := r.evsipCmdl.map fun v => { v with items := items } }

def record (r : Registry) (e : Event) : Registry := { r with trace := e :: r.trace }

end Registry

def touch (p : CmdPtr) : Proc Unit :=
  modify fun r => if (r.cmds p).live then r else r.record (.lateCmd p)

def readCmd {α : Type} (p : CmdPtr) (f : Cmd → α) : Proc α := do
  touch p
  return f ((← get).cmds p)

def writeCmd (p : CmdPtr) (f : Cmd → Cmd) : Proc Unit := do
  touch p
  modify fun r => r.setCmd p f

/-! Of sofia-sip, with the flag saying whether an allocation succeeds. The functions on
`evsip_cmdl` do nothing to a NULL list. -/

def touchList : Proc Unit := modify fun r => if r.Dangling then r.record .lateList else r

def suVectorArray : Proc (List CmdPtr) := do
  touchList
  return (← get).items

def suVectorAppend (ok : Bool) (p : CmdPtr) : Proc Bool := do
  touchList
  if ok then
    modify fun r => r.setItems (r.items ++ [p])
  return ok

def suVectorRemove (index : UInt32) : Proc Unit := do
  touchList
  modify fun r => r.setItems (r.items.eraseIdx index.toNat)

def suVectorEmpty : Proc Unit := do
  touchList
  modify fun r => r.setItems []

def suVectorDestroy : Proc Unit := do
  touchList
  modify fun r => { r with evsipCmdl := r.evsipCmdl.map fun v => { v with live := false } }

def suHomeClone (ok : Bool) : Proc (Option CmdPtr) := do
  let r ← get
  if !ok then
    return none
  set { r.setCmd r.next (fun _ => .zero true) with next := r.next + 1 }
  return some r.next

def suHomeUnref (p : CmdPtr) : Proc Unit := writeCmd p .release

/-! The functions of the command list. -/

structure Allocs where
  vectorCreate : Bool
  homeClone : Bool
  strdupCmd : Bool
  strdupHelp : Bool

def Allocs.all : Allocs := ⟨true, true, true, true⟩

/-- `evsip_cli_cmd_init` once there is a list. -/
def cliCmdClone (a : Allocs) (cmd help : CString) (privilege mode : UInt32) :
    Proc (Code × Option CmdPtr) := do
  match ← suHomeClone a.homeClone with
  | none => return (.errorOutOfResources, none)
  | some p =>
    writeCmd p fun c => { c with magic := cmdMagic }
    if !a.strdupCmd then
      suHomeUnref p
      return (.errorOutOfResources, none)
    writeCmd p fun c => { c with cmd := cmd }
    if !a.strdupHelp then
      suHomeUnref p
      return (.errorOutOfResources, none)
    writeCmd p fun c => { c with helpMsg := help }
    writeCmd p fun c => { c with mode := mode, privilege := privilege }
    return (.success, some p)

def cliCmdInit (a : Allocs) (cmd help : CString) (privilege mode : UInt32) :
    Proc (Code × Option CmdPtr) := do
  if (← get).evsipCmdl.isNone then
    modify fun r => { r with evsipCmdl := if a.vectorCreate then some ⟨true, []⟩ else none }
    if !a.vectorCreate then
      return (.errorOutOfResources, none)
  cliCmdClone a cmd help privilege mode

def cliCmdRegister (okAppend : Bool) (pCmdCtx : Option CmdPtr) (execF : Option Nat) (arg : Nat) :
    Proc Code := do
  match pCmdCtx with
  | none => return .errorBadParam
  | some p =>
    if (← readCmd p (·.magic)) ≠ cmdMagic then
      return .errorInvalidHandle
    if execF.isNone then
      return .errorInvalidHandle
    writeCmd p (.callback execF arg)
    if (← get).evsipCmdl.isNone then
      return .errorOutOfResources
    let array ← suVectorArray
    writeCmd p (.position array.length)
    if !(← suVectorAppend okAppend p) then
      return .errorOutOfResources
    return .success

def findLoop (pCmd : CString) : Nat → List CmdPtr → Proc (Option CmdPtr)
  | _, [] => return none
  | i, p :: rest => do
    if (← readCmd p (·.magic)) ≠ cmdMagic then
      return ← findLoop pCmd (i + 1) rest
    let cmd ← readCmd p (·.cmd.bytes)
    if strncmp cmd pCmd.bytes cmd.length = 0 then
      -- a lookup sets right the position of the command it finds
      writeCmd p (.position i)
      return some p
    findLoop pCmd (i + 1) rest

/-- The value of a `size_t` read as an `int`. -/
def toInt (n : Nat) : Int := (UInt32.ofNat n).toInt32.toInt

/-- `outPtr` says whether `pCmdCtx` points to where the command goes. -/
def cliCmdFind (pCmd : Option CString) (outPtr : Bool) : Proc (Code × Option CmdPtr) := do
  if !outPtr then
    return (.errorBadParam, none)
  match pCmd with
  | none => return (.errorBadParam, none)
  | some pCmd =>
    let array ← suVectorArray
    match ← findLoop pCmd 0 (array.take (toInt array.length).toNat) with
    | some p => return (.success, some p)
    | none => return (.errorNotFound, none)

def cliCmdStr (pCmdCtx : Option CmdPtr) : Proc (Option CString) := do
  match pCmdCtx with
  | none => return none
  | some p =>
    if (← readCmd p (·.magic)) ≠ cmdMagic then
      return none
    return some (← readCmd p (·.cmd))

def cliCmdExecute (pCmdCtx : Option CmdPtr) : Proc Code := do
  match pCmdCtx with
  | none => return .errorBadParam
  | some p =>
    if (← readCmd p (·.magic)) ≠ cmdMagic then
      return .errorInvalidHandle
    let c ← readCmd p id
    match c.execF with
    | some f => modify (·.record (.exec p f c.execArg))
    | none => modify (·.record (.notImplemented c.cmd c.helpMsg))
    return .success

def cliCmdDestroy (pCmdCtx : Option CmdPtr) : Proc Unit := do
  match pCmdCtx with
  | none => return ()
  | some p =>
    if (← readCmd p (·.magic)) ≠ cmdMagic then
      return ()
    -- wherever the command is now, the position it cached is removed
    suVectorRemove (← readCmd p (·.index))
    suHomeUnref p

def cliCmdDestroyAll : Proc Unit := do
  suVectorEmpty
  suVectorDestroy

end Evsip.Cmdlst
