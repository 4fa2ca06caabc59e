import Evsip.Cli.Dispatch
import Evsip.Config.Dump
import Evsip.Core.Startup
import Evsip.Register.Outcome

/-! The program while its event loop runs: the events of the SIP stack, the bytes typed at the
terminal and the signals, and what each of them calls. -/

namespace Evsip.Core
open CLib Endp Cmdlst Registry

/-- `su_root_t`, and whether its loop was told to end. -/
structure SuRoot where
  broken : Bool
  deriving DecidableEq

/-- `nua_t`, and how often it was told to shut down. -/
structure Nua where
  shutdowns : Nat
  deriving DecidableEq

/-- What is sent to a SIP client, and of what is logged the dumps, the configuration, the help and
the line of `evsip_stop`. -/
inductive Output
  | response (r : Register.Response)
  | endpoints (es : List (Option CString × Option CString))
  | conf (lines : List (List UInt8))
  | help (lines : List (List UInt8))
  | stopping
  deriving DecidableEq

/-- The last first. -/
def handledOutput (r : Register.Handled) : List Output :=
  (r.shown.map .endpoints).toList ++ r.sent.reverse.map .response

/-- `evsip_glob_t`, with the end points and the command line. -/
structure Glob where
  rootEventLoop : Option SuRoot
  nua : Option Nua
  config : Config.ConfigCtx
  store : Store
  cli : Cli.Ctx
  out : List Output

abbrev Proc := StateT Glob (Except Fault)

def output (o : Output) : Proc Unit := modify fun s => { s with out := o :: s.out }

def onStore {α : Type} (x : Endp.Proc α) : Proc α := fun s =>
  (x.run s.store).map fun r => (r.1, { s with store := r.2 })

def onCli {α : Type} (x : Cli.Proc α) : Proc α := do
  let s ← get
  let r := x.run s.cli
  set { s with cli := r.2 }
  return r.1

def onReg {α : Type} (x : Cmdlst.Proc α) : Proc α := onCli (Cli.onReg x)

/-! Of sofia-sip. A loop told to end does so when it has handled what it was handling. -/

def suRootBreak : Proc Unit :=
  modify fun s => { s with rootEventLoop := s.rootEventLoop.map fun _ => ⟨true⟩ }

def nuaShutdown : Proc Unit :=
  modify fun s => { s with nua := s.nua.map fun n => ⟨n.shutdowns + 1⟩ }

/-- The members of `nua_event_t` that the event handler tells apart. -/
inductive NuaEvent
  | iRegister
  | iInvite
  | iUpdate
  | iAck
  | rBye
  | rCancel
  | iState
  | iError
  | rRespond
  | rShutdown
  | rSetParams
  | other
  deriving DecidableEq

/-! `evsip_core.c`, `evsip_invite.c`, `evsip_sig.c` and `evsip_evsofia.c` -/

def stop : Proc Code := do
  output .stopping
  if (← get).rootEventLoop.isNone then
    return .errorOutOfResources
  if (← get).nua.isSome then
    nuaShutdown
  return .success

def cliCmdClbk (index : Nat) : Proc Code := do
  match index with
  | 0 =>
    let _ ← stop
  | _ => pure ()
  return .success

def inviteHandler : Proc Code := do
  output (.endpoints (← onStore endpDumpList))
  return .success

def sigTaskClbk : Proc Unit := suRootBreak

def evsofiaMain (event : NuaEvent) (a : Register.Allocs) (sip : Option Register.Sip) : Proc Unit := do
  match event with
  | .iRegister =>
    let r ← onStore (Register.registerHandler a sip)
    modify fun s => { s with out := handledOutput r ++ s.out }
  | .iInvite =>
    let _ ← inviteHandler
  | .rShutdown => suRootBreak
  -- the others are only logged
  | _ => return ()

/-! The command line, with the callbacks called -/

def endpCmdDump : Proc Code := do
  output (.endpoints (← onStore endpDumpList))
  return .success

def configCmdDump : Proc Code := do
  let (ret, lines) := Config.configCmdDump (← get).config
  output (.conf lines)
  return ret

def cliCmdHelpClbk : Proc Code := do
  let (ret, lines) ← onReg Cmdlst.cliCmdHelpClbk
  output (.help lines)
  return ret

def Callback.call : Callback → Proc Code
  | .cliCmdHelpClbk => Core.cliCmdHelpClbk
  | .configCmdDump => Core.configCmdDump
  | .endpCmdDump => Core.endpCmdDump
  | .cliCmdClbk index => Core.cliCmdClbk index

/-- `exec_f(exec_arg)`; a pointer that is none of the program's is not followed. -/
def execF (f arg : Nat) : Proc Code :=
  match Callback.of f arg with
  | some c => c.call
  | none => throw .nullPointer

/-- The part of `evsip_cli_cmd_execute` behind the checks. -/
def runCmd (p : CmdPtr) (c : Cmd) : Proc Unit :=
  match c.execF with
  | some f => do
    onReg (modify (·.record (.exec p f c.execArg)))
    let _ ← execF f c.execArg
  | none => onReg (modify (·.record (.notImplemented c.cmd c.helpMsg)))

def cliCmdExecute (pCmdCtx : Option CmdPtr) : Proc Code := do
  match pCmdCtx with
  | none => return .errorBadParam
  | some p =>
    if (← onReg (readCmd p (·.magic))) ≠ cmdMagic then
      return .errorInvalidHandle
    runCmd p (← onReg (readCmd p id))
    return .success

def submit (text : CString) : Proc Unit := do
  onCli (Cli.record (.lookup text))
  match ← onReg (cliCmdFind (some text) true) with
  | (.success, p) =>
    onCli (Cli.record (.execute p))
    let _ ← cliCmdExecute p
  | _ => onCli (Cli.record (.notFound text))

/-- `evsip_cli_input_handler`. Only at the end of a line is a command called; the other bytes
stay with the editor. -/
def cliInputHandler (i : Cli.Input) : Proc Code := do
  if i.read = .byte 10 then
    if (← get).cli.curCmdLen > 0 then
      submit (← get).cli.text
    onCli (Cli.cliPrompt true)
    return .success
  else
    onCli (Cli.cliInputHandler i)

/-! The loop -/

inductive Event
  | nua (event : NuaEvent) (a : Register.Allocs) (sip : Option Register.Sip)
  | input (i : Cli.Input)
  | signal
  deriving DecidableEq

def handleEvent : Event → Proc Unit
  | .nua event a sip => evsofiaMain event a sip
  | .input i => do
    let _ ← cliInputHandler i
  | .signal => sigTaskClbk

def serverStep (s : Glob) (e : Event) (t : Glob) : Prop := (handleEvent e).run s = .ok ((), t)

def Event.request : Event → Option (Register.Allocs × Option Register.Sip)
  | .nua .iRegister a sip => some (a, sip)
  | _ => none

def Event.typed : Event → Option Cli.Input
  | .input i => some i
  | _ => none

end Evsip.Core
