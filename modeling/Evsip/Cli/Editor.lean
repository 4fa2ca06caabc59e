import Evsip.Cmdlst.Registry
import Evsip.Lib.Padded

/-! The command line: one byte a call, a fixed line buffer and a separate length. Writes
into the buffer and to the terminal are recorded with the index and the length they use. -/

namespace Evsip.Cli
open CLib Cmdlst

inductive Event
  | store (i : UInt64)
  | newline
  | prompt (text : List UInt8)
  | echo (len : UInt64)
  | completion (name : Option CString)
  | lookup (text : CString)
  | execute (p : Option CmdPtr)
  | notFound (text : CString)
  deriving DecidableEq

/-- `struct evsip_cli_ctx_str`, with the command list it looks commands up in. -/
structure Ctx where
  hostname : List UInt8
  promptCh : List UInt8
  curCmd : Vector UInt8 256
  curCmdLen : UInt64
  reg : Registry
  trace : List Event

abbrev Proc := StateM Ctx

inductive ReadResult
  | byte (c : UInt8)
  | eof
  | error
  deriving DecidableEq

def ReadResult.size : ReadResult → UInt64
  | byte _ => 1
  | eof => 0
  | error => -1

/-- `c` is cleared before each read. -/
def ReadResult.char : ReadResult → UInt8
  | byte c => c
  | eof | error => 0

/-- One call: the outcome of `read`, and of the `write` of a line feed. -/
structure Input where
  read : ReadResult
  writeOk : Bool
  deriving DecidableEq

def Ctx.init (reg : Registry) : Ctx where
  hostname := [69, 118, 83, 105, 112]
  promptCh := [62]
  curCmd := .replicate 256 0
  curCmdLen := 0
  reg := reg
  trace := []

def record (e : Event) : Proc Unit := modify fun s => { s with trace := e :: s.trace }

/-- `cur_cmd[i] = c`. A store past the end is recorded, but not made. -/
def storeCurCmd (i : UInt64) (c : UInt8) : Proc Unit := do
  record (.store i)
  modify fun s => { s with curCmd := s.curCmd.setIfInBounds i.toNat c }

def onReg {α : Type} (x : Cmdlst.Proc α) : Proc α := do
  let s ← get
  let (a, reg) := x.run s.reg
  set { s with reg := reg }
  return a

def Ctx.text (s : Ctx) : CString := .ofBytes s.curCmd.toList

def cliPrompt (clean : Bool) : Proc Unit := do
  let s ← get
  -- `snprintf` leaves room for the terminator
  record (.prompt ((s.hostname ++ s.promptCh ++ [32]).take 255))
  if clean then
    modify fun s => { s with curCmd := .replicate 256 0, curCmdLen := 0 }
  else
    record (.echo s.curCmdLen)

def printName : Code × Option CmdPtr → Proc Unit
  | (.success, p) => do record (.completion (← onReg (cliCmdStr p)))
  | _ => return ()

def complete : Proc Unit := do
  record .newline
  printName (← onReg (cliCmdFind (some (← get).text) true))
  cliPrompt false

/-- Runs a command found at the end of a line. Commands leave the editor alone. -/
def execute (text : CString) : Code × Option CmdPtr → Proc Unit
  | (.success, p) => do
    record (.execute p)
    let _ ← onReg (cliCmdExecute p)
  | _ => record (.notFound text)

def submit (text : CString) : Proc Unit := do
  record (.lookup text)
  execute text (← onReg (cliCmdFind (some text) true))

def cliInputHandler (i : Input) : Proc Code := do
  if i.read.size > 0 then
    match i.read.char with
    | 63 =>
      if i.writeOk then
        record .newline
        cliPrompt false
    | 9 => complete
    | 8 =>
      -- wraps around on an empty line
      modify fun s => { s with curCmdLen := s.curCmdLen - 1 }
      storeCurCmd (← get).curCmdLen 0
      cliPrompt false
    | 10 =>
      if (← get).curCmdLen > 0 then
        submit (← get).text
      cliPrompt true
    | c =>
      if (← get).curCmdLen < 255 then
        let len := (← get).curCmdLen
        modify fun s => { s with curCmdLen := len + 1 }
        storeCurCmd len c
  return .success

end Evsip.Cli
