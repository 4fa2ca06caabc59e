import Evsip.Config.Options
import Evsip.Lib.CMem

/-! The line buffer of the parser, worked on in place through indices. Every stretch of it
that is read or written is recorded. -/

namespace Evsip.Config
open CLib

/-- The line buffer, the configuration, and the first and last index of each access. -/
structure Parser where
  line : List UInt8
  config : ConfigCtx
  trace : List (Nat × Nat)

abbrev Proc := StateM Parser

def maxLine : Nat := 128

def touch (lo hi : Nat) : Proc Unit := modify fun s => { s with trace := (lo, hi) :: s.trace }

def load (i : Nat) : Proc UInt8 := do
  touch i i
  return (← get).line.getD i 0

def store (i : Nat) (c : UInt8) : Proc Unit := do
  touch i i
  modify fun s => { s with line := s.line.set i c }

def strlen (bs : List UInt8) : Nat := (bs.takeWhile (· ≠ 0)).length

/-- The loop of `evsip_config_rstrip` with `p` at `s + k`. -/
def rstripLoop (s : Nat) : Nat → List UInt8 → List UInt8
  | 0, line => line
  | k + 1, line =>
    if isspace (line.getD (s + k) 0) then rstripLoop s k (line.set (s + k) 0) else line

def configRstrip (s : Nat) : Proc Unit := do
  let n := strlen ((← get).line.drop s)
  touch s (s + n)
  modify fun st => { st with line := rstripLoop s n st.line }

def lstripLoop : List UInt8 → Nat
  | [] => 0
  | c :: cs => if c ≠ 0 ∧ isspace c then lstripLoop cs + 1 else 0

def configLstrip (s : Nat) : Proc Nat := do
  let n := lstripLoop ((← get).line.drop s)
  touch s (s + n)
  return s + n

/-- How far the loop of `evsip_config_find_char` goes, from `was_whitespace` on. -/
def findCharLoop (c : UInt8) : Bool → List UInt8 → Nat
  | _, [] => 0
  | was, b :: bs =>
    if b ≠ 0 ∧ b ≠ c ∧ ¬ (was ∧ b = 59) then findCharLoop c (isspace b) bs + 1 else 0

def configFindChar (s : Nat) (c : UInt8) : Proc Nat := do
  let n := findCharLoop c false ((← get).line.drop s)
  touch s (s + n)
  return s + n

/-- `memcpy` of 64 bytes of the line; `beyond` is what lies behind the buffer. -/
def memcpy64 (line : List UInt8) (beyond : Nat → UInt8) (p : Nat) : Str64 where
  bytes := (line.drop p ++ (List.range 64).map beyond).take 64
  length_eq := by simp

def cstr (p : Nat) : Proc (List UInt8) := do
  let s := ((← get).line.drop p).takeWhile (· ≠ 0)
  touch p (p + s.length)
  return s

def configKeyvalHandler (beyond : Nat → UInt8) (name value : Nat) : Proc Code := do
  let n ← cstr name
  match configMapping.find? fun m => strcmp n m.1 = 0 with
  | none => return .errorUnknown
  | some (_, .string64 o) =>
    -- as many bytes as the array has, however long the value is
    touch value (value + 63)
    modify fun s => { s with config := s.config.setString o (memcpy64 s.line beyond value) }
    return .success
  | some (_, .integer o) =>
    let v ← cstr value
    modify fun s => { s with config := s.config.setInteger o (atoi v) }
    return .success

def findSep (start : Nat) : Proc Nat := do
  let stop ← configFindChar start 61
  if (← load stop) ≠ 61 then
    configFindChar start 58
  else
    return stop

def cutComment (value : Nat) : Proc Unit := do
  let stop ← configFindChar value 0
  if (← load stop) = 59 then
    store stop 0

/-- The part of the loop of `evsip_config_start_parse` behind a separator at `sep`. -/
def parsePair (beyond : Nat → UInt8) (start sep : Nat) : Proc Unit := do
  store sep 0
  configRstrip start
  let value ← configLstrip (sep + 1)
  cutComment value
  configRstrip value
  let _ ← configKeyvalHandler beyond start value

def parseLine (beyond : Nat → UInt8) : Proc Unit := do
  configRstrip 0
  let start ← configLstrip 0
  let c ← load start
  if c ≠ 0 ∧ c ≠ 59 then
    let sep ← findSep start
    let c ← load sep
    if c = 61 ∨ c = 58 then
      parsePair beyond start sep

/-- What the calls `fgets(line, EVSIP_CONFIG_MAX_LINE, fd)` read one after the other; the first
argument is what the present call has read so far. -/
def fgetsChunks : List UInt8 → List UInt8 → List (List UInt8)
  | [], [] => []
  | chunk, [] => [chunk]
  | chunk, c :: cs =>
    let chunk := chunk ++ [c]
    -- a longer line goes on in the next call
    if c = 10 ∨ chunk.length = maxLine - 1 then chunk :: fgetsChunks [] cs
    else fgetsChunks chunk cs

def fill (chunk : List UInt8) : Proc Unit := do
  touch 0 chunk.length
  modify fun s => { s with line := chunk ++ 0 :: s.line.drop (chunk.length + 1) }

def parseLoop (beyond : Nat → Nat → UInt8) : Nat → List (List UInt8) → Proc Unit
  | _, [] => return ()
  | n, chunk :: chunks => do
    fill chunk
    parseLine (beyond n)
    parseLoop beyond (n + 1) chunks

/-- `fopen` gives the content of a file; `beyond` the bytes behind the buffer, line by line. -/
def configStartParse (fopen : CString → Option (List UInt8)) (beyond : Nat → Nat → UInt8)
    (c : ConfigCtx) : Code × Parser :=
  let s : Parser := ⟨.replicate maxLine 0, c, []⟩
  match c.filePath with
  | none => (.errorUnknown, s)
  | some path =>
    if path.bytes = [] then (.errorUnknown, s)
    else
      match fopen path with
      | none => (.errorInvalidHandle, s)
      | some content =>
        (.success, ((parseLoop beyond 1 (fgetsChunks [] content)).run s).2)

end Evsip.Config
