import Evsip.Cli.ListEditor
import Evsip.Lib.Silent

/-! Whether the command line notices a `read` that gave no byte. The end of the input is
ignored; an error is a size that is not zero, and then `c` is taken as if it had been read. -/

namespace Evsip.Cli
open CLib Cmdlst Transition

def ReadResult.isByte : ReadResult → Bool
  | byte _ => true
  | eof | error => false

/-- What is on the line, and what was looked up and run. -/
def Ctx.seen (s : Ctx) : Vector UInt8 256 × UInt64 × List Event :=
  (s.curCmd, s.curCmdLen, s.commands)

/-- No error is read while the line has room. -/
def Unharmed (s : Ctx) (i : Input) : Prop := i.read = .error → ¬ s.curCmdLen < 255

variable {s : Ctx} {i : Input}

theorem handle_error (hr : i.read = .error) : handle i s =
    if s.curCmdLen < 255 then s.stored s.curCmdLen 0 (s.curCmdLen + 1) else s := by
  have hchar : i.read.char = 0 := by rw [hr, ReadResult.char]
  have hord : Ordinary i.read.char := by
    rw [hchar]
    exact ⟨by decide, by decide, by decide, by decide⟩
  rw [handle_ordinary (by simp [hr]) hord, hchar]

theorem handle_failed (hi : i.read.isByte = false) (hok : Unharmed s i) : handle i s = s := by
  rcases hr : i.read with c | _ | _
  · simp [hr, ReadResult.isByte] at hi
  · exact handle_eof hr
  · rw [handle_error hr, if_neg (hok hr)]

theorem seen_error_ne (hr : i.read = .error) (hl : s.curCmdLen < 255) :
    (handle i s).seen ≠ s.seen := by
  rw [handle_error hr, if_pos hl]
  intro h
  have hlen : s.curCmdLen + 1 = s.curCmdLen := congrArg (fun x => x.2.1) h
  simp at hlen

/-- The failed reads leave no mark on a run, up to any point, exactly when the errors among
them come when the line is full. -/
theorem failed_reads_silent_iff (reg : Registry) (is : List Input) :
    Silent (fun s i => handle i s) (fun i => i.read.isByte) Ctx.seen (.init reg) is ↔
      Run (guarded handlerStep Unharmed) (.init reg) is
        (is.foldl (fun s i => handle i s) (.init reg)) := by
  refine silent_iff (fun s i hi hr => ?_) (fun s i => handle_failed) fun s i _ hbad => ?_
  · simp [hr, ReadResult.isByte] at hi
  · obtain ⟨hr, hl⟩ := Classical.not_imp.1 hbad
    exact seen_error_ne hr (not_not.1 hl)

def interrupted : List Input :=
  [⟨.byte 97, true⟩, ⟨.error, true⟩, ⟨.byte 98, true⟩, ⟨.byte 10, true⟩]

theorem not_failed_reads_silent_error :
    (interrupted.foldl (fun s i => handle i s) (.init .init)).commands =
      [.notFound (.ofBytes [97]), .lookup (.ofBytes [97])] ∧
    ((interrupted.filter fun i => i.read.isByte).foldl (fun s i => handle i s)
      (.init .init)).commands =
      [.notFound (.ofBytes [97, 98]), .lookup (.ofBytes [97, 98])] ∧
    ¬ Silent (fun s i => handle i s) (fun i => i.read.isByte) Ctx.seen (.init .init)
      interrupted := by
  have hall : (interrupted.foldl (fun s i => handle i s) (.init .init)).commands =
      [.notFound (.ofBytes [97]), .lookup (.ofBytes [97])] := by decide +kernel
  have hbytes : ((interrupted.filter fun i => i.read.isByte).foldl (fun s i => handle i s)
      (.init .init)).commands =
      [.notFound (.ofBytes [97, 98]), .lookup (.ofBytes [97, 98])] := by decide +kernel
  refine ⟨hall, hbytes, fun h => ?_⟩
  have hcommands := congrArg (fun x => x.2.2) (h interrupted (List.prefix_refl _))
  exact absurd (hall.symm.trans (hcommands.trans hbytes)) (by decide)

end Evsip.Cli
