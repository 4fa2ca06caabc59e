import Evsip.Cli.Editor

/-! What one call of the input handler does, by the byte it read. -/

namespace Evsip.Cli
open CLib Cmdlst

namespace Ctx

def events (s : Ctx) (es : List Event) : Ctx := { s with trace := es ++ s.trace }

def promptText (s : Ctx) : List UInt8 := (s.hostname ++ s.promptCh ++ [32]).take 255

def redrawn (s : Ctx) : Ctx := s.events [.echo s.curCmdLen, .prompt s.promptText]

def cleaned (s : Ctx) : Ctx :=
  { s.events [.prompt s.promptText] with curCmd := .replicate 256 0, curCmdLen := 0 }

def stored (s : Ctx) (i : UInt64) (c : UInt8) (len : UInt64) : Ctx :=
  { s.events [.store i] with curCmd := s.curCmd.setIfInBounds i.toNat c, curCmdLen := len }

def calls (s : Ctx) (r : List Event × Registry) : Ctx := { s.events r.1 with reg := r.2 }

end Ctx

def completion (reg : Registry) : Code × Option CmdPtr → List Event × Registry
  | (.success, p) => ([.completion ((cliCmdStr p).run reg).1], ((cliCmdStr p).run reg).2)
  | _ => ([], reg)

def execution (text : CString) (reg : Registry) : Code × Option CmdPtr → List Event × Registry
  | (.success, p) => ([.execute p, .lookup text], ((cliCmdExecute p).run reg).2)
  | _ => ([.notFound text, .lookup text], reg)

def found (text : CString) (reg : Registry) : (Code × Option CmdPtr) × Registry :=
  (cliCmdFind (some text) true).run reg

def tabCall (text : CString) (reg : Registry) : List Event × Registry :=
  completion (found text reg).2 (found text reg).1

def lineCall (text : CString) (reg : Registry) : List Event × Registry :=
  execution text (found text reg).2 (found text reg).1

def Ordinary (c : UInt8) : Prop := c ≠ 63 ∧ c ≠ 9 ∧ c ≠ 8 ∧ c ≠ 10

/-- From `s`, the call with the outcome `i` leads to a context. -/
inductive Stroke (s : Ctx) (i : Input) : Ctx → Prop
  | eof : i.read = .eof → Stroke s i s
  | unwritten : i.read = .byte 63 → i.writeOk = false → Stroke s i s
  | redraw : i.read = .byte 63 → i.writeOk = true → Stroke s i (s.events [.newline]).redrawn
  | tab : i.read = .byte 9 →
      Stroke s i ((s.events [.newline]).calls (tabCall s.text s.reg)).redrawn
  | backspace : i.read = .byte 8 →
      Stroke s i (s.stored (s.curCmdLen - 1) 0 (s.curCmdLen - 1)).redrawn
  | blank : i.read = .byte 10 → s.curCmdLen = 0 → Stroke s i s.cleaned
  | line : i.read = .byte 10 → s.curCmdLen ≠ 0 →
      Stroke s i (s.calls (lineCall s.text s.reg)).cleaned
  | char : i.read ≠ .eof → Ordinary i.read.char → s.curCmdLen < 255 →
      Stroke s i (s.stored s.curCmdLen i.read.char (s.curCmdLen + 1))
  | full : i.read ≠ .eof → Ordinary i.read.char → ¬ s.curCmdLen < 255 → Stroke s i s

def handle (i : Input) (s : Ctx) : Ctx := ((cliInputHandler i).run s).2

def handlerStep (s : Ctx) (i : Input) (t : Ctx) : Prop := t = handle i s

variable {s : Ctx} {i : Input} {text : CString}

theorem tabCall_events {reg : Registry} {e : Event} (he : e ∈ (tabCall text reg).1) :
    ∃ name, e = .completion name := by
  unfold tabCall at he
  rcases h : (found text reg).1 with ⟨code, p⟩
  rw [h] at he
  cases code <;> simp [completion] at he
  exact ⟨_, he⟩

theorem lineCall_events {reg : Registry} {e : Event} (he : e ∈ (lineCall text reg).1) :
    e = .lookup text ∨ (∃ p, e = .execute p) ∨ e = .notFound text := by
  unfold lineCall at he
  rcases h : (found text reg).1 with ⟨code, p⟩
  rw [h] at he
  cases code with
  | success =>
    have he : e = .execute p ∨ e = .lookup text := by simpa [execution] using he
    rcases he with rfl | rfl
    · exact .inr (.inl ⟨p, rfl⟩)
    · exact .inl rfl
  | _ =>
    have he : e = .notFound text ∨ e = .lookup text := by simpa [execution] using he
    rcases he with rfl | rfl
    · exact .inr (.inr rfl)
    · exact .inl rfl

/-! The length goes up by one where it has room, and down by one where it is not zero. -/

theorem toNat_add_one {n : UInt64} (h : n.toNat < 255) : (n + 1).toNat = n.toNat + 1 := by
  have hlt : n.toNat + 1 < UInt64.size := (Nat.succ_lt_succ h).trans (by decide)
  rw [UInt64.toNat_add]
  exact Nat.mod_eq_of_lt hlt

theorem toNat_sub_one {n : UInt64} (h : n.toNat ≠ 0) : (n - 1).toNat = n.toNat - 1 :=
  UInt64.toNat_sub_of_le _ _ (UInt64.le_iff_toNat_le.2 (Nat.pos_of_ne_zero h))

theorem record_run (e : Event) : (record e).run s = pure ((), s.events [e]) := rfl

theorem cliPrompt_run_true : (cliPrompt true).run s = pure ((), s.cleaned) := rfl

theorem cliPrompt_run_false : (cliPrompt false).run s = pure ((), s.redrawn) := rfl

theorem storeCurCmd_run (i : UInt64) (c : UInt8) :
    (storeCurCmd i c).run s = pure ((), s.stored i c s.curCmdLen) := rfl

theorem onReg_run {α : Type} (x : Cmdlst.Proc α) :
    (onReg x).run s = pure ((x.run s.reg).1, { s with reg := (x.run s.reg).2 }) := rfl

theorem printName_run (r : Code × Option CmdPtr) :
    (printName r).run s = pure ((), s.calls (completion s.reg r)) := by
  rcases r with ⟨code, p⟩
  cases code <;> rfl

theorem execute_run (r : Code × Option CmdPtr) : (execute text r).run (s.events [.lookup text]) =
    pure ((), s.calls (execution text s.reg r)) := by
  rcases r with ⟨code, p⟩
  cases code <;> rfl

variable (s text) in
theorem find_run : (onReg (cliCmdFind (some text) true)).run s =
    pure ((found text s.reg).1, { s with reg := (found text s.reg).2 }) := onReg_run _

theorem complete_run : complete.run s =
    pure ((), ((s.events [.newline]).calls (tabCall s.text s.reg)).redrawn) := by
  have hrun := find_run (s.events [.newline]) s.text
  have hreg : (s.events [.newline]).reg = s.reg := rfl
  have htext : (s.events [.newline]).text = s.text := rfl
  rw [hreg] at hrun
  rw [complete, StateT.run_bind, record_run, pure_bind, StateT.run_bind, StateT.run_get, pure_bind]
  dsimp only
  rw [htext, StateT.run_bind, hrun, pure_bind, StateT.run_bind, printName_run, pure_bind,
    cliPrompt_run_false, tabCall]
  generalize found s.text s.reg = r
  rfl

theorem submit_run : (submit text).run s = pure ((), s.calls (lineCall text s.reg)) := by
  have hrun := find_run (s.events [.lookup text]) text
  have hreg : (s.events [.lookup text]).reg = s.reg := rfl
  rw [hreg] at hrun
  rw [submit, StateT.run_bind, record_run, pure_bind, StateT.run_bind, hrun, pure_bind, lineCall]
  generalize found text s.reg = r
  exact execute_run (s := { s with reg := r.2 }) _

theorem size_pos {r : ReadResult} (h : r ≠ .eof) : r.size > 0 := by
  cases r with
  | byte c => exact (by decide : (1 : UInt64) > 0)
  | eof => exact absurd rfl h
  | error => exact (by decide : (-1 : UInt64) > 0)

theorem eq_byte {r : ReadResult} {c : UInt8} (h : r.char = c) (hc : c ≠ 0) : r = .byte c := by
  cases r with
  | byte _ => rw [← h, ReadResult.char]
  | eof | error => exact absurd h.symm hc

theorem handle_ordinary (hr : i.read ≠ .eof) (hc : Ordinary i.read.char) :
    handle i s = if s.curCmdLen < 255 then s.stored s.curCmdLen i.read.char (s.curCmdLen + 1)
      else s := by
  obtain ⟨h63, h9, h8, h10⟩ := hc
  rw [handle, cliInputHandler, if_pos (size_pos hr)]
  split
  · exact absurd ‹_› h63
  · exact absurd ‹_› h9
  · exact absurd ‹_› h8
  · exact absurd ‹_› h10
  · by_cases hl : s.curCmdLen < 255 <;> simp [hl, storeCurCmd_run] <;> rfl

theorem handle_eof (hr : i.read = .eof) : handle i s = s := by
  rcases i with ⟨r, ok⟩
  cases hr
  rfl

theorem handle_question (hr : i.read = .byte 63) :
    handle i s = if i.writeOk then (s.events [.newline]).redrawn else s := by
  rcases i with ⟨r, ok⟩
  cases hr
  cases ok <;> rfl

theorem handle_tab (hr : i.read = .byte 9) :
    handle i s = ((s.events [.newline]).calls (tabCall s.text s.reg)).redrawn := by
  rcases i with ⟨r, ok⟩
  cases hr
  have hrun : (cliInputHandler ⟨.byte 9, ok⟩).run s = (complete.run s >>= fun p =>
    pure (.success, p.2) : Id _) := rfl
  rw [handle, hrun, complete_run]
  rfl

theorem handle_backspace (hr : i.read = .byte 8) :
    handle i s = (s.stored (s.curCmdLen - 1) 0 (s.curCmdLen - 1)).redrawn := by
  rcases i with ⟨r, ok⟩
  cases hr
  rfl

theorem handle_newline (hr : i.read = .byte 10) : handle i s =
    if s.curCmdLen = 0 then s.cleaned else (s.calls (lineCall s.text s.reg)).cleaned := by
  rcases i with ⟨r, ok⟩
  cases hr
  by_cases hl : s.curCmdLen = 0
  · simp [handle, cliInputHandler, ReadResult.size, ReadResult.char, hl, cliPrompt_run_true]
    rfl
  · have hpos : s.curCmdLen > 0 := UInt64.pos_iff_ne_zero.2 hl
    simp [handle, cliInputHandler, ReadResult.size, ReadResult.char, hl, hpos, submit_run,
      cliPrompt_run_true]
    rfl

theorem handle_stroke : Stroke s i (handle i s) := by
  by_cases hr : i.read = .eof
  · rw [handle_eof hr]
    exact .eof hr
  by_cases h63 : i.read.char = 63
  · have hb := eq_byte h63 (by decide)
    rw [handle_question hb]
    split
    · exact .redraw hb ‹_›
    · next hw => exact .unwritten hb (by simpa using hw)
  by_cases h9 : i.read.char = 9
  · have hb := eq_byte h9 (by decide)
    rw [handle_tab hb]
    exact .tab hb
  by_cases h8 : i.read.char = 8
  · have hb := eq_byte h8 (by decide)
    rw [handle_backspace hb]
    exact .backspace hb
  by_cases h10 : i.read.char = 10
  · have hb := eq_byte h10 (by decide)
    rw [handle_newline hb]
    split
    · exact .blank hb ‹_›
    · exact .line hb ‹_›
  · have hc : Ordinary i.read.char := ⟨h63, h9, h8, h10⟩
    rw [handle_ordinary hr hc]
    split
    · exact .char hr hc ‹_›
    · exact .full hr hc ‹_›

end Evsip.Cli
