import Evsip.Cli.Stroke
import Evsip.Lib.Run

/-! The line editor as an editor of lists, and the byte handler as an implementation of it. -/

namespace Evsip.Cli
open CLib Cmdlst Transition

def editLine (line : List UInt8) (c : UInt8) : List UInt8 :=
  if c = 10 then []
  else if c = 8 then line.dropLast
  else if c = 63 ∨ c = 9 then line
  else if line.length < 255 then line ++ [c]
  else line

/-- A line, the command list, and what was looked up and run so far, the last first. -/
structure ListEditor where
  line : List UInt8
  reg : Registry
  commands : List Event

namespace ListEditor

def init (reg : Registry) : ListEditor := ⟨[], reg, []⟩

/-- A line is looked up when it is ended, unless it is empty; a tab looks it up for show. -/
def next (a : ListEditor) (c : UInt8) : ListEditor :=
  let text := CString.ofBytes a.line
  { line := editLine a.line c
    reg :=
      if c = 10 ∧ a.line ≠ [] then (lineCall text a.reg).2
      else if c = 9 then (tabCall text a.reg).2
      else a.reg
    commands :=
      if c = 10 ∧ a.line ≠ [] then (lineCall text a.reg).1 ++ a.commands else a.commands }

variable {a : ListEditor} {c : UInt8}

theorem next_newline (h : a.line ≠ []) : a.next 10 =
    ⟨[], (lineCall (.ofBytes a.line) a.reg).2, (lineCall (.ofBytes a.line) a.reg).1 ++ a.commands⟩ := by
  simp [next, h, editLine]

theorem next_blank (h : a.line = []) : a.next 10 = { a with line := [] } := by
  simp [next, h, editLine]

theorem next_tab : a.next 9 = { a with reg := (tabCall (.ofBytes a.line) a.reg).2 } := by
  simp [next, editLine]

theorem next_question : a.next 63 = a := by simp [next, editLine]

theorem next_backspace : a.next 8 = { a with line := a.line.dropLast } := by simp [next, editLine]

theorem next_ordinary (h : Ordinary c) :
    a.next c = { a with line := if a.line.length < 255 then a.line ++ [c] else a.line } := by
  obtain ⟨h63, h9, h8, h10⟩ := h
  simp [next, editLine, h63, h9, h8, h10]

end ListEditor

def editorStep (a : ListEditor) (i : Input) (b : ListEditor) : Prop :=
  ∃ c, i.read = .byte c ∧ (c = 8 → a.line ≠ []) ∧ b = a.next c

def Event.isCommand : Event → Bool
  | lookup _ | execute _ | notFound _ => true
  | _ => false

def Ctx.commands (s : Ctx) : List Event := s.trace.filter Event.isCommand

structure Edits (s : Ctx) (a : ListEditor) : Prop where
  holds : Holds s.curCmd 0 a.line
  len : s.curCmdLen.toNat = a.line.length
  room : a.line.length ≤ 255
  reg : s.reg = a.reg
  commands : s.commands = a.commands

variable {s t : Ctx} {a b : ListEditor} {i : Input} {c : UInt8} {reg : Registry} {es : List Event}

theorem events_commands (h : ∀ e ∈ es, e.isCommand = false) :
    (s.events es).commands = s.commands := by
  simpa [Ctx.commands, Ctx.events] using h

theorem tabCall_commands (text : CString) : ∀ e ∈ (tabCall text reg).1, e.isCommand = false := by
  intro e he
  obtain ⟨name, rfl⟩ := tabCall_events he
  rfl

theorem lineCall_commands (text : CString) :
    (lineCall text reg).1.filter Event.isCommand = (lineCall text reg).1 := by
  refine List.filter_eq_self.2 fun e he => ?_
  rcases lineCall_events he with rfl | ⟨p, rfl⟩ | rfl <;> rfl

theorem Edits.text (h : Edits s a) : s.text = .ofBytes a.line := by
  have hroom := h.room
  rw [Ctx.text, h.holds.toList_eq, show 256 - a.line.length = (255 - a.line.length) + 1 by omega,
    List.replicate_succ, CString.ofBytes_append_zero]

theorem Edits.events (h : Edits s a) (es : List Event) (hes : ∀ e ∈ es, e.isCommand = false) :
    Edits (s.events es) a :=
  ⟨h.holds, h.len, h.room, h.reg, (events_commands hes).trans h.commands⟩

theorem Edits.redrawn (h : Edits s a) : Edits s.redrawn a := h.events _ (by simp [Event.isCommand])

theorem Edits.cleaned (h : Edits s a) : Edits s.cleaned { a with line := [] } :=
  have he := h.events [.prompt s.promptText] (by simp [Event.isCommand])
  ⟨Holds.nil, rfl, by simp, he.reg, he.commands⟩

theorem Edits.calls (h : Edits s a) (r : List Event × Registry) : Edits (s.calls r)
    { a with reg := r.2, commands := r.1.filter Event.isCommand ++ a.commands } := by
  refine ⟨h.holds, h.len, h.room, rfl, ?_⟩
  rw [← h.commands]
  exact List.filter_append ..

theorem Edits.stored (h : Edits s a) {j len : UInt64} {x : UInt8} {line : List UInt8}
    (hholds : Holds (s.curCmd.setIfInBounds j.toNat x) 0 line) (hlen : len.toNat = line.length)
    (hroom : line.length ≤ 255) : Edits (s.stored j x len) { a with line := line } :=
  have he := h.events [.store j] (by simp [Event.isCommand])
  ⟨hholds, hlen, hroom, he.reg, he.commands⟩

theorem Edits.push (h : Edits s a) (hl : a.line.length < 255) (x : UInt8) :
    Edits (s.stored s.curCmdLen x (s.curCmdLen + 1)) { a with line := a.line ++ [x] } := by
  have hlen : (s.curCmdLen + 1).toNat = (a.line ++ [x]).length := by
    rw [toNat_add_one (h.len ▸ hl), h.len, List.length_append, List.length_singleton]
  refine h.stored ?_ hlen (by simpa using Nat.le_of_lt_succ (Nat.succ_lt_succ hl))
  rw [h.len]
  exact h.holds.push (hl.trans (by decide))

theorem Edits.pop (h : Edits s a) (hne : a.line ≠ []) :
    Edits (s.stored (s.curCmdLen - 1) 0 (s.curCmdLen - 1)) { a with line := a.line.dropLast } := by
  have hpos : 0 < a.line.length := List.length_pos_iff.2 hne
  have hlen : (s.curCmdLen - 1).toNat = a.line.length - 1 := by
    rw [toNat_sub_one (h.len ▸ hpos.ne'), h.len]
  have hroom := h.room
  refine h.stored ?_ (by rw [hlen, List.length_dropLast]) (by rw [List.length_dropLast]; omega)
  rw [hlen]
  exact h.holds.pop

theorem Edits.step (h : Edits s a) (hs : handlerStep s i t) (ha : editorStep a i b) : Edits t b := by
  obtain ⟨c, hc, hback, rfl⟩ := ha
  have hlen0 : s.curCmdLen = 0 ↔ a.line = [] := by
    rw [← UInt64.toNat_inj, h.len]
    simp
  have hlt : s.curCmdLen < 255 ↔ a.line.length < 255 := by
    rw [UInt64.lt_iff_toNat_lt, h.len]
    rfl
  have hbyte : ∀ {d}, i.read = .byte d → c = d := fun hr => by simpa [hc] using hr
  have hchar : i.read.char = c := by rw [hc, ReadResult.char]
  cases hs ▸ handle_stroke (s := s) (i := i) with
  | eof hr => simp [hc] at hr
  | unwritten hr _ =>
    rw [hbyte hr, a.next_question]
    exact h
  | redraw hr _ =>
    rw [hbyte hr, a.next_question]
    exact (h.events _ (by simp [Event.isCommand])).redrawn
  | tab hr =>
    rw [hbyte hr, a.next_tab, ← h.text, ← h.reg]
    have hcalls := (h.events [.newline] (by simp [Event.isCommand])).calls
      (tabCall s.text s.reg)
    rw [List.filter_eq_nil_iff.2 (by simpa using tabCall_commands s.text)] at hcalls
    exact hcalls.redrawn
  | backspace hr =>
    have h8 := hbyte hr
    rw [h8, a.next_backspace]
    exact (h.pop (hback h8)).redrawn
  | blank hr hl =>
    rw [hbyte hr, ListEditor.next_blank (hlen0.1 hl)]
    exact h.cleaned
  | line hr hl =>
    rw [hbyte hr, ListEditor.next_newline (mt hlen0.2 hl), ← h.text, ← h.reg]
    have hcalls := h.calls (lineCall s.text s.reg)
    rw [lineCall_commands] at hcalls
    exact hcalls.cleaned
  | char _ hord hl =>
    rw [hchar] at hord ⊢
    rw [ListEditor.next_ordinary hord, if_pos (hlt.1 hl)]
    exact h.push (hlt.1 hl) c
  | full _ hord hl =>
    rw [hchar] at hord
    rw [ListEditor.next_ordinary hord, if_neg (mt hlt.2 hl)]
    exact h

theorem Edits.init : Edits (.init reg) (.init reg) := ⟨Holds.nil, rfl, by simp [ListEditor.init], rfl, rfl⟩

/-- What the handler looks up and runs is what the list editor does, and a newline leaves the
editor as it began. -/
theorem editor_simulates {is : List Input} (hs : Run handlerStep (.init reg) is s)
    (ha : Run editorStep (.init reg) is a) : s.commands = a.commands ∧ s.reg = a.reg ∧
    (∀ w, is.getLast? = some ⟨.byte 10, w⟩ →
      s.curCmd = (Ctx.init reg).curCmd ∧ s.curCmdLen = (Ctx.init reg).curCmdLen) := by
  have hedits := hs.simulates ha (fun _ _ _ _ _ => Edits.step) Edits.init
  refine ⟨hedits.commands, hedits.reg, fun w hw => ?_⟩
  obtain ⟨is', rfl⟩ := List.getLast?_eq_some_iff.1 hw
  obtain ⟨s', _, hlast⟩ := run_append_iff.1 hs
  cases hlast with
  | cons hstep hnil =>
    cases hnil
    rw [hstep, handle_newline rfl]
    split <;> exact ⟨rfl, rfl⟩

theorem editor_simulates_one_line : ∃ s, Run handlerStep (.init .init)
    [⟨.byte 97, true⟩, ⟨.byte 98, true⟩, ⟨.byte 8, true⟩, ⟨.byte 10, true⟩] s ∧
    s.commands = [.notFound (.ofBytes [97]), .lookup (.ofBytes [97])] ∧
    s.curCmd = .replicate 256 0 ∧ s.curCmdLen = 0 := by
  have hs : Run handlerStep (.init .init)
      [⟨.byte 97, true⟩, ⟨.byte 98, true⟩, ⟨.byte 8, true⟩, ⟨.byte 10, true⟩] _ :=
    .cons rfl (.cons rfl (.cons rfl (.cons rfl (.nil _))))
  have ha : Run editorStep (.init .init)
      [⟨.byte 97, true⟩, ⟨.byte 98, true⟩, ⟨.byte 8, true⟩, ⟨.byte 10, true⟩] _ :=
    .cons ⟨97, rfl, by decide, rfl⟩ (.cons ⟨98, rfl, by decide, rfl⟩
      (.cons ⟨8, rfl, by decide, rfl⟩ (.cons ⟨10, rfl, by decide, rfl⟩ (.nil _))))
  obtain ⟨hcommands, -, hstate⟩ := editor_simulates hs ha
  exact ⟨_, hs, hcommands.trans (by decide), hstate true rfl⟩

end Evsip.Cli
