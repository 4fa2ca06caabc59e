import Evsip.Cli.Dispatch

/-! What a tab shows. It is the name of the command that the end of the line runs, and the keys
that leave the line alone leave that command alone. -/

namespace Evsip.Cli
open CLib Cmdlst Registry Transition

/-- Nothing is read, or a question mark or a tab. -/
def Quiet (i : Input) : Prop := i.read = .eof ∨ i.read = .byte 63 ∨ i.read = .byte 9

def Event.shown : Event → Option (Option CString)
  | .completion name => some name
  | _ => none

def Ctx.shown (s : Ctx) : List (Option CString) := s.trace.filterMap Event.shown

/-- The command that the lookup of the line stops at. -/
def Ctx.pick (s : Ctx) : Option CmdPtr :=
  (s.reg.scan s.text 0 (s.reg.items.take (reach s.reg))).map Prod.fst

structure SameLine (s t : Ctx) : Prop where
  line : t.curCmd = s.curCmd
  len : t.curCmdLen = s.curCmdLen
  reg : Kept s.reg t.reg

variable {s t : Ctx} {i : Input} {is : List Input} {p : CmdPtr} {w : Bool} {r r' : Registry}
  {line : CString}

theorem Kept.scan (h : Kept r r') {n : Nat} {l : List CmdPtr} :
    r'.scan line n l = r.scan line n l := by
  have hmatch : ∀ p, r'.Matches line p ↔ r.Matches line p := fun p => by
    rw [Matches, Matches, h.cmd]
  unfold Registry.scan
  simp only [hmatch]

theorem SameLine.text (h : SameLine s t) : t.text = s.text := by rw [Ctx.text, h.line, Ctx.text]

theorem SameLine.pick (h : SameLine s t) : t.pick = s.pick := by
  have hreach : reach t.reg = reach s.reg := by rw [reach, reach, h.reg.items]
  rw [Ctx.pick, h.text, hreach, h.reg.items, Kept.scan h.reg, Ctx.pick]

theorem runs_iff (h : Roster s.reg) (hlen : s.curCmdLen ≠ 0) :
    Runs s (handle ⟨.byte 10, w⟩ s) p ↔ s.pick = some p := by
  obtain ⟨hcommands, hreg⟩ := newline_commands hlen w
  unfold Runs Ctx.pick
  rw [hcommands, hreg]
  rcases hs : s.reg.scan s.text 0 (s.reg.items.take (reach s.reg)) with _ | ⟨q, j⟩
  · rw [lineCall_none h hs]
    simp
  · obtain ⟨f, hf, heq⟩ := lineCall_some h hs
    rw [heq]
    constructor
    · rintro ⟨hc, -⟩
      simpa [eq_comm] using hc
    · intro hp
      cases hp
      exact ⟨rfl, f, hf, rfl⟩

theorem refuses_iff (h : Roster s.reg) (hlen : s.curCmdLen ≠ 0) :
    Refuses s (handle ⟨.byte 10, w⟩ s) ↔ s.pick = none := by
  obtain ⟨hcommands, hreg⟩ := newline_commands hlen w
  unfold Refuses Ctx.pick
  rw [hcommands, hreg]
  rcases hs : s.reg.scan s.text 0 (s.reg.items.take (reach s.reg)) with _ | ⟨q, j⟩
  · rw [lineCall_none h hs]
    exact iff_of_true ⟨rfl, rfl⟩ rfl
  · obtain ⟨f, -, heq⟩ := lineCall_some h hs
    rw [heq]
    simp

theorem tabCall_shown (h : Roster s.reg) : (tabCall s.text s.reg).1 =
    (s.pick.map fun p => Event.completion (some (s.reg.cmds p).cmd)).toList := by
  have hfind : Kept s.reg ((cliCmdFind (some s.text) true).run s.reg).2 := h.find_kept
  unfold tabCall found Ctx.pick
  rw [h.find] at hfind ⊢
  rcases hs : s.reg.scan s.text 0 (s.reg.items.take (reach s.reg)) with _ | ⟨p, j⟩
  · rfl
  · rw [hs] at hfind
    have hr := hfind.roster h
    have hp : p ∈ s.reg.items := List.mem_of_mem_take (scan_mem hs)
    unfold completion
    dsimp only
    rw [cliCmdStr_run hr.inv (hr.alive p hp)]
    simp [Cmd.position]

theorem tab_shown (h : Roster s.reg) : (handle ⟨.byte 9, w⟩ s).shown =
    (s.pick.map fun p => some (s.reg.cmds p).cmd).toList ++ s.shown := by
  rw [handle_tab rfl]
  have hcall := tabCall_shown h
  rcases hp : s.pick with _ | p <;> rw [hp] at hcall <;>
    simp [Ctx.shown, Ctx.redrawn, Ctx.events, Ctx.calls, hcall] <;> rfl

theorem SameLine.refl (s : Ctx) : SameLine s s := ⟨rfl, rfl, .refl _⟩

theorem SameLine.step (h : SameLine s t) (hr : Roster s.reg) (hi : Quiet i) :
    SameLine s (handle i t) := by
  rcases hi with he | h63 | h9
  · rw [handle_eof he]
    exact h
  · rw [handle_question h63]
    split
    · exact ⟨h.line, h.len, h.reg⟩
    · exact h
  · rw [handle_tab h9]
    exact ⟨h.line, h.len, h.reg.trans (tabCall_kept (h.reg.roster hr))⟩

theorem SameLine.run (hr : Roster s.reg) (hq : ∀ i ∈ is, Quiet i) (h : Run handlerStep s is t) :
    SameLine s t := by
  refine h.invariant_of (I := SameLine s) (P := Quiet) (fun _ _ _ hs hi hst => ?_) (.refl s) hq
  cases hst
  exact hs.step hr hi

/-- After any tabs and question marks a tab shows the name of the one command that the end of the
line runs, and no name exactly when the line is refused. -/
theorem preview_agrees (h : Roster s.reg) (hlen : s.curCmdLen ≠ 0) (hq : ∀ i ∈ is, Quiet i)
    (hr : Run handlerStep s is t) (w w' : Bool) :
    (∀ p, Runs t (handle ⟨.byte 10, w⟩ t) p ↔ Runs s (handle ⟨.byte 10, w⟩ s) p) ∧
    (∀ name, (handle ⟨.byte 9, w'⟩ t).shown = name :: t.shown ↔
      ∃ p, Runs s (handle ⟨.byte 10, w⟩ s) p ∧ name = some (s.reg.cmds p).cmd) ∧
    ((handle ⟨.byte 9, w'⟩ t).shown = t.shown ↔ Refuses s (handle ⟨.byte 10, w⟩ s)) := by
  have hsame := SameLine.run h hq hr
  have hlen' : t.curCmdLen ≠ 0 := hsame.len ▸ hlen
  have hroster := hsame.reg.roster h
  simp only [runs_iff h hlen, runs_iff hroster hlen', refuses_iff h hlen, tab_shown hroster,
    hsame.pick]
  refine ⟨fun p => trivial, fun name => ?_, ?_⟩
  · rcases s.pick with _ | p
    · simp
    · have hcmd := hsame.reg.cmd p
      simp [hcmd, eq_comm]
  · rcases s.pick with _ | p <;> simp

theorem preview_agrees_help :
    let s := helpEditor (bytes "help me")
    let t := handle ⟨.byte 63, true⟩ s
    ∀ name, (handle ⟨.byte 9, true⟩ t).shown = name :: t.shown ↔
      ∃ p, Runs s (handle ⟨.byte 10, true⟩ s) p ∧ name = some (s.reg.cmds p).cmd :=
  (preview_agrees
    ((run_kept (roster_of_faithful helpSession_run (by decide)) (run_handled _ _)).roster
      (roster_of_faithful helpSession_run (by decide)))
    (by decide +kernel) (List.forall_mem_singleton.2 (.inr (.inl rfl))) (.cons rfl (.nil _)) true
    true).2.1

end Evsip.Cli
