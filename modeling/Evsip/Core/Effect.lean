import Evsip.Core.Server

/-! What each event does to a program whose end points and commands are sound. -/

namespace Evsip.Core
open CLib Endp Cmdlst Registry Cli

namespace Glob

def withCli (s : Glob) (cli : Ctx) : Glob := { s with cli := cli }

def withReg (s : Glob) (r : Registry) : Glob := s.withCli { s.cli with reg := r }

def print (s : Glob) (o : Output) : Glob := { s with out := o :: s.out }

def broken (s : Glob) : Glob := { s with rootEventLoop := s.rootEventLoop.map fun _ => ⟨true⟩ }

def shutDown (s : Glob) : Glob := { s with nua := s.nua.map fun n => ⟨n.shutdowns + 1⟩ }

def dumped (s : Glob) : Glob :=
  { s with store := s.store.used 1, out := .endpoints s.store.dump :: s.out }

def helpText (s : Glob) : List (List UInt8) :=
  (s.cli.reg.items.take (reach s.cli.reg)).map s.cli.reg.helpOf

def called (s : Glob) : Callback → Glob
  | .cliCmdHelpClbk => s.print (.help s.helpText)
  | .configCmdDump => s.print (.conf (Config.configCmdDump s.config).2)
  | .endpCmdDump => s.dumped
  | .cliCmdClbk 0 =>
    if s.rootEventLoop.isSome then (s.print .stopping).shutDown else s.print .stopping
  | .cliCmdClbk _ => s

def after (s : Glob) : Option Callback → Glob
  | none => s
  | some c => s.called c

end Glob

def lineCallback (text : CString) (r : Registry) : Option Callback :=
  (r.scan text 0 (r.items.take (reach r))).bind fun x => (commandOf r x.1).2.2

def inputCallback (s : Ctx) (i : Input) : Option Callback :=
  if i.read = .byte 10 ∧ s.curCmdLen ≠ 0 then lineCallback s.text s.reg else none

structure Sound (s : Glob) : Prop where
  store : Register.Inv s.store
  roster : Roster s.cli.reg
  known : ∀ p ∈ s.cli.reg.items, (commandOf s.cli.reg p).2.2 ≠ none

/-- What an event leads to. -/
inductive Effect (s : Glob) : Event → Glob → Prop
  | registered {a : Register.Allocs} {sip : Option Register.Sip} {r : Register.Handled}
      {store : Store} :
      (Register.registerHandler a sip).run s.store = .ok (r, store) →
      Effect s (.nua .iRegister a sip) { s with store := store, out := handledOutput r ++ s.out }
  | invited (a : Register.Allocs) (sip : Option Register.Sip) :
      Effect s (.nua .iInvite a sip) s.dumped
  | shutDown (a : Register.Allocs) (sip : Option Register.Sip) :
      Effect s (.nua .rShutdown a sip) s.broken
  | logged {event : NuaEvent} (a : Register.Allocs) (sip : Option Register.Sip) :
      event ≠ .iRegister → event ≠ .iInvite → event ≠ .rShutdown → Effect s (.nua event a sip) s
  | typed (i : Input) :
      Effect s (.input i) ((s.after (inputCallback s.cli i)).withCli (handle i s.cli))
  | signal : Effect s .signal s.broken

variable {s t : Glob} {e : Event} {i : Input} {c : Callback} {cli : Ctx} {text : CString}
  {r r' : Registry}

theorem Kept.commandOf (h : Kept r r') (p : CmdPtr) : commandOf r' p = Core.commandOf r p := by
  obtain ⟨i, hi⟩ := h.cmds p
  rw [Core.commandOf, Core.commandOf, hi]

namespace Glob

theorem helpText_withCli (h : Kept s.cli.reg cli.reg) : (s.withCli cli).helpText = s.helpText := by
  have hreach : reach cli.reg = reach s.cli.reg := by rw [reach, reach, h.items]
  unfold helpText withCli
  dsimp only
  rw [h.items, hreach]
  exact List.map_congr_left fun p _ => h.helpOf p

theorem called_frame : ∃ n, s.called c =
    { s with store := s.store.used n, nua := (s.called c).nua, out := (s.called c).out } := by
  cases c with
  | endpCmdDump => exact ⟨1, rfl⟩
  | cliCmdClbk n =>
    refine ⟨0, ?_⟩
    rw [Store.used_zero]
    cases n with
    | zero =>
      rw [called]
      split_ifs <;> rfl
    | succ n => rfl
  | _ => exact ⟨0, by rw [Store.used_zero]; rfl⟩

theorem called_cli : (s.called c).cli = s.cli := by
  obtain ⟨n, h⟩ := called_frame (s := s) (c := c)
  rw [h]

theorem after_frame {o : Option Callback} : ∃ n, s.after o =
    { s with store := s.store.used n, nua := (s.after o).nua, out := (s.after o).out } := by
  cases o with
  | none => exact ⟨0, by rw [Store.used_zero]; rfl⟩
  | some c => exact called_frame

theorem after_cli {o : Option Callback} : (s.after o).cli = s.cli := by
  obtain ⟨n, h⟩ := after_frame (s := s) (o := o)
  rw [h]

theorem called_withCli (h : Kept s.cli.reg cli.reg) :
    (s.withCli cli).called c = (s.called c).withCli cli := by
  cases c with
  | cliCmdHelpClbk => rw [called, helpText_withCli h, called]; rfl
  | cliCmdClbk n =>
    cases n with
    | zero =>
      have hroot : (s.withCli cli).rootEventLoop = s.rootEventLoop := rfl
      rw [called, called, hroot]
      split_ifs <;> rfl
    | succ n => rfl
  | _ => rfl

end Glob

theorem onStore_run {α : Type} {x : Endp.Proc α} {a : α} {store : Store}
    (h : x.run s.store = .ok (a, store)) :
    (onStore x).run s = .ok (a, { s with store := store }) := by
  change (x.run s.store).map _ = _
  rw [h]
  rfl

theorem onCli_run {α : Type} (x : Cli.Proc α) :
    (onCli x).run s = .ok ((x.run s.cli).1, s.withCli (x.run s.cli).2) := rfl

theorem onReg_run {α : Type} (x : Cmdlst.Proc α) : (onReg x).run s =
    .ok ((x.run s.cli.reg).1, s.withReg (x.run s.cli.reg).2) := rfl

theorem dump_run (h : Register.Inv s.store) : (onStore endpDumpList).run s =
    .ok (s.store.dump, { s with store := s.store.used 1 }) :=
  onStore_run (endpDumpList_run fun p hp => (h.live p hp).not_released)

theorem stop_run : stop.run s = .ok (if s.rootEventLoop.isSome then
    (.success, (s.print .stopping).shutDown) else (.errorOutOfResources, s.print .stopping)) := by
  rcases s with ⟨_ | root, _ | nua, _, _, _, _⟩ <;> rfl

theorem call_run (h : Sound s) (c : Callback) : c.call.run s = .ok (.success, s.called c) := by
  cases c with
  | cliCmdHelpClbk =>
    have hrun : (onReg Cmdlst.cliCmdHelpClbk).run s = .ok ((.success, s.helpText), s) := by
      rw [onReg_run, cliCmdHelpClbk_run h.roster]
      rfl
    simp [Callback.call, cliCmdHelpClbk, hrun, output]
    rfl
  | configCmdDump => rfl
  | endpCmdDump =>
    simp [Callback.call, endpCmdDump, dump_run h.store, output]
    rfl
  | cliCmdClbk n =>
    cases n with
    | zero =>
      change (stop >>= fun _ => pure Code.success).run s = _
      rw [StateT.run_bind, stop_run, Glob.called]
      split_ifs <;> rfl
    | succ n => rfl

theorem Sound.withCli (h : Sound s) (hk : Kept s.cli.reg cli.reg) : Sound (s.withCli cli) where
  store := h.store
  roster := hk.roster h.roster
  known p hp := by
    rw [Glob.withCli, Kept.commandOf hk]
    exact h.known p (hk.items ▸ hp)

theorem Sound.called (h : Sound s) (c : Callback) : Sound (s.called c) := by
  obtain ⟨n, hc⟩ := Glob.called_frame (s := s) (c := c)
  rw [hc]
  exact ⟨h.store.used n, h.roster, h.known⟩

/-! The end of a line -/

theorem readCmd_run {α : Type} {p : CmdPtr} (g : Cmd → α) (hp : s.cli.reg.Alive p) :
    (onReg (readCmd p g)).run s = .ok (g (s.cli.reg.cmds p), s) := by
  rw [onReg_run, Cmdlst.readCmd_run g hp]
  rfl

theorem Sound.withReg (h : Sound s) (hk : Kept s.cli.reg r) : Sound (s.withReg r) := h.withCli hk

theorem called_withReg (hk : Kept s.cli.reg r) : (s.withReg r).called c = (s.called c).withReg r := by
  have hk' : Kept s.cli.reg ({ s.cli with reg := r } : Ctx).reg := hk
  rw [Glob.withReg, Glob.withReg, Glob.called_cli]
  exact Glob.called_withCli hk'

theorem runCmd_run (h : Sound s) {p : CmdPtr} {cmd : Cmd} {f : Nat} (hf : cmd.execF = some f)
    (hc : Callback.of f cmd.execArg = some c) : (runCmd p cmd).run s =
      .ok ((), (s.called c).withReg (s.cli.reg.record (.exec p f cmd.execArg))) := by
  have hk : Kept s.cli.reg (s.cli.reg.record (.exec p f cmd.execArg)) := .record _
  have hcall := call_run (h.withReg hk) c
  rw [called_withReg hk] at hcall
  have hrecord : (onReg (modify (·.record (.exec p f cmd.execArg)))).run s =
      .ok ((), s.withReg (s.cli.reg.record (.exec p f cmd.execArg))) := rfl
  unfold runCmd execF
  rw [hf]
  dsimp only
  rw [hc, StateT.run_bind, hrecord, Proc.ok_bind, StateT.run_bind]
  dsimp only
  rw [hcall]
  rfl

theorem cliCmdExecute_run (h : Sound s) {p : CmdPtr} (hp : p ∈ s.cli.reg.items)
    {f : Nat} (hf : (s.cli.reg.cmds p).execF = some f)
    (hc : Callback.of f (s.cli.reg.cmds p).execArg = some c) :
    (cliCmdExecute (some p)).run s = .ok (.success,
      (s.called c).withReg (s.cli.reg.record (.exec p f (s.cli.reg.cmds p).execArg))) := by
  have halive := h.roster.alive p hp
  have hm := (h.roster.inv p halive).1
  simp [cliCmdExecute, readCmd_run, halive, hm, runCmd_run h hf hc]

theorem submit_run (h : Sound s) : (submit text).run s =
    .ok ((), (s.after (lineCallback text s.cli.reg)).withCli
      (s.cli.calls (lineCall text s.cli.reg))) := by
  have hrecord : ∀ (s : Glob) e, (onCli (Cli.record e)).run s =
      .ok ((), s.withCli (s.cli.events [e])) := fun _ _ => rfl
  have hfind : (onReg (cliCmdFind (some text) true)).run (s.withCli (s.cli.events [.lookup text])) =
      .ok ((found text s.cli.reg).1, (s.withCli (s.cli.events [.lookup text])).withReg
        (found text s.cli.reg).2) := rfl
  have hfound : (cliCmdFind (some text) true).run s.cli.reg = _ := h.roster.find
  rw [submit, StateT.run_bind, hrecord, Proc.ok_bind, StateT.run_bind, hfind, Proc.ok_bind]
  rcases hs : s.cli.reg.scan text 0 (s.cli.reg.items.take (reach s.cli.reg)) with _ | ⟨p, j⟩
  · rw [hs] at hfound
    have hcall : lineCallback text s.cli.reg = none := by
      rw [lineCallback, hs]
      rfl
    rw [hcall, lineCall_none h.roster hs, found, hfound]
    rfl
  · rw [hs] at hfound
    have hp : p ∈ s.cli.reg.items := List.mem_of_mem_take (scan_mem hs)
    obtain ⟨c, hc⟩ := Option.ne_none_iff_exists'.1 (h.known p hp)
    have hcall : lineCallback text s.cli.reg = some c := by
      rw [lineCallback, hs]
      exact hc
    obtain ⟨f, hf, hline⟩ := lineCall_some h.roster hs
    have hk : Kept s.cli.reg (s.cli.reg.setCmd p (.position j)) := .position j
    rw [hcall, hline, found, hfound]
    dsimp only
    -- the command is executed once its position is set and the execution is on record
    let cli : Ctx := { s.cli.events [.execute (some p), .lookup text] with
      reg := s.cli.reg.setCmd p (.position j) }
    have hk' : Kept s.cli.reg cli.reg := hk
    have hcmd : (s.withCli cli).cli.reg.cmds p = { s.cli.reg.cmds p with index := .ofNat j } := by
      simp [cli, Glob.withCli, Cmd.position]
    have hexec := cliCmdExecute_run (h.withCli hk') (p := p) (f := f) (c := c)
      (hk.items ▸ hp) (by rw [hcmd, hf]) (by simpa [hcmd, commandOf, hf] using hc)
    rw [Glob.called_withCli hk', hcmd] at hexec
    rw [StateT.run_bind, hrecord, Proc.ok_bind, StateT.run_bind]
    have hrun : (cliCmdExecute (some p)).run (s.withCli cli) = _ := hexec
    exact congrArg (fun x => x >>= fun y : Code × Glob => .ok ((), y.2)) hrun

/-! One event -/

theorem input_run (h : Sound s) : (handleEvent (.input i)).run s =
    .ok ((), (s.after (inputCallback s.cli i)).withCli (handle i s.cli)) := by
  have hprompt : ∀ s : Glob, (onCli (Cli.cliPrompt true)).run s =
      .ok ((), s.withCli s.cli.cleaned) := fun _ => rfl
  by_cases hi : i.read = .byte 10
  · rw [handle_newline hi]
    by_cases hl : s.cli.curCmdLen = 0
    · have hcall : inputCallback s.cli i = none := if_neg fun hn => hn.2 hl
      rw [hcall, if_pos hl]
      simp [handleEvent, cliInputHandler, hi, hl, hprompt]
      rfl
    · have hpos : s.cli.curCmdLen > 0 := UInt64.pos_iff_ne_zero.2 hl
      have hcall : inputCallback s.cli i = lineCallback s.cli.text s.cli.reg := if_pos ⟨hi, hl⟩
      rw [hcall, if_neg hl]
      simp [handleEvent, cliInputHandler, hi, hpos, submit_run h, hprompt]
      rfl
  · have hcall : inputCallback s.cli i = none := if_neg fun hn => hi hn.1
    rw [hcall]
    simp [handleEvent, cliInputHandler, hi, onCli_run]
    rfl

theorem register_run (a : Register.Allocs) (sip : Option Register.Sip) :
    (handleEvent (.nua .iRegister a sip)).run s =
      ((Register.registerHandler a sip).run s.store).map fun r => ((),
        { s with store := r.2, out := handledOutput r.1 ++ s.out }) := by
  have hstore : (onStore (Register.registerHandler a sip)).run s =
      ((Register.registerHandler a sip).run s.store).map fun r => (r.1, { s with store := r.2 }) := rfl
  simp only [handleEvent, evsofiaMain, StateT.run_bind, hstore]
  rcases (Register.registerHandler a sip).run s.store with e | ⟨r, store⟩ <;> rfl

theorem invite_run (h : Sound s) (a : Register.Allocs) (sip : Option Register.Sip) :
    (handleEvent (.nua .iInvite a sip)).run s = .ok ((), s.dumped) := by
  simp [handleEvent, evsofiaMain, inviteHandler, dump_run h.store, output]
  rfl

theorem step_iff (h : Sound s) : serverStep s e t ↔ Effect s e t := by
  unfold serverStep
  constructor
  · intro hs
    rcases e with ⟨event, a, sip⟩ | i | _
    · cases event with
      | iRegister =>
        rw [register_run] at hs
        rcases hrun : (Register.registerHandler a sip).run s.store with e | ⟨r, store⟩
        · rw [hrun] at hs
          cases hs
        · rw [hrun] at hs
          cases hs
          exact .registered hrun
      | iInvite =>
        rw [invite_run h] at hs
        cases hs
        exact .invited a sip
      | rShutdown =>
        cases hs
        exact .shutDown a sip
      | _ =>
        cases hs
        exact .logged a sip nofun nofun nofun
    · rw [input_run h] at hs
      cases hs
      exact .typed i
    · cases hs
      exact .signal
  · rintro (hrun | _ | _ | ⟨_, _, h1, h2, h3⟩ | i | _)
    · rw [register_run, hrun]
      rfl
    · exact invite_run h _ _
    · rfl
    · cases ‹NuaEvent› with
      | iRegister => exact absurd rfl h1
      | iInvite => exact absurd rfl h2
      | rShutdown => exact absurd rfl h3
      | _ => rfl
    · exact input_run h
    · rfl

theorem handle_kept {s : Ctx} (h : Roster s.reg) : Kept s.reg (handle i s).reg := by
  have hst := handle_stroke (s := s) (i := i)
  generalize handle i s = t at hst
  cases hst with
  | tab _ => exact tabCall_kept h
  | line _ _ => exact lineCall_kept h
  | _ => exact .refl _

theorem Sound.after (h : Sound s) (o : Option Callback) : Sound (s.after o) := by
  cases o with
  | none => exact h
  | some c => exact h.called c

theorem Sound.step (h : Sound s) (hs : serverStep s e t) : Sound t := by
  cases (step_iff h).1 hs with
  | registered hrun => exact ⟨h.store.step (i := (_, _)) ⟨_, hrun⟩, h.roster, h.known⟩
  | typed i =>
    refine (h.after _).withCli ?_
    rw [Glob.after_cli]
    exact handle_kept h.roster
  | invited => exact ⟨h.store.used 1, h.roster, h.known⟩
  | logged => exact h
  | _ => exact ⟨h.store, h.roster, h.known⟩

end Evsip.Core
