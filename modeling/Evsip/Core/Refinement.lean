import Evsip.Core.Loop
import Evsip.Register.Board

/-! The server as its users see it: the lines of the dump, the line being typed, and what was sent
and shown. The program behaves like this server, and crashes where it does. -/

namespace Evsip.Core
open CLib Endp Cmdlst Registry Cli Register Transition

structure Server where
  board : Board
  line : List UInt8
  shutdowns : Nat
  ended : Bool
  /-- The last first. -/
  out : List Output

namespace Server

def init : Server := ⟨.init, [], 0, false, []⟩

def print (a : Server) (o : Output) : Server := { a with out := o :: a.out }

/-- What a line calls: the first command whose name begins it. -/
def called (cs : List Command) (line : List UInt8) : Option Callback :=
  (cs.find? fun c => c.1.bytes <+: line).bind (·.2.2)

def call (cs : List Command) (conf : Config.ConfigCtx) (a : Server) : Callback → Server
  | .cliCmdHelpClbk => a.print (.help (cs.map fun c => helpLine c.1 c.2.1))
  | .configCmdDump => a.print (.conf (Config.configCmdDump conf).2)
  | .endpCmdDump => a.print (.endpoints a.board.dump)
  | .cliCmdClbk 0 => { a.print .stopping with shutdowns := a.shutdowns + 1 }
  | .cliCmdClbk _ => a

def after (cs : List Command) (conf : Config.ConfigCtx) (a : Server) : Option Callback → Server
  | none => a
  | some c => a.call cs conf c

def register (a : Server) (alloc : Register.Allocs) (sip : Option Sip) : Except Fault Server :=
  (Board.handler alloc sip a.board).map fun r =>
    { a with board := r.2, out := handledOutput r.1 ++ a.out }

def type (cs : List Command) (conf : Config.ConfigCtx) (a : Server) (c : UInt8) : Server :=
  let b := a.after cs conf (if c = 10 ∧ a.line ≠ [] then called cs a.line else none)
  { b with line := editLine a.line c }

def next (cs : List Command) (conf : Config.ConfigCtx) (a : Server) : Event → Except Fault Server
  | .nua .iRegister alloc sip => a.register alloc sip
  | .nua .iInvite _ _ => .ok (a.print (.endpoints a.board.dump))
  | .nua .rShutdown _ _ => .ok { a with ended := true }
  | .nua _ _ _ => .ok a
  | .input ⟨.byte c, _⟩ => .ok (a.type cs conf c)
  -- a read that fails counts as one that gave NUL
  | .input ⟨.error, _⟩ => .ok (a.type cs conf 0)
  | .input ⟨.eof, _⟩ => .ok a
  | .signal => .ok { a with ended := true }

/-- The loop goes on until it is told to end. -/
def serve (cs : List Command) (conf : Config.ConfigCtx) : List Event → Server → Except Fault Server
  | [], a => .ok a
  | e :: es, a => if a.ended then .ok a else a.next cs conf e >>= serve cs conf es

end Server

/-- A backspace finds something to delete. -/
def Regular (a : Server) : Event → Prop
  | .input i => i.read = .byte 8 → a.line ≠ []
  | _ => True

def serves (cs : List Command) (conf : Config.ConfigCtx) (a : Server) (e : Event) (b : Server) :
    Prop := Regular a e ∧ a.next cs conf e = .ok b

def Regulars (cs : List Command) (conf : Config.ConfigCtx) : List Event → Server → Prop
  | [], _ => True
  | e :: es, a => a.ended = false →
    Regular a e ∧ ∀ b, a.next cs conf e = .ok b → Regulars cs conf es b

structure Refines (cs : List Command) (conf : Config.ConfigCtx) (s : Glob) (a : Server) :
    Prop where
  sound : Sound s
  commands : s.cli.reg.items.map (commandOf s.cli.reg) = cs
  reaches : reach s.cli.reg = cs.length
  config : s.config = conf
  board : Register.board s.store = a.board
  edits : ∃ b : ListEditor, b.line = a.line ∧ Edits s.cli b
  root : s.rootEventLoop = some ⟨a.ended⟩
  nua : s.nua = some ⟨a.shutdowns⟩
  out : s.out = a.out

variable {s t : Glob} {a b : Server} {cs : List Command} {conf : Config.ConfigCtx} {e : Event}
  {es : List Event} {i : Input} {c : Callback} {cli : Ctx} {r : Registry} {line : List UInt8}
  {text : CString}

/-! What a line calls -/

theorem scan_called {n : Nat} {l : List CmdPtr} :
    ((r.scan text n l).bind fun x => (commandOf r x.1).2.2) =
      Server.called (l.map (commandOf r)) text.bytes := by
  induction l generalizing n with
  | nil => rfl
  | cons p l ih =>
    have hmatch : r.Matches text p ↔ (commandOf r p).1.bytes <+: text.bytes := .rfl
    rw [Registry.scan, List.zipIdx_cons, Server.called, List.map_cons]
    by_cases hp : (commandOf r p).1.bytes <+: text.bytes
    · rw [List.find?_cons_of_pos (by simpa using hmatch.2 hp),
        List.find?_cons_of_pos (by simpa using hp)]
      rfl
    · rw [List.find?_cons_of_neg (by simpa using mt hmatch.1 hp),
        List.find?_cons_of_neg (by simpa using hp)]
      exact ih

theorem called_ofBytes : Server.called cs (CString.ofBytes line).bytes = Server.called cs line := by
  simp only [Server.called, prefix_ofBytes (CString.noNul _)]

namespace Refines

theorem lineCallback (h : Refines cs conf s a) :
    lineCallback text s.cli.reg = Server.called cs text.bytes := by
  have hlen : s.cli.reg.items.length = cs.length := by rw [← h.commands, List.length_map]
  rw [Core.lineCallback, scan_called, h.reaches, ← hlen, List.take_length, h.commands]

theorem inputCallback (h : Refines cs conf s a) : inputCallback s.cli i =
    if i.read = .byte 10 ∧ a.line ≠ [] then Server.called cs a.line else none := by
  obtain ⟨b, hb, hedits⟩ := h.edits
  have hlen0 : s.cli.curCmdLen ≠ 0 ↔ a.line ≠ [] := by
    rw [← hb, ne_eq, ← UInt64.toNat_inj, hedits.len]
    simp
  rw [Core.inputCallback, h.lineCallback, hedits.text, called_ofBytes, hb]
  exact if_congr (and_congr_right fun _ => hlen0) rfl rfl

/-! Commands -/

theorem print {o : Output} (h : Refines cs conf s a) : Refines cs conf (s.print o) (a.print o) :=
  { h with sound := ⟨h.sound.store, h.sound.roster, h.sound.known⟩, out := congrArg (o :: ·) h.out }

theorem dump (h : Refines cs conf s a) :
    endpDumpList.run s.store = .ok (a.board.dump, s.store.used 1) := by
  rw [endpDumpList_board h.sound.store, h.board]

theorem dumped (h : Refines cs conf s a) :
    Refines cs conf s.dumped (a.print (.endpoints a.board.dump)) := by
  have hdump : s.store.dump = a.board.dump := by rw [← board_dump, h.board]
  exact { h with
    sound := ⟨h.sound.store.used 1, h.sound.roster, h.sound.known⟩
    board := h.board
    out := by rw [Glob.dumped, hdump, h.out]; rfl }

theorem shutDown (h : Refines cs conf s a) :
    Refines cs conf s.shutDown { a with shutdowns := a.shutdowns + 1 } :=
  { h with
    sound := ⟨h.sound.store, h.sound.roster, h.sound.known⟩
    nua := by rw [Glob.shutDown, h.nua]; rfl }

theorem helpText (h : Refines cs conf s a) :
    s.helpText = cs.map fun c => helpLine c.1 c.2.1 := by
  have hlen : s.cli.reg.items.length = cs.length := by rw [← h.commands, List.length_map]
  rw [Glob.helpText, h.reaches, ← hlen, List.take_length, ← h.commands, List.map_map]
  rfl

theorem called (h : Refines cs conf s a) (c : Callback) :
    Refines cs conf (s.called c) (a.call cs conf c) := by
  cases c with
  | cliCmdHelpClbk =>
    rw [Glob.called, h.helpText]
    exact h.print
  | configCmdDump =>
    rw [Glob.called, h.config]
    exact h.print
  | endpCmdDump => exact h.dumped
  | cliCmdClbk n =>
    cases n with
    | zero =>
      rw [Glob.called, if_pos (by rw [h.root]; rfl)]
      exact h.print.shutDown
    | succ n => exact h

theorem after (h : Refines cs conf s a) (o : Option Callback) :
    Refines cs conf (s.after o) (a.after cs conf o) := by
  cases o with
  | none => exact h
  | some c => exact h.called c

theorem withCli (h : Refines cs conf s a) (hk : Kept s.cli.reg cli.reg) {b : ListEditor}
    (hb : Edits cli b) : Refines cs conf (s.withCli cli) { a with line := b.line } where
  sound := h.sound.withCli hk
  commands := by
    rw [← h.commands]
    change cli.reg.items.map (commandOf cli.reg) = _
    rw [hk.items]
    exact List.map_congr_left fun p _ => Kept.commandOf hk p
  reaches := by
    rw [← h.reaches]
    change reach cli.reg = _
    rw [reach, reach, hk.items]
  config := h.config
  board := h.board
  edits := ⟨b, rfl, hb⟩
  root := h.root
  nua := h.nua
  out := h.out

/-! Events -/

theorem typed_byte (h : Refines cs conf s a) (c : UInt8) (w : Bool) (hback : c = 8 → a.line ≠ []) :
    Refines cs conf ((s.after (Core.inputCallback s.cli ⟨.byte c, w⟩)).withCli
      (handle ⟨.byte c, w⟩ s.cli)) (a.type cs conf c) := by
  obtain ⟨l, hl, hedits⟩ := h.edits
  have hkept := handle_kept (i := ⟨.byte c, w⟩) h.sound.roster
  have hstep := hedits.step (i := ⟨.byte c, w⟩) rfl ⟨c, rfl, fun h8 => hl ▸ hback h8, rfl⟩
  have hafter := h.after (if c = 10 ∧ a.line ≠ [] then Server.called cs a.line else none)
  have hnext := hafter.withCli (by rw [Glob.after_cli]; exact hkept) hstep
  have hline : (l.next c).line = editLine a.line c := congrArg (editLine · c) hl
  rw [hline] at hnext
  rw [h.inputCallback]
  simp only [ReadResult.byte.injEq]
  exact hnext

theorem typed (h : Refines cs conf s a) (hi : Regular a (.input i))
    (hb : a.next cs conf (.input i) = .ok b) :
    Refines cs conf ((s.after (Core.inputCallback s.cli i)).withCli (handle i s.cli)) b := by
  rcases i with ⟨c | _ | _, w⟩
  · cases hb
    exact h.typed_byte c w fun h8 => hi (congrArg _ h8)
  · cases hb
    obtain ⟨l, hl, hedits⟩ := h.edits
    have hstep := h.withCli (handle_kept (i := ⟨.eof, w⟩) h.sound.roster) (b := l)
      (by rw [handle_eof rfl]; exact hedits)
    rw [hl] at hstep
    exact hstep
  · cases hb
    have hcall : Core.inputCallback s.cli ⟨.error, w⟩ = Core.inputCallback s.cli ⟨.byte 0, w⟩ :=
      (if_neg (by simp)).trans (if_neg (by simp)).symm
    rw [hcall]
    exact h.typed_byte 0 w (by simp)

theorem register_eq (h : Refines cs conf s a) (alloc : Register.Allocs) (sip : Option Sip) :
    a.register alloc sip = ((registerHandler alloc sip).run s.store).map fun r =>
      { a with board := Register.board r.2, out := handledOutput r.1 ++ a.out } := by
  have hboard := handler_board h.sound.store alloc sip
  rw [h.board] at hboard
  have hreg : a.register alloc sip = ((Board.handler alloc sip).run a.board).map fun r =>
    { a with board := r.2, out := handledOutput r.1 ++ a.out } := rfl
  rw [hreg, ← hboard]
  rcases (registerHandler alloc sip).run s.store with f | r <;> rfl

theorem register {alloc : Register.Allocs} {sip : Option Sip} {r : Handled} {store : Store}
    (h : Refines cs conf s a) (hrun : (registerHandler alloc sip).run s.store = .ok (r, store))
    (hb : a.register alloc sip = .ok b) :
    Refines cs conf { s with store := store, out := handledOutput r ++ s.out } b := by
  rw [h.register_eq, hrun] at hb
  cases hb
  exact { h with
    sound := ⟨h.sound.store.step (i := (alloc, sip)) ⟨_, hrun⟩, h.sound.roster, h.sound.known⟩
    board := rfl
    out := by rw [h.out] }

theorem step (h : Refines cs conf s a) (hs : serverStep s e t) (ha : serves cs conf a e b) :
    Refines cs conf t b := by
  obtain ⟨hregular, hb⟩ := ha
  have hbroken : Refines cs conf s.broken { a with ended := true } :=
    { h with
      sound := ⟨h.sound.store, h.sound.roster, h.sound.known⟩
      root := by rw [Glob.broken, h.root]; rfl }
  cases (step_iff h.sound).1 hs with
  | registered hrun => exact h.register hrun hb
  | invited alloc sip =>
    cases hb
    exact h.dumped
  | shutDown alloc sip =>
    cases hb
    exact hbroken
  | logged alloc sip h1 h2 h3 =>
    cases ‹NuaEvent› with
    | iRegister => exact absurd rfl h1
    | iInvite => exact absurd rfl h2
    | rShutdown => exact absurd rfl h3
    | _ =>
      cases hb
      exact h
  | typed i => exact h.typed hregular hb
  | signal =>
    cases hb
    exact hbroken

theorem crash {f : Fault} (h : Refines cs conf s a) (ha : a.next cs conf e = .error f) :
    (handleEvent e).run s = .error f := by
  rcases e with ⟨event, alloc, sip⟩ | ⟨_ | _ | _, w⟩ | _
  · cases event with
    | iRegister =>
      rw [Server.next, h.register_eq] at ha
      rw [register_run]
      rcases hrun : (registerHandler alloc sip).run s.store with f' | r
      · rw [hrun] at ha
        cases ha
        rfl
      · rw [hrun] at ha
        cases ha
    | _ => cases ha
  all_goals cases ha

theorem progress (h : Refines cs conf s a) (ha : a.next cs conf e = .ok b) :
    ∃ t, serverStep s e t := by
  rcases hreq : e.request with _ | ⟨alloc, sip⟩
  · exact serverStep_total h.sound hreq
  rcases e with ⟨event, alloc', sip'⟩ | _ | _
  · cases event with
    | iRegister =>
      cases hreq
      rw [Server.next, h.register_eq] at ha
      rcases hrun : (registerHandler alloc sip).run s.store with f | ⟨r, store⟩
      · rw [hrun] at ha
        cases ha
      · exact ⟨_, (step_iff h.sound).2 (.registered hrun)⟩
    | _ => cases hreq
  · cases hreq
  · cases hreq

theorem run (ha : Run (serves cs conf) a es b) (h : Refines cs conf s a) :
    ∃ t, Run serverStep s es t ∧ Refines cs conf t b := by
  induction ha generalizing s with
  | nil a => exact ⟨s, .nil s, h⟩
  | cons hab _ ih =>
    obtain ⟨t, ht⟩ := h.progress hab.2
    obtain ⟨u, hu, hrefines⟩ := ih (h.step ht hab)
    exact ⟨u, .cons ht hu, hrefines⟩

end Refines

/-! The program as it starts -/

theorem Offers.refines {lost : List CmdPtr} (h : Offers r cs lost) (hlen : cs.length ≤ 4)
    (hcalls : ∀ c ∈ cs, c.2.2 ≠ none) (conf : Config.ConfigCtx) :
    Refines cs conf (.idle r conf) .init := by
  have hitems : r.items.length = cs.length := by rw [← h.commands, List.length_map]
  have hreach : reach r = cs.length := by
    rw [reach, hitems]
    generalize cs.length = n at hlen
    interval_cases n <;> rfl
  exact ⟨(h.ready hcalls conf).sound, h.commands, hreach, rfl, rfl, ⟨_, rfl, Edits.init.cleaned⟩,
    rfl, rfl, rfl⟩

theorem started_refines (a : StartAllocs) (conf : Config.ConfigCtx) :
    Refines (offered false a.commands) conf (.started a conf) .init := by
  obtain ⟨lost, hoffers, -⟩ := startCommands_offers a
  have hlen : (offered false a.commands).length ≤ 4 := offered_sublist.length_le
  exact hoffers.refines hlen (offered_calls a) conf

def Server.registered : Server :=
  ⟨⟨true, [(some (.ofBytes [49]), some (.ofBytes [97]))]⟩, [], 0, true,
    [.endpoints [(some (.ofBytes [97]), some (.ofBytes [49]))],
      .endpoints [(some (.ofBytes [97]), some (.ofBytes [49]))],
      .response (.ok (some contactA) "300"), .response .trying]⟩

end Evsip.Core
