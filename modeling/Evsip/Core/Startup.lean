import Evsip.Core.Commands

/-! The four commands of the program after its start, whichever allocations failed on the way. -/

namespace Evsip.Core
open CLib Cmdlst Registry

structure StartAllocs where
  conf : CmdAllocs
  help : CmdAllocs
  dump : CmdAllocs
  core : Nat → CmdAllocs

def StartAllocs.all : StartAllocs := ⟨.all, .all, .all, fun _ => .all⟩

/-- The registrations of `main`, `evsip_cli_start` and `evsip_start`, in this order. -/
def startCommands (a : StartAllocs) : Cmdlst.Proc Unit := do
  let _ ← Config.registerCliCmds a.conf
  let _ ← cliCmdRegisterHelpCmd a.help
  let _ ← Endp.endpInit a.dump
  let _ ← registerCliCmds a.core evsipCmds

def confCommand : Command :=
  (.ofBytes (bytes "conf"), .ofBytes (bytes "Dump all conf"), some .configCmdDump)
def helpCommand : Command :=
  (.ofBytes (bytes "help"), .ofBytes (bytes "Help and list all available commands"),
    some .cliCmdHelpClbk)
def dumpCommand : Command :=
  (.ofBytes (bytes "dump"), .ofBytes (bytes "Dump all registred endpoints"), some .endpCmdDump)
def exitCommand : Command :=
  (.ofBytes (bytes "exit"), .ofBytes (bytes "Exit and close EvSip Server"),
    some (.cliCmdClbk 0))

def CmdAllocs.registers (a : CmdAllocs) (hasList : Bool) : Bool := a.creates hasList && a.append

/-- The commands that get on the list, which the first one with memory for it makes. -/
def offered : Bool → List (CmdAllocs × Command) → List Command
  | _, [] => []
  | hasList, (a, c) :: rest =>
    (if a.registers hasList then [c] else []) ++ offered (hasList || a.init.vectorCreate) rest

def StartAllocs.commands (a : StartAllocs) : List (CmdAllocs × Command) :=
  [(a.conf, confCommand), (a.help, helpCommand), (a.dump, dumpCommand), (a.core 0, exitCommand)]

/-- The help command is created, and then not registered. -/
def StartAllocs.LosesHelp (a : StartAllocs) : Prop :=
  a.help.creates a.conf.init.vectorCreate ∧ a.help.append = false

variable {r : Registry} {a : CmdAllocs} {cmd help : CString} {f : Nat} {cs : List Command}
  {lost : List CmdPtr}

structure Adds (r r' : Registry) (ret : Code) (a : CmdAllocs) (cs : List Command) (c : Command)
    (lost : List CmdPtr) : Prop where
  offers : Offers r' (cs ++ if a.registers r.evsipCmdl.isSome then [c] else []) lost
  hasList : r'.evsipCmdl.isSome = (r.evsipCmdl.isSome || a.init.vectorCreate)
  ret : ret = .success ↔ a.registers r.evsipCmdl.isSome

theorem setItems_isSome {l : List CmdPtr} : (r.setItems l).evsipCmdl.isSome = r.evsipCmdl.isSome :=
  Option.isSome_map ..

theorem Offers.adds {r' : Registry} {ret : Code} {arg : Nat} {d : Cmd} {lost' : List CmdPtr}
    (h : Offers r cs lost)
    (hrun : (ret, r') =
      let r₁ := r.listed a.init.vectorCreate
      if a.creates r.evsipCmdl.isSome then
        if a.append then (.success, (r₁.cloned (registeredCmd cmd help f arg r.items.length)).setItems
          (r.items ++ [r.next]))
        else (.errorOutOfResources, r₁.cloned d)
      else (.errorOutOfResources, ((cliCmdInit a.init cmd help 1 1).run r).2))
    (hm : d.magic = cmdMagic)
    (hlost : lost' = if a.creates r.evsipCmdl.isSome && !a.append && d.live then r.next :: lost
      else lost) :
    Adds r r' ret a cs (cmd, help, Callback.of f arg) lost' := by
  have h₁ := h.listed a.init.vectorCreate
  have hnext : (r.listed a.init.vectorCreate).next = r.next := listed_next
  have hitems : (r.listed a.init.vectorCreate).items = r.items := listed_items
  rw [hlost]
  by_cases hc : a.creates r.evsipCmdl.isSome
  · simp only [hc, if_true] at hrun
    rcases ha : a.append with _ | _
    · simp only [ha, Bool.false_eq_true, if_false] at hrun
      cases hrun
      have hoff := h₁.cloned (c := d) fun _ => hm
      rw [hnext] at hoff
      refine ⟨?_, listed_isSome, by simp [CmdAllocs.registers, ha]⟩
      simpa [CmdAllocs.registers, ha, hc] using hoff
    · simp only [ha, if_true] at hrun
      cases hrun
      have hl₁ : (r.listed a.init.vectorCreate).evsipCmdl ≠ none := by
        rw [← Option.isSome_iff_ne_none, listed_isSome]
        simp only [CmdAllocs.creates, Bool.and_eq_true] at hc
        exact hc.1.1.1
      have hoff := h₁.appended hl₁ (c := registeredCmd cmd help f arg r.items.length) rfl rfl
        (Option.some_ne_none f)
      rw [hnext, hitems] at hoff
      have hreg : a.registers r.evsipCmdl.isSome = true := by simp [CmdAllocs.registers, ha, hc]
      refine ⟨?_, setItems_isSome.trans listed_isSome, by simp [hreg]⟩
      rw [if_pos hreg, if_neg (by simp)]
      exact hoff
  · rw [Bool.not_eq_true] at hc
    simp only [hc, Bool.false_eq_true, if_false] at hrun
    cases hrun
    have hreg : a.registers r.evsipCmdl.isSome = false := by simp [CmdAllocs.registers, hc]
    rcases cliCmdInit_failed cmd help hc with he | ⟨c, hlive, he⟩
    · rw [he]
      exact ⟨by simpa [hreg, hc] using h₁, listed_isSome, by simp [hreg]⟩
    · have hoff := h₁.cloned (c := c) fun hl => by simp [hlive] at hl
      rw [he]
      exact ⟨by simpa [hreg, hc, hlive] using hoff, listed_isSome, by simp [hreg]⟩

theorem Offers.registerCliCmd {arg : Option CmdPtr → Nat} (h : Offers r cs lost)
    (hlen : cs.length < UInt32.size) :
    Adds r ((registerCliCmd a cmd help f arg).run r).2 ((registerCliCmd a cmd help f arg).run r).1 a cs
      (cmd, help, Callback.of f (arg (some r.next))) lost := by
  have hi : r.items.length < UInt32.size := by
    rwa [← h.commands, List.length_map] at hlen
  refine h.adds (d := (registeredCmd cmd help f (arg (some r.next)) r.items.length).release)
    (registerCliCmd_run h.roster.inv h.roster.fresh hi) rfl ?_
  simp [Cmd.release]

theorem Offers.registerHelpCmd (h : Offers r cs lost) :
    Adds r ((cliCmdRegisterHelpCmd a).run r).2 ((cliCmdRegisterHelpCmd a).run r).1 a cs helpCommand
      (if a.creates r.evsipCmdl.isSome && !a.append then r.next :: lost else lost) := by
  refine h.adds (cliCmdRegisterHelpCmd_run h.roster.inv h.roster.fresh) rfl ?_
  simp [registeredCmd, Cmd.position, Cmd.callback, newCmd, Allocs.all, Cmd.zero]

theorem registerCliCmds_run (a : Nat → CmdAllocs) (e : CmdsEntry) :
    ((registerCliCmds a [e]).run r).2 = ((registerCliCmd (a e.index) e.cmd e.help
      (Callback.cliCmdClbk e.index).execF fun _ => e.index).run r).2 := by
  rw [registerCliCmds, StateT.run_bind]
  rcases (registerCliCmd (a e.index) e.cmd e.help (Callback.cliCmdClbk e.index).execF
    fun _ => e.index).run r with ⟨ret, r'⟩
  cases ret <;> rfl

namespace Offers

theorem conf (h : Offers r cs lost) (hlen : cs.length < UInt32.size) :
    Adds r ((Config.registerCliCmds a).run r).2 ((Config.registerCliCmds a).run r).1 a cs
      confCommand lost := by
  unfold Config.registerCliCmds confCommand
  exact h.registerCliCmd hlen

theorem dump (h : Offers r cs lost) (hlen : cs.length < UInt32.size) :
    Adds r ((Endp.endpInit a).run r).2 ((Endp.endpInit a).run r).1 a cs dumpCommand lost := by
  unfold Endp.endpInit Endp.registerCliCmds dumpCommand
  exact h.registerCliCmd hlen

theorem exit (core : Nat → CmdAllocs) (h : Offers r cs lost) (hlen : cs.length < UInt32.size) :
    ∃ ret, Adds r ((registerCliCmds core evsipCmds).run r).2 ret (core 0) cs exitCommand lost := by
  unfold evsipCmds exitCommand
  rw [registerCliCmds_run]
  exact ⟨_, h.registerCliCmd hlen⟩

end Offers

theorem Adds.length_lt {r' : Registry} {ret : Code} {c : Command}
    (_ : Adds r r' ret a cs c lost) {n : Nat} (hlen : cs.length ≤ n) :
    (cs ++ if a.registers r.evsipCmdl.isSome then [c] else []).length ≤ n + 1 := by
  split <;> simp <;> omega

theorem run_in_turn (w x y z : Cmdlst.Proc Code) :
    ((do let _ ← w; let _ ← x; let _ ← y; let _ ← z : Cmdlst.Proc Unit).run r).2 =
      (z.run (y.run (x.run (w.run r).2).2).2).2 := rfl

theorem startCommands_offers (a : StartAllocs) : ∃ lost,
    Offers ((startCommands a).run .init).2 (offered false a.commands) lost ∧
      (lost ≠ [] ↔ a.LosesHelp) := by
  have hrun : ((startCommands a).run .init).2 = ((registerCliCmds a.core evsipCmds).run
      ((Endp.endpInit a.dump).run ((cliCmdRegisterHelpCmd a.help).run
        ((Config.registerCliCmds a.conf).run .init).2).2).2).2 := run_in_turn ..
  have h₁ := Offers.init.conf (a := a.conf) (by decide)
  have n₁ := h₁.length_lt (Nat.le_refl 0)
  generalize ((Config.registerCliCmds a.conf).run .init).2 = r₁ at h₁ hrun
  have h₂ := h₁.offers.registerHelpCmd (a := a.help)
  have n₂ := h₂.length_lt n₁
  generalize ((cliCmdRegisterHelpCmd a.help).run r₁).2 = r₂ at h₂ hrun
  have h₃ := h₂.offers.dump (a := a.dump) (n₂.trans_lt (by decide))
  have n₃ := h₃.length_lt n₂
  generalize ((Endp.endpInit a.dump).run r₂).2 = r₃ at h₃ hrun
  obtain ⟨ret, h₄⟩ := h₃.offers.exit a.core (n₃.trans_lt (by decide))
  generalize ((registerCliCmds a.core evsipCmds).run r₃).2 = r₄ at h₄ hrun
  have hoff := h₄.offers
  rw [h₃.hasList, h₂.hasList, h₁.hasList] at hoff
  have hnone : Registry.init.evsipCmdl.isSome = false := rfl
  simp only [hnone, Bool.false_or, List.nil_append, List.append_assoc] at hoff
  rw [hrun]
  simp only [offered, StartAllocs.commands, Bool.false_or, List.append_nil]
  exact ⟨_, hoff, by simp [StartAllocs.LosesHelp]⟩

/-- After any start the list holds the commands whose own allocations succeeded, in order; the
help command alone can be left alive and unlisted. -/
theorem startCommands_listed (a : StartAllocs) :
    let r := ((startCommands a).run .init).2
    r.items.map (commandOf r) = offered false a.commands ∧ r.NoLate ∧
      ((∃ p, r.Alive p ∧ p ∉ r.items) ↔ a.LosesHelp) := by
  obtain ⟨lost, h, hlost⟩ := startCommands_offers a
  refine ⟨h.commands, h.noLate, ?_⟩
  simp only [h.lost, ← hlost]
  constructor
  · rintro ⟨p, hp⟩
    exact List.ne_nil_of_mem hp
  · exact List.exists_mem_of_ne_nil lost

end Evsip.Core
