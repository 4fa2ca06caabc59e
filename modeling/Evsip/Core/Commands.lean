import Evsip.Cmdlst.Help

/-! The commands the program registers while it starts, with the allocations of each, and the
list they end up in. -/

namespace Evsip.Core
open CLib Cmdlst Registry

/-- The functions an `exec_f` of the program points to, with the number `evsip_cli_cmd_clbk` reads
through its argument. -/
inductive Callback
  | cliCmdHelpClbk
  | configCmdDump
  | endpCmdDump
  | cliCmdClbk (index : Nat)
  deriving DecidableEq

def Callback.execF : Callback → Nat
  | cliCmdHelpClbk => 0
  | configCmdDump => 1
  | endpCmdDump => 2
  | cliCmdClbk _ => 3

/-- What is called through `exec_f` with the argument. -/
def Callback.of : Nat → Nat → Option Callback
  | 0, _ => some cliCmdHelpClbk
  | 1, _ => some configCmdDump
  | 2, _ => some endpCmdDump
  | 3, arg => some (cliCmdClbk arg)
  | _, _ => none

structure CmdAllocs where
  init : Cmdlst.Allocs
  append : Bool

def CmdAllocs.all : CmdAllocs := ⟨.all, true⟩

def registerCliCmd (a : CmdAllocs) (cmd help : CString) (execF : Nat) (arg : Option CmdPtr → Nat) :
    Cmdlst.Proc Code := do
  let (ret, pCmdCtx) ← cliCmdInit a.init cmd help 1 1
  if ret ≠ .success then
    return ret
  let ret ← cliCmdRegister a.append pCmdCtx (some execF) (arg pCmdCtx)
  if ret ≠ .success then
    cliCmdDestroy pCmdCtx
    return ret
  return ret

end Evsip.Core

namespace Evsip.Cmdlst
open CLib Evsip.Core

/-- Unlike the other commands, this one is not destroyed when it can not be registered. -/
def cliCmdRegisterHelpCmd (a : CmdAllocs) : Proc Code := do
  let (ret, pCmdCtx) ← cliCmdInit a.init (.ofBytes (bytes "help"))
    (.ofBytes (bytes "Help and list all available commands")) 1 1
  if ret ≠ .success then
    return ret
  let ret ← cliCmdRegister a.append pCmdCtx (some Callback.cliCmdHelpClbk.execF) 0
  if ret ≠ .success then
    return ret
  return .success

end Evsip.Cmdlst

namespace Evsip.Config
open CLib Evsip.Core

/-- `evsip_register_cli_cmds` of the configuration; there is only one configuration to point to. -/
def registerCliCmds (a : CmdAllocs) : Cmdlst.Proc Code :=
  registerCliCmd a (.ofBytes (bytes "conf")) (.ofBytes (bytes "Dump all conf"))
    Callback.configCmdDump.execF fun _ => 0

end Evsip.Config

namespace Evsip.Endp
open CLib Evsip.Core

def registerCliCmds (a : CmdAllocs) : Cmdlst.Proc Code :=
  registerCliCmd a (.ofBytes (bytes "dump")) (.ofBytes (bytes "Dump all registred endpoints"))
    Callback.endpCmdDump.execF fun pCmdCtx => pCmdCtx.getD 0

def endpInit (a : CmdAllocs) : Cmdlst.Proc Code := registerCliCmds a

end Evsip.Endp

namespace Evsip.Core
open CLib Cmdlst Registry

/-- `struct evsip_cmds_str`. -/
structure CmdsEntry where
  index : Nat
  cmd : CString
  help : CString

def evsipCmds : List CmdsEntry :=
  [⟨0, .ofBytes (bytes "exit"), .ofBytes (bytes "Exit and close EvSip Server")⟩]

/-- `evsip_register_cli_cmds` of the core. The first command that fails is the last one tried. -/
def registerCliCmds (a : Nat → CmdAllocs) : List CmdsEntry → Cmdlst.Proc Code
  | [] => return .success
  | e :: rest => do
    let ret ← registerCliCmd (a e.index) e.cmd e.help (Callback.cliCmdClbk e.index).execF
      fun _ => e.index
    if ret ≠ .success then
      return ret
    registerCliCmds a rest

/-! One registration -/

variable {r r' : Registry} {a : CmdAllocs} {cmd help : CString} {f arg : Nat}

def CmdAllocs.creates (a : CmdAllocs) (hasList : Bool) : Bool :=
  (hasList || a.init.vectorCreate) && a.init.homeClone && a.init.strdupCmd && a.init.strdupHelp

def registeredCmd (cmd help : CString) (f arg n : Nat) : Cmd :=
  ((newCmd .all cmd help 1 1).callback (some f) arg).position n

theorem listed_isSome {ok : Bool} :
    (r.listed ok).evsipCmdl.isSome = (r.evsipCmdl.isSome || ok) := by
  unfold Registry.listed
  rcases hl : r.evsipCmdl with _ | v
  · cases ok <;> rfl
  · simp [hl]

theorem setItems_self : r.setItems r.items = r := by
  rcases r with ⟨_, _, _ | _, _⟩ <;> rfl

theorem cliCmdInit_created : (cliCmdInit a.init cmd help 1 1).run r =
    if a.creates r.evsipCmdl.isSome then
      ((.success, some r.next), (r.listed a.init.vectorCreate).cloned (newCmd .all cmd help 1 1))
    else ((.errorOutOfResources, none), ((cliCmdInit a.init cmd help 1 1).run r).2) := by
  rw [cliCmdInit_run, cliCmdClone_run, CmdAllocs.creates, ← listed_isSome, listed_next]
  rcases (r.listed a.init.vectorCreate).evsipCmdl with _ | v
  · rfl
  · rcases a with ⟨⟨v, h, c, s⟩, _⟩
    cases h <;> cases c <;> cases s <;> rfl

variable (cmd help) in
theorem cliCmdInit_failed (h : a.creates r.evsipCmdl.isSome = false) :
    ((cliCmdInit a.init cmd help 1 1).run r).2 = r.listed a.init.vectorCreate ∨
      ∃ c : Cmd, c.live = false ∧
        ((cliCmdInit a.init cmd help 1 1).run r).2 = (r.listed a.init.vectorCreate).cloned c := by
  rw [cliCmdInit_run, cliCmdClone_run]
  rw [CmdAllocs.creates, ← listed_isSome] at h
  split
  · exact .inl rfl
  · next hl =>
    split
    · next hh =>
      refine .inr ⟨_, ?_, rfl⟩
      have hs : (a.init.strdupCmd && a.init.strdupHelp) = false := by
        simpa [Option.isSome_iff_ne_none, hl, hh] using h
      cases hc : a.init.strdupCmd <;> cases hp : a.init.strdupHelp <;> simp_all [newCmd]
    · exact .inl rfl

theorem cloned_inv {c : Cmd} (h : r.Inv) (hc : c.live = true → c.magic = cmdMagic) :
    (r.cloned c).Inv := by
  intro q hq
  rw [cloned_cmds]
  by_cases hqn : q = r.next
  · have hlive : c.live = true := by simpa [Alive, cloned_cmds, hqn] using hq
    simpa [hqn] using hc hlive
  · have hq' : r.Alive q := by simpa [Alive, cloned_cmds, hqn] using hq
    rw [if_neg hqn]
    exact ⟨(h q hq').1, Nat.lt_succ_of_lt (h q hq').2⟩

variable (f arg) in
theorem cliCmdRegister_cloned {c : Cmd} (ok : Bool) (h : r.Inv) (hd : ¬ r.Dangling)
    (hl : r.evsipCmdl ≠ none) (hlive : c.live = true) (hm : c.magic = cmdMagic) :
    (cliCmdRegister ok (some r.next) (some f) arg).run (r.cloned c) =
      let r₂ := r.cloned ((c.callback (some f) arg).position r.items.length)
      if ok then (.success, r₂.setItems (r.items ++ [r.next])) else (.errorOutOfResources, r₂) := by
  rw [cliCmdRegister_run (cloned_inv h fun _ => hm) (cloned_alive hlive)]
  have htouched : ∀ c : Cmd, (r.cloned c).touched = r.cloned c := fun c => if_neg hd
  have hl' : (r.cloned c).evsipCmdl ≠ none := hl
  have hitems : (r.cloned c).items = r.items := rfl
  simp only [cloned_setCmd, htouched, hitems, reduceCtorEq, if_false, hl']

theorem cliCmdDestroy_cloned {c : Cmd} (h : r.Inv) (hd : ¬ r.Dangling) (hlive : c.live = true)
    (hm : c.magic = cmdMagic) (hi : r.items.length ≤ c.index.toNat) :
    (cliCmdDestroy (some r.next)).run (r.cloned c) = ((), r.cloned c.release) := by
  rw [cliCmdDestroy_run (cloned_inv h fun _ => hm) (cloned_alive hlive)]
  have htouched : (r.cloned c).touched = r.cloned c := if_neg hd
  have hindex : ((r.cloned c).cmds r.next).index = c.index := by rw [cloned_cmds, if_pos rfl]
  have hitems : (r.cloned c).items = r.items := rfl
  -- the position behind the list is nobody's
  rw [htouched, hindex, hitems, List.eraseIdx_of_length_le hi, ← hitems, setItems_self,
    cloned_setCmd]

theorem cliCmdRegister_created (h : r.Inv) (hd : ¬ r.Dangling)
    (hc : a.creates r.evsipCmdl.isSome) : (cliCmdRegister a.append (some r.next) (some f) arg).run
        ((r.listed a.init.vectorCreate).cloned (newCmd .all cmd help 1 1)) =
      let r₂ := (r.listed a.init.vectorCreate).cloned (registeredCmd cmd help f arg r.items.length)
      if a.append then (.success, r₂.setItems (r.items ++ [r.next]))
      else (.errorOutOfResources, r₂) := by
  have hl₁ : (r.listed a.init.vectorCreate).evsipCmdl ≠ none := by
    rw [← Option.isSome_iff_ne_none, listed_isSome]
    simp only [CmdAllocs.creates, Bool.and_eq_true] at hc
    exact hc.1.1.1
  have hrun := cliCmdRegister_cloned f arg (c := newCmd .all cmd help 1 1) a.append
    (h.congr listed_cmds listed_next) (mt listed_dangling.1 hd) hl₁ rfl rfl
  rw [listed_next, listed_items] at hrun
  exact hrun

theorem registerCliCmd_run {arg : Option CmdPtr → Nat} (h : r.Inv) (hd : ¬ r.Dangling)
    (hi : r.items.length < UInt32.size) : (registerCliCmd a cmd help f arg).run r =
      let r₁ := r.listed a.init.vectorCreate
      let c := registeredCmd cmd help f (arg (some r.next)) r.items.length
      if a.creates r.evsipCmdl.isSome then
        if a.append then (.success, (r₁.cloned c).setItems (r.items ++ [r.next]))
        else (.errorOutOfResources, r₁.cloned c.release)
      else (.errorOutOfResources, ((cliCmdInit a.init cmd help 1 1).run r).2) := by
  rw [registerCliCmd]
  refine (StateT.run_bind ..).trans ?_
  rw [cliCmdInit_created]
  by_cases hc : a.creates r.evsipCmdl.isSome
  · have hdes := cliCmdDestroy_cloned (r := r.listed a.init.vectorCreate)
      (c := registeredCmd cmd help f (arg (some r.next)) r.items.length)
      (h.congr listed_cmds listed_next) (mt listed_dangling.1 hd) rfl rfl (by
        rw [listed_items]
        exact (UInt32.toNat_ofNat_of_lt' hi).ge)
    rw [listed_next] at hdes
    simp only [hc, if_true]
    refine (StateT.run_bind ..).trans ?_
    rw [cliCmdRegister_created h hd hc]
    cases a.append with
    | true => rfl
    | false =>
      refine (StateT.run_bind ..).trans ?_
      exact congrArg (fun x => (Code.errorOutOfResources, x.2)) hdes
  · rw [if_neg hc, if_neg hc]
    rfl

theorem cliCmdRegisterHelpCmd_run (h : r.Inv) (hd : ¬ r.Dangling) :
    (cliCmdRegisterHelpCmd a).run r =
      let r₁ := r.listed a.init.vectorCreate
      let c := registeredCmd (.ofBytes (bytes "help"))
        (.ofBytes (bytes "Help and list all available commands"))
        Callback.cliCmdHelpClbk.execF 0 r.items.length
      if a.creates r.evsipCmdl.isSome then
        if a.append then (.success, (r₁.cloned c).setItems (r.items ++ [r.next]))
        else (.errorOutOfResources, r₁.cloned c)
      else (.errorOutOfResources, ((cliCmdInit a.init (.ofBytes (bytes "help"))
        (.ofBytes (bytes "Help and list all available commands")) 1 1).run r).2) := by
  rw [cliCmdRegisterHelpCmd]
  refine (StateT.run_bind ..).trans ?_
  rw [cliCmdInit_created]
  by_cases hc : a.creates r.evsipCmdl.isSome
  · simp only [hc, if_true]
    refine (StateT.run_bind ..).trans ?_
    rw [cliCmdRegister_created h hd hc]
    cases a.append <;> rfl
  · rw [if_neg hc, if_neg hc]
    rfl

/-! What a registration leaves of the commands before it -/

/-- The name, the help message and the callback of a command. -/
abbrev Command := CString × CString × Option Callback

def commandOf (r : Registry) (p : CmdPtr) : Command :=
  ((r.cmds p).cmd, (r.cmds p).helpMsg,
    (r.cmds p).execF.bind fun f => Callback.of f (r.cmds p).execArg)

/-- The list offers these commands, nothing released was used, and the commands that are alive
but not listed are the `lost` ones. -/
structure Offers (r : Registry) (cs : List Command) (lost : List CmdPtr) : Prop where
  roster : Roster r
  commands : r.items.map (commandOf r) = cs
  noLate : r.NoLate
  lost : ∀ p, r.Alive p ∧ p ∉ r.items ↔ p ∈ lost

variable {cs : List Command} {lost : List CmdPtr} {c : Cmd}

namespace Offers

theorem init : Offers .init [] [] where
  roster := ⟨fun p hp => by simp [Alive, Registry.init, Cmd.zero] at hp, List.nodup_nil,
    by simp [Registry.items, Registry.init], by simp [Registry.items, Registry.init],
    by simp [Dangling, Registry.init]⟩
  commands := rfl
  noLate := by simp [NoLate, Registry.init]
  lost p := by simp [Alive, Registry.init, Cmd.zero]

theorem lt_next (h : Offers r cs lost) {p : CmdPtr} (hp : p ∈ r.items) : p < r.next :=
  (h.roster.inv p (h.roster.alive p hp)).2

theorem next_notMem (h : Offers r cs lost) : r.next ∉ r.items := fun hm => (h.lt_next hm).ne rfl

theorem next_not_lost (h : Offers r cs lost) : r.next ∉ lost := fun hm =>
  (h.roster.inv _ ((h.lost _).2 hm).1).2.ne rfl

theorem listed (h : Offers r cs lost) (ok : Bool) : Offers (r.listed ok) cs lost where
  roster := by
    refine ⟨h.roster.inv.congr listed_cmds listed_next, ?_, ?_, ?_, mt listed_dangling.1 h.roster.fresh⟩
    · rw [listed_items]
      exact h.roster.nodup
    · simpa [Alive, listed_cmds, listed_items] using h.roster.alive
    · simpa [listed_cmds, listed_items] using h.roster.callback
  commands := by
    rw [listed_items, ← h.commands]
    exact List.map_congr_left fun p _ => by rw [commandOf, commandOf, listed_cmds]
  noLate := (noLate_congr listed_trace).2 h.noLate
  lost p := by simpa [Alive, listed_cmds, listed_items] using h.lost p

theorem cloned (h : Offers r cs lost) (hc : c.live = true → c.magic = cmdMagic) :
    Offers (r.cloned c) cs (if c.live then r.next :: lost else lost) where
  roster := by
    have hne := fun p hp => (h.lt_next (p := p) hp).ne
    exact ⟨cloned_inv h.roster.inv hc, h.roster.nodup,
      fun p hp => by simpa [Alive, cloned_cmds, hne p hp] using h.roster.alive p hp,
      fun p hp => by simpa [cloned_cmds, hne p hp] using h.roster.callback p hp, h.roster.fresh⟩
  commands := by
    rw [← h.commands]
    refine List.map_congr_left fun p hp => ?_
    rw [commandOf, commandOf, cloned_cmds, if_neg (h.lt_next hp).ne]
  noLate := h.noLate
  lost p := by
    have hitems : (r.cloned c).items = r.items := rfl
    rw [Alive, cloned_cmds, hitems]
    by_cases hp : p = r.next
    · have hlost := h.next_not_lost
      have hnext := h.next_notMem
      subst hp
      cases hl : c.live <;> simp [hl, hlost, hnext]
    · have hlost := h.lost p
      rw [Alive] at hlost
      cases hl : c.live <;> simp [hp, hlost]

theorem appended (h : Offers r cs lost) (hlist : r.evsipCmdl ≠ none) (hlive : c.live = true)
    (hm : c.magic = cmdMagic) (hf : c.execF ≠ none) :
    Offers ((r.cloned c).setItems (r.items ++ [r.next]))
      (cs ++ [(c.cmd, c.helpMsg, c.execF.bind fun f => Callback.of f c.execArg)]) lost := by
  have hitems : ((r.cloned c).setItems (r.items ++ [r.next])).items = r.items ++ [r.next] :=
    setItems_items fun hn => absurd hn hlist
  have hne := fun p hp => (h.lt_next (p := p) hp).ne
  have hcmds : ∀ p, p ≠ r.next →
      ((r.cloned c).setItems (r.items ++ [r.next])).cmds p = r.cmds p := fun p hp => by
    rw [setItems_cmds, cloned_cmds, if_neg hp]
  have hself : ((r.cloned c).setItems (r.items ++ [r.next])).cmds r.next = c := by
    rw [setItems_cmds, cloned_cmds, if_pos rfl]
  have hcases : ∀ {P : CmdPtr → Prop}, (∀ p ∈ r.items, P p) → P r.next →
      ∀ p ∈ ((r.cloned c).setItems (r.items ++ [r.next])).items, P p := by
    intro P hold hnew p hp
    rw [hitems, List.mem_append, List.mem_singleton] at hp
    rcases hp with hp | rfl
    · exact hold p hp
    · exact hnew
  refine ⟨⟨(cloned_inv h.roster.inv fun _ => hm).congr rfl rfl, ?_,
    hcases (fun p hp => ?_) ?_, hcases (fun p hp => ?_) ?_, ?_⟩, ?_, h.noLate, fun p => ?_⟩
  · rw [hitems]
    exact List.nodup_append.2 ⟨h.roster.nodup, by simp, by simpa using hne⟩
  · rw [Alive, hcmds p (hne p hp)]
    exact h.roster.alive p hp
  · rw [Alive, hself]
    exact hlive
  · rw [hcmds p (hne p hp)]
    exact h.roster.callback p hp
  · rw [hself]
    exact hf
  · rw [setItems_dangling]
    exact h.roster.fresh
  · rw [hitems, List.map_append, List.map_singleton, commandOf, hself, ← h.commands]
    congr 1
    exact List.map_congr_left fun p hp => by rw [commandOf, commandOf, hcmds p (hne p hp)]
  · rw [hitems, Alive]
    by_cases hp : p = r.next
    · simp [hp, h.next_not_lost]
    · rw [hcmds p hp, ← h.lost p, Alive]
      simp [hp]

end Offers

end Evsip.Core
