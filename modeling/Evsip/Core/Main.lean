import Evsip.Core.Refinement
import Evsip.Core.Uri

/-! The program from its arguments to its end. Each part is started in turn; what fails on the
way leads to the end of all of them. -/

namespace Evsip.Core.Main
open CLib Endp Cmdlst Cli Transition

/-- What `getopt` gives for an option: `other` for one it does not know or that lacks its
argument. -/
inductive Opt
  | f (optarg : CString)
  | h
  | other
  deriving DecidableEq

/-- What the program meets: its arguments, the files, and which calls succeed. -/
structure Env where
  args : List Opt
  fopen : CString → Option (List UInt8)
  beyond : Nat → Nat → UInt8
  allocs : StartAllocs
  homeInit : Bool
  rootCreate : Bool
  nuaCreate : Bool
  sigint : Bool
  sigterm : Bool
  waitCreate : Bool
  rootRegister : Bool

/-- What the program has to give back. -/
inductive Resource
  | terminal
  | file
  | home
  | root
  | nua
  | wait
  | registration
  deriving DecidableEq

structure World where
  glob : Glob
  confFilePath : Option CString
  /-- `fd` of the configuration is not NULL. -/
  fd : Bool
  /-- `EVSIP_CLI_STATE_INIT` is set. -/
  stateInit : Bool
  uri : Option (List UInt8)
  held : List Resource

def World.init : World where
  glob := ⟨none, none, .zero, Store.init, .init .init, []⟩
  confFilePath := none
  fd := false
  stateInit := false
  uri := none
  held := []

abbrev Proc := StateT World (Except Fault)

def acquire (r : Resource) : Proc Unit := modify fun w => { w with held := r :: w.held }

def release (r : Resource) : Proc Unit := modify fun w => { w with held := w.held.erase r }

def modifyGlob (f : Glob → Glob) : Proc Unit := modify fun w => { w with glob := f w.glob }

def onGlob {α : Type} (x : Core.Proc α) : Proc α := fun w =>
  (x.run w.glob).map fun r => (r.1, { w with glob := r.2 })

def onCli {α : Type} (x : Cli.Proc α) : Proc α := do
  let r := x.run (← get).glob.cli
  modifyGlob fun s => { s with cli := r.2 }
  return r.1

def onReg {α : Type} (x : Cmdlst.Proc α) : Proc α := onCli (Cli.onReg x)

/-! The parts of the program, in the order in which they are started -/

def args : List Opt → Proc Code
  | [] => return .success
  | .f optarg :: rest => do
    modify fun w => { w with confFilePath := some optarg }
    args rest
  -- the usage is shown, and the program goes on
  | .h :: rest => args rest
  | .other :: _ => return .errorBadParam

def cliInit : Proc Code := do
  acquire .terminal
  modify fun w => { w with stateInit := true }
  return .success

def configInit (env : Env) : Proc Code := do
  let w ← get
  let (ret, c) := Config.configInit w.glob.config w.confFilePath
  modifyGlob fun s => { s with config := c }
  let _ ← onReg (Config.registerCliCmds env.allocs.conf)
  return ret

def configStartParse (env : Env) : Proc Code := do
  let (ret, p) := Config.configStartParse env.fopen env.beyond (← get).glob.config
  modifyGlob fun s => { s with config := p.config }
  -- it succeeds if the file is opened, and the file stays open
  if ret = .success then
    acquire .file
    modify fun w => { w with fd := true }
  return ret

def logInit : Proc Code := return .success

def init (env : Env) : Proc Code := do
  if !env.homeInit then
    return .errorOutOfResources
  acquire .home
  if !env.rootCreate then
    return .errorOutOfResources
  acquire .root
  modifyGlob fun s => { s with rootEventLoop := some ⟨false⟩ }
  modify fun w => { w with uri := some (listenUri w.glob.config) }
  if !env.nuaCreate then
    return .errorOutOfResources
  acquire .nua
  modifyGlob fun s => { s with nua := some ⟨0⟩ }
  return .success

inductive SigCode
  | success
  | errorBadParam
  | errorUninitialized
  deriving DecidableEq

def sigInit (env : Env) : Proc SigCode := do
  if (← get).glob.rootEventLoop.isNone then
    return .errorBadParam
  if !env.sigint then
    return .errorUninitialized
  if !env.sigterm then
    return .errorUninitialized
  return .success

def cliStart (env : Env) : Proc Code := do
  if !env.waitCreate then
    return .errorOutOfResources
  acquire .wait
  if !env.rootRegister then
    return .errorOutOfResources
  acquire .registration
  let _ ← onReg (cliCmdRegisterHelpCmd env.allocs.help)
  onCli (cliPrompt true)
  return .success

/-- `su_root_run`: the loop hands over what comes until it is told to end. -/
def suRootRun : List Core.Event → Core.Proc Unit
  | [] => return ()
  | e :: es => do
    if (← get).rootEventLoop = some ⟨true⟩ then
      return ()
    handleEvent e
    suRootRun es

/-- `evsip_start`, with no code while the loop runs. -/
def start (env : Env) (es : List Core.Event) : Proc (Option Code) := do
  if (← get).glob.rootEventLoop.isNone then
    return some .errorOutOfResources
  let _ ← onReg (Endp.endpInit env.allocs.dump)
  let _ ← onReg (registerCliCmds env.allocs.core evsipCmds)
  onGlob (suRootRun es)
  if (← get).glob.rootEventLoop = some ⟨true⟩ then
    return some .success
  return none

def cliStop : Proc Code := do
  release .registration
  release .wait
  return .success

def cliDeinit : Proc Unit := do
  onReg cliCmdDestroyAll
  if (← get).stateInit then
    release .terminal

def configDeinit : Proc Code := do
  if !(← get).fd then
    return .errorInvalidHandle
  release .file
  return .success

def deinit : Proc Unit := do
  if (← get).glob.rootEventLoop.isSome then
    release .root
    modifyGlob fun s => { s with rootEventLoop := none }
  release .home

inductive Exit
  | running
  | success
  | failure
  deriving DecidableEq

def leaveError : Proc Exit := do
  cliDeinit
  let _ ← configDeinit
  deinit
  return .failure

/-- `main` behind the configuration. -/
def serve (env : Env) (es : List Core.Event) : Proc Exit := do
  if (← logInit) ≠ .success then
    return ← leaveError
  if (← init env) ≠ .success then
    return ← leaveError
  if (← sigInit env) ≠ .success then
    return ← leaveError
  if (← cliStart env) ≠ .success then
    return ← leaveError
  match ← start env es with
  | none => return .running
  | some ret =>
    if ret ≠ .success then
      return ← leaveError
    let _ ← cliStop
    return .success

def main (env : Env) (es : List Core.Event) : Proc Exit := do
  if (← args env.args) ≠ .success then
    return ← leaveError
  if (← cliInit) ≠ .success then
    return ← leaveError
  if (← configInit env) ≠ .success then
    return ← leaveError
  -- a file that can not be read is only reported
  let _ ← configStartParse env
  serve env es

/-! What each part does -/

def lastPath (path : Option CString) : List Opt → Option CString
  | [] => path
  | .f optarg :: rest => lastPath (some optarg) rest
  | .h :: rest => lastPath path rest
  | .other :: _ => path

namespace Env

/-- What keeps the program from starting. -/
def Fatal (env : Env) : Prop :=
  .other ∈ env.args ∨ (env.homeInit && env.rootCreate && env.nuaCreate && env.sigint &&
    env.sigterm && env.waitCreate && env.rootRegister) = false

def content (env : Env) : Option (List UInt8) :=
  env.fopen (Config.confPath (lastPath none env.args))

def config (env : Env) : Config.ConfigCtx :=
  (Config.configStartParse env.fopen env.beyond
    (Config.configInit .zero (lastPath none env.args)).2).2.config

end Env

namespace World

def hold (w : World) (r : Resource) : World := { w with held := r :: w.held }

end World

variable {env : Env} {w : World} {es : List Core.Event} {opts : List Opt}

theorem args_run : (args opts).run w = .ok
    (if .other ∈ opts then .errorBadParam else .success,
      { w with confFilePath := lastPath w.confFilePath opts }) := by
  induction opts generalizing w with
  | nil => rfl
  | cons o opts ih =>
    cases o with
    | f optarg =>
      have hrun := ih (w := { w with confFilePath := some optarg })
      simp only [List.mem_cons, reduceCtorEq, false_or]
      exact hrun
    | h =>
      simp only [List.mem_cons, reduceCtorEq, false_or]
      exact ih
    | other =>
      simp only [List.mem_cons, true_or, if_true]
      rfl

def configured (env : Env) : World where
  glob := ⟨none, none, (Config.configInit .zero (lastPath none env.args)).2, Store.init,
    .init ((Config.registerCliCmds env.allocs.conf).run .init).2, []⟩
  confFilePath := lastPath none env.args
  fd := false
  stateInit := true
  uri := none
  held := [.terminal]

def parsed (env : Env) : World :=
  { configured env with
    glob := { (configured env).glob with config := env.config }
    fd := env.content.isSome
    held := if env.content.isSome then [.file, .terminal] else [.terminal] }

theorem configInit_run : (configInit env).run { World.init with
      confFilePath := lastPath none env.args, stateInit := true, held := [.terminal] } =
    .ok (.success, configured env) := rfl

theorem configStartParse_fst (env : Env) : (Config.configStartParse env.fopen env.beyond
    (configured env).glob.config).1 = .success ↔ env.content.isSome := by
  have hfile : (configured env).glob.config.filePath =
    some (Config.confPath (lastPath none env.args)) := rfl
  rw [Config.configStartParse, hfile]
  dsimp only
  rw [if_neg (Config.confPath_ne_nil _), Env.content]
  cases env.fopen (Config.confPath (lastPath none env.args)) <;> simp

theorem configStartParse_run (env : Env) : ∃ ret,
    (configStartParse env).run (configured env) = .ok (ret, parsed env) := by
  have hret := configStartParse_fst env
  have hconfig : env.config = (Config.configStartParse env.fopen env.beyond
    (configured env).glob.config).2.config := rfl
  rw [configStartParse, StateT.run_bind, StateT.run_get, Proc.pure_eq_ok, Proc.ok_bind, parsed,
    hconfig]
  dsimp only
  generalize Config.configStartParse env.fopen env.beyond (configured env).glob.config = p at *
  rcases p with ⟨ret, p⟩
  rcases hfile : env.content with _ | content
  · have hne : ret ≠ .success := fun h => by simpa [hfile] using hret.1 h
    dsimp only
    rw [if_neg hne]
    exact ⟨ret, rfl⟩
  · have hs : ret = .success := hret.2 (by rw [hfile]; rfl)
    dsimp only
    rw [if_pos hs]
    exact ⟨ret, rfl⟩

theorem main_run (h : .other ∉ env.args) :
    (main env es).run .init = (serve env es).run (parsed env) := by
  have hargs : (args env.args).run .init =
      .ok (.success, { World.init with confFilePath := lastPath none env.args }) := by
    rw [args_run, if_neg h]
    rfl
  have hcli : cliInit.run { World.init with confFilePath := lastPath none env.args } =
    .ok (.success, { World.init with
      confFilePath := lastPath none env.args, stateInit := true, held := [.terminal] }) := rfl
  obtain ⟨ret, hparse⟩ := configStartParse_run env
  rw [main, Proc.run_bind_ok hargs, if_neg (by simp), Proc.run_bind_ok hcli, if_neg (by simp),
    Proc.run_bind_ok configInit_run, if_neg (by simp), Proc.run_bind_ok hparse]

/-! The end after a failure -/

def World.given (w : World) : List Resource :=
  let l := if w.stateInit then w.held.erase .terminal else w.held
  let l := if w.fd then l.erase .file else l
  let l := if w.glob.rootEventLoop.isSome then l.erase .root else l
  l.erase .home

theorem leaveError_run (w : World) :
    ∃ w', leaveError.run w = .ok (.failure, w') ∧ w'.held = w.given := by
  rcases w with ⟨⟨root, _, _, _, _, _⟩, _, fd, stateInit, _, _⟩
  cases stateInit <;> cases fd <;> cases root <;> exact ⟨_, rfl, rfl⟩

def listening (env : Env) : World :=
  { parsed env with
    glob := { (parsed env).glob with rootEventLoop := some ⟨false⟩, nua := some ⟨0⟩ }
    uri := some (listenUri env.config)
    held := .nua :: .root :: .home :: (parsed env).held }

def waiting (env : Env) : World :=
  { listening env with
    glob := .idle ((cliCmdRegisterHelpCmd env.allocs.help).run
      ((Config.registerCliCmds env.allocs.conf).run .init).2).2 env.config
    held := .registration :: .wait :: (listening env).held }

theorem given_eq (l : List Resource) (hinit : w.stateInit = true)
    (hheld : w.held = l ++ if w.fd then [.file, .terminal] else [.terminal])
    (hl : .terminal ∉ l ∧ .file ∉ l) :
    w.given = (if w.glob.rootEventLoop.isSome then l.erase .root else l).erase .home := by
  have hfile :
      (if w.fd then (w.held.erase .terminal).erase .file else w.held.erase .terminal) = l := by
    rw [hheld, List.erase_append_right _ hl.1]
    cases w.fd with
    | false => exact List.append_nil l
    | true =>
      rw [if_pos rfl, if_pos rfl, List.erase_append_right _ hl.2]
      exact List.append_nil l
  rw [World.given, hinit, if_pos rfl]
  exact congrArg (fun l => (if w.glob.rootEventLoop.isSome then l.erase .root else l).erase .home)
    hfile

theorem init_run (hh : env.homeInit = true) (hr : env.rootCreate = true)
    (hn : env.nuaCreate = true) : (init env).run (parsed env) = .ok (.success, listening env) := by
  unfold init
  rw [hh, hr, hn]
  rfl

theorem init_failed (h : (env.homeInit && env.rootCreate && env.nuaCreate) = false) :
    ∃ w, (init env).run (parsed env) = .ok (.errorOutOfResources, w) ∧ w.given = [] := by
  unfold init
  rcases hh : env.homeInit with _ | _
  · exact ⟨_, rfl, given_eq [] rfl rfl (by decide)⟩
  rcases hr : env.rootCreate with _ | _
  · exact ⟨_, rfl, given_eq [.home] rfl rfl (by decide)⟩
  rcases hn : env.nuaCreate with _ | _
  · exact ⟨_, rfl, given_eq [.root, .home] rfl rfl (by decide)⟩
  · simp [hh, hr, hn] at h

theorem sigInit_run : (sigInit env).run (listening env) =
    .ok (if env.sigint && env.sigterm then .success else .errorUninitialized, listening env) := by
  unfold sigInit
  cases env.sigint <;> cases env.sigterm <;> rfl

theorem cliStart_run (hw : env.waitCreate = true) (hr : env.rootRegister = true) :
    (cliStart env).run (listening env) = .ok (.success, waiting env) := by
  unfold cliStart
  rw [hw, hr]
  rfl

theorem cliStart_failed (h : (env.waitCreate && env.rootRegister) = false) :
    ∃ w, (cliStart env).run (listening env) = .ok (.errorOutOfResources, w) ∧
      w.given = (if env.waitCreate then [.wait] else []) ++ [.nua] := by
  unfold cliStart
  rcases hw : env.waitCreate with _ | _
  · exact ⟨_, rfl, given_eq [.nua, .root, .home] rfl rfl (by decide)⟩
  rcases hr : env.rootRegister with _ | _
  · exact ⟨_, rfl, given_eq [.wait, .nua, .root, .home] rfl rfl (by decide)⟩
  · simp [hw, hr] at h

def Env.agent (env : Env) : Bool :=
  .other ∉ env.args && env.homeInit && env.rootCreate && env.nuaCreate
def Env.waits (env : Env) : Bool := env.agent && env.sigint && env.sigterm && env.waitCreate

/-! The program as a whole -/

def serving (env : Env) : World :=
  { waiting env with glob := .started env.allocs env.config }

theorem onReg_idle {α : Type} {r : Registry} {conf : Config.ConfigCtx} (h : w.glob = .idle r conf)
    (x : Cmdlst.Proc α) :
    (onReg x).run w = .ok ((x.run r).1, { w with glob := .idle (x.run r).2 conf }) := by
  rcases w with ⟨_, _, _, _, _, _⟩
  cases h
  rfl

theorem start_idle {r : Registry} {conf : Config.ConfigCtx} (h : w.glob = .idle r conf) :
    (start env es).run w = ((suRootRun es).run (.idle ((registerCliCmds env.allocs.core
      evsipCmds).run ((Endp.endpInit env.allocs.dump).run r).2).2 conf)).map fun x =>
        (if x.2.rootEventLoop = some ⟨true⟩ then some .success else none,
          { w with glob := x.2 }) := by
  have hget : ∀ w, (get : Proc World).run w = .ok (w, w) := fun _ => rfl
  have hroot : w.glob.rootEventLoop.isNone = false := by rw [h]; rfl
  have hdump := onReg_idle h (Endp.endpInit env.allocs.dump)
  generalize (Endp.endpInit env.allocs.dump).run r = x at *
  have hcore := onReg_idle (w := { w with glob := .idle x.2 conf }) rfl
    (registerCliCmds env.allocs.core evsipCmds)
  generalize (registerCliCmds env.allocs.core evsipCmds).run x.2 = y at *
  rw [start, Proc.run_bind_ok (hget _), if_neg (by simp [hroot]), Proc.run_bind_ok hdump,
    Proc.run_bind_ok hcore, StateT.run_bind]
  have hloop : (onGlob (suRootRun es)).run { w with glob := .idle y.2 conf } =
    ((suRootRun es).run (.idle y.2 conf)).map fun r => (r.1, { w with glob := r.2 }) := rfl
  rw [hloop]
  rcases (suRootRun es).run (.idle y.2 conf) with e | ⟨⟨⟩, s⟩
  · rfl
  · simp only [Except.map, Proc.ok_bind, Proc.run_bind_ok (hget _)]
    split_ifs <;> rfl

theorem start_run : (start env es).run (waiting env) =
    ((suRootRun es).run (.started env.allocs env.config)).map fun x =>
      (if x.2.rootEventLoop = some ⟨true⟩ then some .success else none,
        { serving env with glob := x.2 }) := by
  have hreg : ((startCommands env.allocs).run .init).2 = _ := run_in_turn ..
  rw [start_idle rfl, Glob.started, hreg]
  rfl

theorem logInit_run : logInit.run w = .ok (.success, w) := rfl

theorem serve_failed (h : (init env).run (parsed env) = .ok (.errorOutOfResources, w)) :
    (serve env es).run (parsed env) = leaveError.run w := by
  rw [serve, Proc.run_bind_ok logInit_run, if_neg (by simp), Proc.run_bind_ok h, if_pos (by simp)]

section listening
variable (hinit : (init env).run (parsed env) = .ok (.success, listening env))
include hinit

theorem serve_failed_sig (h : (env.sigint && env.sigterm) = false) :
    (serve env es).run (parsed env) = leaveError.run (listening env) := by
  have hsig : (sigInit env).run (listening env) = .ok (.errorUninitialized, listening env) := by
    rw [sigInit_run, h]
    rfl
  rw [serve, Proc.run_bind_ok logInit_run, if_neg (by simp), Proc.run_bind_ok hinit,
    if_neg (by simp), Proc.run_bind_ok hsig, if_pos (by simp)]

variable (h : (env.sigint && env.sigterm) = true)
include h

theorem serve_failed_cli
    (hcli : (cliStart env).run (listening env) = .ok (.errorOutOfResources, w)) :
    (serve env es).run (parsed env) = leaveError.run w := by
  rw [serve, Proc.run_bind_ok logInit_run, if_neg (by simp), Proc.run_bind_ok hinit,
    if_neg (by simp), Proc.run_bind_ok sigInit_run, h, if_pos rfl, if_neg (by simp),
    Proc.run_bind_ok hcli, if_pos (by simp)]

theorem serve_run (hcli : (cliStart env).run (listening env) = .ok (.success, waiting env)) :
    (serve env es).run (parsed env) =
      ((suRootRun es).run (.started env.allocs env.config)).map fun r =>
        if r.2.rootEventLoop = some ⟨true⟩ then
          (.success, { serving env with glob := r.2, held := (listening env).held })
        else (.running, { serving env with glob := r.2 }) := by
  rw [serve, Proc.run_bind_ok logInit_run, if_neg (by simp), Proc.run_bind_ok hinit,
    if_neg (by simp), Proc.run_bind_ok sigInit_run, h, if_pos rfl, if_neg (by simp),
    Proc.run_bind_ok hcli, if_neg (by simp), StateT.run_bind, start_run]
  rcases (suRootRun es).run (.started env.allocs env.config) with e | ⟨⟨⟩, s⟩
  · rfl
  · by_cases hs : s.rootEventLoop = some ⟨true⟩
    · simp only [Except.map, hs, if_true]
      rfl
    · simp only [Except.map, hs, if_false]
      rfl

end listening

theorem fatal_iff : env.Fatal ↔ .other ∈ env.args ∨ (env.homeInit && env.rootCreate &&
    env.nuaCreate) = false ∨ (env.sigint && env.sigterm) = false ∨
    (env.waitCreate && env.rootRegister) = false := by
  unfold Env.Fatal
  grind

theorem main_started (h : ¬ env.Fatal) : (main env es).run .init =
    ((suRootRun es).run (.started env.allocs env.config)).map fun r =>
      if r.2.rootEventLoop = some ⟨true⟩ then
        (.success, { serving env with glob := r.2, held := (listening env).held })
      else (.running, { serving env with glob := r.2 }) := by
  rw [fatal_iff] at h
  simp only [not_or, Bool.not_eq_false, Bool.and_eq_true] at h
  obtain ⟨hargs, ⟨⟨hhome, hroot⟩, hnua⟩, hsig, hwait, hreg⟩ := h
  rw [main_run hargs, serve_run (init_run hhome hroot hnua) (by simp [hsig])
    (cliStart_run hwait hreg)]

theorem main_failed (es : List Core.Event) (h : env.Fatal) : ∃ w,
    (main env es).run .init = .ok (.failure, w) ∧
    w.held = (if env.waits then [.wait] else []) ++ if env.agent then [.nua] else [] := by
  by_cases hargs : .other ∈ env.args
  · have hrun : (args env.args).run .init =
        .ok (.errorBadParam, { World.init with confFilePath := lastPath none env.args }) := by
      rw [args_run, if_pos hargs]
      rfl
    obtain ⟨w, hw, hheld⟩ :=
      leaveError_run { World.init with confFilePath := lastPath none env.args }
    rw [main, Proc.run_bind_ok hrun, if_pos (by simp)]
    refine ⟨w, hw, hheld.trans ?_⟩
    rw [Env.waits, Env.agent, decide_eq_false (not_not.2 hargs)]
    rfl
  have hagent : env.agent = (env.homeInit && env.rootCreate && env.nuaCreate) := by
    rw [Env.agent, decide_eq_true hargs, Bool.true_and]
  rw [main_run hargs, Env.waits, hagent]
  rcases hinit : env.homeInit && env.rootCreate && env.nuaCreate with _ | _
  · obtain ⟨w, hrun, hgiven⟩ := init_failed hinit
    obtain ⟨w', hw, hheld⟩ := leaveError_run w
    exact ⟨w', (serve_failed hrun).trans hw, hheld.trans hgiven⟩
  have hlisten : (init env).run (parsed env) = .ok (.success, listening env) := by
    simp only [Bool.and_eq_true] at hinit
    exact init_run hinit.1.1 hinit.1.2 hinit.2
  rw [Bool.true_and]
  rcases hsig : env.sigint && env.sigterm with _ | _
  · obtain ⟨w, hw, hheld⟩ := leaveError_run (listening env)
    refine ⟨w, (serve_failed_sig hlisten hsig).trans hw, hheld.trans ?_⟩
    exact given_eq [.nua, .root, .home] rfl rfl (by decide)
  · rcases hcli : env.waitCreate && env.rootRegister with _ | _
    · obtain ⟨w, hrun, hgiven⟩ := cliStart_failed hcli
      obtain ⟨w', hw, hheld⟩ := leaveError_run w
      exact ⟨w', (serve_failed_cli hlisten hsig hrun).trans hw, hheld.trans hgiven⟩
    · rw [fatal_iff, hinit, hsig, hcli] at h
      simp [hargs] at h

/-- A start fails exactly when one of its fatal steps does. It then gives everything back but the
user agent, and the wait for the terminal that could not be registered. -/
theorem main_failure (env : Env) (es : List Core.Event) :
    ((∃ w, (main env es).run .init = .ok (.failure, w)) ↔ env.Fatal) ∧
    ∀ w, (main env es).run .init = .ok (.failure, w) →
      w.held = (if env.waits then [.wait] else []) ++ if env.agent then [.nua] else [] := by
  by_cases hfatal : env.Fatal
  · obtain ⟨w, hw, hheld⟩ := main_failed es hfatal
    refine ⟨iff_of_true ⟨w, hw⟩ hfatal, fun w' hw' => ?_⟩
    cases hw.symm.trans hw'
    exact hheld
  · have hnot : ∀ w, (main env es).run .init ≠ .ok (.failure, w) := fun w hw => by
      rw [main_started hfatal] at hw
      rcases hloop : (suRootRun es).run (.started env.allocs env.config) with e | ⟨⟨⟩, s⟩
      · rw [hloop] at hw
        cases hw
      · rw [hloop] at hw
        simp only [Except.map] at hw
        split_ifs at hw <;> cases hw
    exact ⟨iff_of_false (fun ⟨w, hw⟩ => hnot w hw) hfatal, fun w hw => absurd hw (hnot w)⟩

theorem suRootRun_serve {cs : List Command} {conf : Config.ConfigCtx} {s : Glob} {a : Server}
    (h : Refines cs conf s a) (hr : Regulars cs conf es a) :
    match Server.serve cs conf es a with
    | .ok b => ∃ t, (suRootRun es).run s = .ok ((), t) ∧ Refines cs conf t b
    | .error f => (suRootRun es).run s = .error f := by
  induction es generalizing s a with
  | nil => exact ⟨s, rfl, h⟩
  | cons e es ih =>
    have hget : (get : Core.Proc Glob).run s = .ok (s, s) := rfl
    rw [suRootRun, Proc.run_bind_ok hget, h.root, Server.serve]
    rcases hended : a.ended with _ | _
    · obtain ⟨hregular, hrest⟩ := hr hended
      rw [if_neg (by simp), if_neg (by simp)]
      rcases hnext : a.next cs conf e with f | b
      · rw [StateT.run_bind, h.crash hnext]
        rfl
      · obtain ⟨t, ht⟩ := h.progress hnext
        rw [Proc.run_bind_ok ht]
        exact ih (h.step ht ⟨hregular, hnext⟩) (hrest b hnext)
    · rw [if_pos rfl, if_pos rfl]
      exact ⟨s, rfl, h⟩

/-- When nothing keeps it from starting, the program does what the server does that its users see,
to its end or its crash, and gives back two things only. -/
theorem main_serves (h : ¬ env.Fatal)
    (hes : Regulars (offered false env.allocs.commands) env.config es .init) :
    ((main env es).run .init).map (fun r => (r.1, r.2.glob.out, r.2.uri, r.2.held)) =
      (Server.serve (offered false env.allocs.commands) env.config es .init).map fun b =>
        (if b.ended then .success else .running, b.out, some (listenUri env.config),
          (if b.ended then [] else [.registration, .wait]) ++ [.nua, .root, .home] ++
            if env.content.isSome then [.file, .terminal] else [.terminal]) := by
  have hloop := suRootRun_serve (started_refines env.allocs env.config) hes
  rw [main_started h]
  rcases hserve : Server.serve (offered false env.allocs.commands) env.config es .init with f | b
  · rw [hserve] at hloop
    rw [hloop]
    rfl
  · rw [hserve] at hloop
    obtain ⟨t, hrun, href⟩ := hloop
    rw [hrun]
    simp only [Except.map, href.root]
    rcases b.ended with _ | _
    · rw [if_neg (by simp)]
      exact congrArg (fun o => Except.ok (_, o, _, _)) href.out
    · rw [if_pos rfl]
      exact congrArg (fun o => Except.ok (_, o, _, _)) href.out

def Env.plain : Env :=
  ⟨[], fun _ => none, fun _ _ => 0, .all, true, true, true, true, true, true, true⟩

theorem main_serves_request :
    let es : List Core.Event := [.nua .iRegister .all (some (.request Register.contactA 300)),
      .nua .iInvite .all none, .signal]
    ((main .plain es).run .init).map (fun r => (r.1, r.2.glob.out, r.2.uri, r.2.held)) =
      .ok (.success, Server.registered.out, some (listenUri Env.plain.config),
        [.nua, .root, .home, .terminal]) :=
  main_serves (by simp [fatal_iff, Env.plain]) (by simp [Regulars, Regular])

end Evsip.Core.Main
