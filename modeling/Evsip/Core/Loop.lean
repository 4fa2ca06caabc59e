import Evsip.Core.Effect
import Evsip.Cli.Bounds
import Evsip.Lib.Project
import Evsip.Register.Cleared

/-! Whole runs of the event loop. What the SIP stack delivers and what is typed do not disturb
each other, in whatever order they come. -/

namespace Evsip.Core
open CLib Endp Cmdlst Registry Cli Transition

def Event.ends : Event → Bool
  | .nua .rShutdown _ _ => true
  | .signal => true
  | _ => false

/-- The callback that an event calls through the command list, if it calls one. -/
def Glob.calls (s : Glob) : Event → Option Callback
  | .input i => inputCallback s.cli i
  | _ => none

/-- The event is no backspace on an empty line, which writes outside the line. -/
def Editable (s : Glob) (e : Event) : Prop := ∀ i, e.typed = some i → ¬ BackspaceOnEmpty s.cli i

/-- The end points, the commands and the line are sound. -/
structure Ready (s : Glob) : Prop where
  sound : Sound s
  bounded : Bounded s.cli

variable {s t u : Glob} {e : Event} {es es' : List Event}

/-! What one event does to each part -/

theorem view_register :
    Projects serverStep Register.registerStep
      (fun s store => Register.Inv store ∧ s.store.cleared = store.cleared) Event.request Sound where
  inv _ _ _ h hs := h.step hs
  own s e t i store h hstore hs hi := by
    cases (step_iff h).1 hs with
    | registered hrun =>
      cases hi
      obtain ⟨u, hu, hcleared⟩ :=
        Register.registerStep_cleared (i := (_, _)) h.store hstore.1 hstore.2 ⟨_, hrun⟩
      exact ⟨u, hu, hstore.1.step hu, hcleared⟩
    | logged _ _ h1 => cases ‹NuaEvent› <;> first | exact absurd rfl h1 | cases hi
    | _ => cases hi
  other s e t store h hstore hs hi := by
    cases (step_iff h).1 hs with
    | registered _ => cases hi
    | typed i =>
      obtain ⟨n, hafter⟩ := Glob.after_frame (s := s) (o := inputCallback s.cli i)
      rw [hafter]
      exact hstore
    | _ => exact hstore

theorem view_handler : Projects serverStep handlerStep (fun s cli => s.cli = cli) Event.typed
    Sound where
  inv _ _ _ h hs := h.step hs
  own s e t i cli h hcli hs hi := by
    cases (step_iff h).1 hs with
    | typed i =>
      cases hi
      exact ⟨_, rfl, by rw [← hcli]; rfl⟩
    | _ => cases hi
  other s e t cli h hcli hs hi := by
    cases (step_iff h).1 hs with
    | typed i => cases hi
    | _ => exact hcli

theorem Ready.step (h : Ready s) (hs : guarded serverStep Editable s e t) : Ready t := by
  refine ⟨h.sound.step hs.1, ?_⟩
  rcases htyped : e.typed with _ | i
  · rw [view_handler.other s e t s.cli h.sound rfl hs.1 htyped]
    exact h.bounded
  · obtain ⟨c, hc, rfl⟩ := view_handler.own s e t i s.cli h.sound rfl hs.1 htyped
    exact (bounded_step h.bounded hc).2 (hs.2 i htyped)

theorem step_config (h : Sound s) (hs : serverStep s e t) : t.config = s.config := by
  cases (step_iff h).1 hs with
  | typed i =>
    obtain ⟨n, hafter⟩ := Glob.after_frame (s := s) (o := inputCallback s.cli i)
    rw [hafter]
    rfl
  | _ => rfl

theorem step_rootEventLoop (h : Sound s) (hs : serverStep s e t) :
    t.rootEventLoop = s.rootEventLoop.map fun r => ⟨r.broken || e.ends⟩ := by
  have hsame : s.rootEventLoop = s.rootEventLoop.map fun r => ⟨r.broken || false⟩ := by
    rcases s.rootEventLoop with _ | ⟨_ | _⟩ <;> rfl
  have hbroken : s.broken.rootEventLoop = s.rootEventLoop.map fun r => ⟨r.broken || true⟩ := by
    rcases hr : s.rootEventLoop with _ | ⟨_ | _⟩ <;> rw [Glob.broken, hr] <;> rfl
  cases (step_iff h).1 hs with
  | shutDown a sip => exact hbroken
  | signal => exact hbroken
  | typed i =>
    obtain ⟨n, hafter⟩ := Glob.after_frame (s := s) (o := inputCallback s.cli i)
    rw [hafter]
    exact hsame
  | logged a sip h1 h2 h3 => cases ‹NuaEvent› <;> first | exact absurd rfl h3 | exact hsame
  | _ => exact hsame

theorem step_nua (h : Sound s) (hs : serverStep s e t) : t.nua = s.nua ∨
    s.calls e = some (.cliCmdClbk 0) ∧ t.nua = s.nua.map fun n => ⟨n.shutdowns + 1⟩ := by
  cases (step_iff h).1 hs with
  | typed i =>
    have hnua : ((s.after (inputCallback s.cli i)).withCli (handle i s.cli)).nua =
      (s.after (inputCallback s.cli i)).nua := rfl
    rw [Glob.calls, hnua]
    rcases inputCallback s.cli i with _ | c
    · exact .inl rfl
    rcases c with _ | _ | _ | _ | n
    · exact .inl rfl
    · exact .inl rfl
    · exact .inl rfl
    · rw [Glob.after, Glob.called]
      split_ifs
      · exact .inr ⟨rfl, rfl⟩
      · exact .inl rfl
    · exact .inl rfl
  | _ => exact .inl rfl

theorem serverStep_total (h : Sound s) (hi : e.request = none) : ∃ t, serverStep s e t := by
  rcases e with ⟨event, a, sip⟩ | i | _
  · cases event with
    | iRegister => cases hi
    | iInvite => exact ⟨_, (step_iff h).2 (.invited a sip)⟩
    | rShutdown => exact ⟨_, (step_iff h).2 (.shutDown a sip)⟩
    | _ => exact ⟨_, (step_iff h).2 (.logged a sip nofun nofun nofun)⟩
  · exact ⟨_, (step_iff h).2 (.typed i)⟩
  · exact ⟨_, (step_iff h).2 .signal⟩

/-! Runs -/

theorem run_config (h : Sound s) (hr : Run serverStep s es t) : t.config = s.config :=
  (hr.invariant (I := fun u => Sound u ∧ u.config = s.config)
    (fun _ _ _ hu hs => ⟨hu.1.step hs, (step_config hu.1 hs).trans hu.2⟩) ⟨h, rfl⟩).2

theorem run_rootEventLoop (h : Sound s) (hr : Run serverStep s es t) :
    t.rootEventLoop = s.rootEventLoop.map fun r => ⟨r.broken || es.any Event.ends⟩ := by
  induction hr with
  | nil s => rcases s.rootEventLoop with _ | ⟨_ | _⟩ <;> rfl
  | @cons s u _ e es hs _ ih =>
    rw [ih (h.step hs), step_rootEventLoop h hs, Option.map_map]
    simp [Function.comp_def, Bool.or_assoc]

theorem registerStep_det {a b c : Store} {i : Register.Allocs × Option Register.Sip}
    (hb : Register.registerStep a i b) (hc : Register.registerStep a i c) : b = c := by
  obtain ⟨r, hr⟩ := hb
  obtain ⟨r', hr'⟩ := hc
  cases hr.symm.trans hr'
  rfl

theorem register_lifts (s : Glob) (e : Event) (i : Register.Allocs × Option Register.Sip)
    (a b : Store) (hs : Sound s) (ha : Register.Inv a ∧ s.store.cleared = a.cleared)
    (hi : e.request = some i) (hstep : Register.registerStep a i b) : ∃ t, serverStep s e t := by
  obtain ⟨u, ⟨r, hrun⟩, -⟩ := Register.registerStep_cleared ha.1 hs.store ha.2.symm hstep
  rcases e with ⟨event, a, sip⟩ | i | _
  · cases event with
    | iRegister =>
      cases hi
      exact ⟨_, (step_iff hs).2 (.registered hrun)⟩
    | _ => cases hi
  · cases hi
  · cases hi

theorem run_parts (h : Ready s) (hr : Run (guarded serverStep Editable) s es t) :
    (∃ u, Run Register.registerStep s.store (es.filterMap Event.request) u ∧
      t.store.cleared = u.cleared) ∧
    Run handlerStep s.cli (es.filterMap Event.typed) t.cli ∧ Bounded t.cli ∧
    t.config = s.config := by
  have hready : ∀ s e t, Ready s → guarded serverStep Editable s e t → Ready t :=
    fun _ _ _ => Ready.step
  obtain ⟨u, hu, -, hcleared⟩ := view_register.run hr.of_guarded h.sound ⟨h.sound.store, rfl⟩
  obtain ⟨c, hc, rfl⟩ := view_handler.run hr.of_guarded h.sound rfl
  exact ⟨⟨u, hu, hcleared⟩, hc, (hr.invariant hready h).bounded, run_config h.sound hr.of_guarded⟩

theorem runs_iff (h : Ready s) : (∃ t, Run (guarded serverStep Editable) s es t) ↔
    (∃ u, Run Register.registerStep s.store (es.filterMap Event.request) u) ∧
      ∃ c, Run (guarded handlerStep fun c i => ¬ BackspaceOnEmpty c i) s.cli
        (es.filterMap Event.typed) c := by
  constructor
  · rintro ⟨t, hr⟩
    obtain ⟨⟨u, hu, -⟩, -⟩ := run_parts h hr
    have hkeys : Projects (guarded serverStep Editable)
        (guarded handlerStep fun c i => ¬ BackspaceOnEmpty c i) _ _ _ :=
      view_handler.restrict fun s e c i hc hi hedit => hc ▸ hedit i hi
    obtain ⟨c, hc, -⟩ := hkeys.run hr h.sound rfl
    exact ⟨⟨u, hu⟩, c, hc⟩
  · rintro ⟨⟨u, hu⟩, c, hc⟩
    obtain ⟨t, hr⟩ := view_register.lift register_lifts (fun s e => serverStep_total)
      (fun _ _ _ _ => registerStep_det) hu h.sound ⟨h.sound.store, rfl⟩
    refine ⟨t, view_handler.guard (fun s e c hcli hok i hi => hcli ▸ hok i hi) ?_ hr hc h.sound rfl⟩
    rintro c i d d' rfl rfl
    rfl

/-- Whatever fails in between, the end points are those of the REGISTERs alone and the editor
that of the bytes alone. Only a REGISTER can stop the loop from going on, if there is no backspace
on an empty line. -/
theorem loop_parts (h : Ready s) :
    (∀ t, Run (guarded serverStep Editable) s es t →
      (∃ u, Run Register.registerStep s.store (es.filterMap Event.request) u ∧
        t.store.cleared = u.cleared) ∧
      Run handlerStep s.cli (es.filterMap Event.typed) t.cli ∧ Bounded t.cli ∧
      t.config = s.config) ∧
    ((∃ t, Run (guarded serverStep Editable) s es t) ↔
      (∃ u, Run Register.registerStep s.store (es.filterMap Event.request) u) ∧
        ∃ c, Run (guarded handlerStep fun c i => ¬ BackspaceOnEmpty c i) s.cli
          (es.filterMap Event.typed) c) :=
  ⟨fun _ => run_parts h, runs_iff h⟩

theorem run_keys {c : Ctx} {is : List Input} (h : ∀ i ∈ is, i.read ≠ .byte 8) :
    ∃ d, Run (guarded handlerStep fun c i => ¬ BackspaceOnEmpty c i) c is d := by
  induction is generalizing c with
  | nil => exact ⟨c, .nil c⟩
  | cons i is ih =>
    obtain ⟨d, hd⟩ := ih (c := handle i c) fun j hj => h j (List.mem_cons_of_mem i hj)
    exact ⟨d, .cons ⟨rfl, fun hb => h i (by simp) hb.1⟩ hd⟩

/-! The program as it starts -/

def Glob.idle (r : Registry) (conf : Config.ConfigCtx) : Glob where
  rootEventLoop := some ⟨false⟩
  nua := some ⟨0⟩
  config := conf
  store := Store.init
  cli := (Ctx.init r).cleaned
  out := []

def Glob.started (a : StartAllocs) (conf : Config.ConfigCtx) : Glob :=
  .idle ((startCommands a).run .init).2 conf

theorem offered_sublist {l : List (CmdAllocs × Command)} {hasList : Bool} :
    (offered hasList l).Sublist (l.map Prod.snd) := by
  induction l generalizing hasList with
  | nil => exact .slnil
  | cons x l ih =>
    rcases x with ⟨a, c⟩
    rw [offered, List.map_cons]
    split
    · exact ih.cons_cons c
    · exact ih.cons c

theorem Offers.ready {r : Registry} {cs : List Command} {lost : List CmdPtr} (h : Offers r cs lost)
    (hcalls : ∀ c ∈ cs, c.2.2 ≠ none) (conf : Config.ConfigCtx) : Ready (.idle r conf) := by
  have hknown : ∀ p ∈ r.items, (commandOf r p).2.2 ≠ none := fun p hp =>
    hcalls _ (h.commands ▸ List.mem_map_of_mem hp)
  exact ⟨⟨Register.Inv.init, h.roster, hknown⟩, Bounded.init.cleaned⟩

theorem offered_calls (a : StartAllocs) : ∀ c ∈ offered false a.commands, c.2.2 ≠ none := by
  have hcalls : ∀ c ∈ a.commands.map Prod.snd, c.2.2 ≠ none := by
    simp [StartAllocs.commands, confCommand, helpCommand, dumpCommand, exitCommand]
  exact fun c hc => hcalls c (offered_sublist.subset hc)

theorem started_ready (a : StartAllocs) (conf : Config.ConfigCtx) : Ready (.started a conf) := by
  obtain ⟨lost, hoffers, -⟩ := startCommands_offers a
  exact hoffers.ready (offered_calls a) conf

def types (bs : List UInt8) : List Event := bs.map fun c => .input ⟨.byte c, true⟩

def exitEvents : List Event :=
  .nua .iRegister .all (some (.request Register.contactA 300)) ::
    types (exitCommand.1.bytes ++ [10]) ++ [.nua .rShutdown .all none]

theorem exitEvents_request :
    exitEvents.filterMap Event.request = [(.all, some (.request Register.contactA 300))] := rfl

theorem exitEvents_typed : exitEvents.filterMap Event.typed =
    (exitCommand.1.bytes ++ [10]).map fun c => ⟨.byte c, true⟩ := by decide +kernel

theorem exitEvents_runs : ∃ t, Run (guarded serverStep Editable) (.started .all .zero) exitEvents t := by
  rw [runs_iff (started_ready .all .zero), exitEvents_request, exitEvents_typed]
  exact ⟨⟨_, .cons Register.contactA_step (.nil _)⟩, run_keys (by decide +kernel)⟩

theorem loop_parts_exit :
    let s := Glob.started .all .zero
    (∃ t, Run (guarded serverStep Editable) s exitEvents t) ∧
    ∀ t, Run (guarded serverStep Editable) s exitEvents t →
      (∃ u, Run Register.registerStep Store.init [(.all, some (.request Register.contactA 300))] u ∧
        t.store.cleared = u.cleared) ∧
      Run handlerStep s.cli (exitEvents.filterMap Event.typed) t.cli ∧ Bounded t.cli ∧
      t.config = .zero :=
  ⟨exitEvents_runs, (loop_parts (started_ready .all .zero)).1⟩

end Evsip.Core
