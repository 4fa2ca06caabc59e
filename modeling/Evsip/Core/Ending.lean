import Evsip.Core.Typing

/-! What ends the loop: a signal, or an exit command and the answer of the stack to it. -/

namespace Evsip.Core
open CLib Endp Cmdlst Cli Register Transition

/-- `nua_r_shutdown` is the answer of the stack to a call of `nua_shutdown`. -/
def StackAnswers (s : Glob) (es : List Event) : Prop :=
  ∀ pre a sip post u, es = pre ++ .nua .rShutdown a sip :: post → Run serverStep s pre u →
    u.nua ≠ some ⟨0⟩

/-- An exit command is run by the line that an event ends. -/
def Exits (s : Glob) (es : List Event) : Prop :=
  ∃ pre e post u, es = pre ++ e :: post ∧ Run serverStep s pre u ∧
    u.calls e = some (.cliCmdClbk 0)

variable {s t u : Glob} {e : Event} {es : List Event}

theorem run_nua (h : Sound s) (hr : Run serverStep s es t) : t.nua = s.nua ∨ Exits s es := by
  induction hr with
  | nil s => exact .inl rfl
  | @cons s u _ e es hs _ ih =>
    rcases step_nua h hs with hnua | ⟨hexit, -⟩
    · rcases ih (h.step hs) with hrest | ⟨pre, e', post, v, rfl, hv, hc⟩
      · exact .inl (hrest.trans hnua)
      · exact .inr ⟨e :: pre, e', post, v, rfl, .cons hs hv, hc⟩
    · exact .inr ⟨[], e, es, s, rfl, .nil s, hexit⟩

theorem Exits.append {es : List Event} (h : Exits s es) (es' : List Event) :
    Exits s (es ++ es') := by
  obtain ⟨pre, e, post, u, rfl, hu, hc⟩ := h
  exact ⟨pre, e, post ++ es', u, by simp, hu, hc⟩

/-- A running loop is told to end exactly by a signal or the answer to a shutdown, and a stack that
was not asked to shut down before is asked by a typed exit command only. -/
theorem loop_ends (h : Ready s) (hs : s.rootEventLoop = some ⟨false⟩) (hn : s.nua = some ⟨0⟩)
    (hstack : StackAnswers s es) (hr : Run (guarded serverStep Editable) s es t) :
    (t.rootEventLoop = some ⟨true⟩ ↔ ∃ e ∈ es, e.ends = true) ∧
    (t.rootEventLoop = some ⟨true⟩ → .signal ∈ es ∨ Exits s es) := by
  have hiff : t.rootEventLoop = some ⟨true⟩ ↔ ∃ e ∈ es, e.ends = true := by
    rw [run_rootEventLoop h.sound hr.of_guarded, hs]
    simp
  refine ⟨hiff, fun ht => ?_⟩
  obtain ⟨e, he, hends⟩ := hiff.1 ht
  rcases e with ⟨event, a, sip⟩ | i | _
  · cases event with
    | rShutdown =>
      right
      obtain ⟨pre, post, rfl⟩ := List.append_of_mem he
      obtain ⟨u, hpre, -⟩ := run_append_iff.1 hr.of_guarded
      rcases run_nua h.sound hpre with hu | hx
      · exact absurd (hu.trans hn) (hstack pre a sip post u rfl hpre)
      · exact hx.append _
    | _ => cases hends
  · cases hends
  · exact .inl he

theorem serverStep_run_unique (ht : Run serverStep s es t) (hu : Run serverStep s es u) :
    t = u := by
  refine ht.simulates (R := Eq) hu ?_ rfl
  rintro s e t _ u rfl ht hu
  exact (Prod.mk.inj (Except.ok.inj (ht.symm.trans hu))).2

theorem exitEvents_nua : ∃ t, Run serverStep (.started .all .zero) exitEvents.dropLast t ∧
    t.nua = some ⟨1⟩ := by
  have hexit : exitCommand ∈ StartAllocs.all.commands.map Prod.snd := by
    simp [StartAllocs.commands]
  have hall : offered false StartAllocs.all.commands =
      [confCommand, helpCommand, dumpCommand, exitCommand] := rfl
  let b : Server := ⟨⟨true, [(some (.ofBytes [49]), some (.ofBytes [97]))]⟩, [], 0, false,
    [.endpoints [(some (.ofBytes [97]), some (.ofBytes [49]))],
      .response (.ok (some contactA) "300"), .response .trying]⟩
  have hb : Run (serves (offered false StartAllocs.all.commands) .zero) .init
      [.nua .iRegister .all (some (.request contactA 300))] b := .cons ⟨trivial, rfl⟩ (.nil _)
  have hrun := hb.append (run_command (b := b) rfl hexit)
  rw [if_pos (by rw [hall]; simp)] at hrun
  obtain ⟨t, ht, href⟩ := Refines.run hrun (started_refines .all .zero)
  exact ⟨t, ht, href.nua⟩

theorem exitEvents_answers : StackAnswers (.started .all .zero) exitEvents := by
  intro pre a sip post u heq hu
  have hends : ∀ e ∈ exitEvents.dropLast, e.ends = false := by decide +kernel
  have hnot : .nua .rShutdown a sip ∉ exitEvents.dropLast := fun hm => by cases hends _ hm
  have hsplit : exitEvents = exitEvents.dropLast ++ .nua .rShutdown .all none :: [] := rfl
  rw [hsplit, List.append_cons_inj_of_notMem hnot List.not_mem_nil] at heq
  obtain ⟨t, ht, hnua⟩ := exitEvents_nua
  rw [← heq.1] at hu
  rw [← serverStep_run_unique ht hu, hnua]
  decide

theorem loop_ends_exit : ∃ t, Run (guarded serverStep Editable) (.started .all .zero) exitEvents t ∧
    (t.rootEventLoop = some ⟨true⟩ ↔ ∃ e ∈ exitEvents, e.ends = true) ∧
    (t.rootEventLoop = some ⟨true⟩ →
      .signal ∈ exitEvents ∨ Exits (.started .all .zero) exitEvents) := by
  obtain ⟨t, hr⟩ := exitEvents_runs
  exact ⟨t, hr, loop_ends (started_ready .all .zero) rfl rfl exitEvents_answers hr⟩

end Evsip.Core
