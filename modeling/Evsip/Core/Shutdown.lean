import Evsip.Core.Main
import Evsip.Core.Typing

/-! The end of the program: an exit command asks the stack to shut down, and its answer ends the
loop. -/

namespace Evsip.Core
open Register Transition Main

variable {a b : Server} {cs : List Command} {conf : Config.ConfigCtx} {e : Event} {es : List Event}
  {env : Env}

theorem after_ended (cs : List Command) (conf : Config.ConfigCtx) (a : Server)
    (o : Option Callback) : (a.after cs conf o).ended = a.ended := by
  rcases o with _ | c
  · rfl
  · rcases c with _ | _ | _ | _ | n <;> rfl

theorem next_ended (h : a.next cs conf e = .ok b) : b.ended = (a.ended || e.ends) := by
  rcases e with ⟨event, alloc, sip⟩ | ⟨_ | _ | _, w⟩ | _
  · cases event with
    | iRegister =>
      rw [Server.next, Server.register] at h
      rcases hrun : Board.handler alloc sip a.board with f | r
      · rw [hrun] at h
        cases h
      · rw [hrun] at h
        cases h
        exact (Bool.or_false _).symm
    | rShutdown =>
      cases h
      exact (Bool.or_true _).symm
    | _ =>
      cases h
      exact (Bool.or_false _).symm
  · cases h
    exact (after_ended ..).trans (Bool.or_false _).symm
  · cases h
    exact (Bool.or_false _).symm
  · cases h
    exact (Bool.or_false _).symm
  · cases h
    exact (Bool.or_true _).symm

theorem run_ended (hr : Run (serves cs conf) a es b) :
    b.ended = (a.ended || es.any Event.ends) := by
  induction hr with
  | nil a => exact (Bool.or_false _).symm
  | cons hstep _ ih => rw [ih, next_ended hstep.2, List.any_cons, Bool.or_assoc]

theorem serve_of_run (hr : Run (serves cs conf) a es b) (ha : a.ended = false)
    (hends : ∀ e ∈ es.dropLast, e.ends = false) :
    Server.serve cs conf es a = .ok b ∧ Regulars cs conf es a := by
  induction hr with
  | nil a => exact ⟨rfl, trivial⟩
  | @cons a u b e es hstep hr ih =>
    obtain ⟨hregular, hnext⟩ := hstep
    have hrest : Server.serve cs conf es u = .ok b ∧ Regulars cs conf es u := by
      rcases es with _ | ⟨e', es⟩
      · cases hr
        exact ⟨rfl, trivial⟩
      · refine ih ?_ fun e he => hends e (List.mem_cons_of_mem _ he)
        rw [next_ended hnext, ha, hends e (List.mem_cons_self ..)]
        rfl
    refine ⟨?_, fun _ => ⟨hregular, fun v hv => ?_⟩⟩
    · rw [Server.serve, if_neg (by simp [ha]), hnext]
      exact hrest.1
    · cases hnext.symm.trans hv
      exact hrest.2

theorem main_refines (h : ¬ env.Fatal)
    (hr : Run (serves (offered false env.allocs.commands) env.config) .init es b)
    (hends : ∀ e ∈ es.dropLast, e.ends = false) :
    ∃ w, (main env es).run .init = .ok (if b.ended then .success else .running, w) ∧
      Refines (offered false env.allocs.commands) env.config w.glob b := by
  obtain ⟨hserve, hregulars⟩ := serve_of_run hr rfl hends
  have hloop := suRootRun_serve (started_refines env.allocs env.config) hregulars
  rw [hserve] at hloop
  obtain ⟨t, hrun, href⟩ := hloop
  rw [main_started h, hrun]
  simp only [Except.map, href.root]
  rcases b.ended with _ | _
  · rw [if_neg (by simp)]
    exact ⟨_, rfl, href⟩
  · rw [if_pos rfl]
    exact ⟨_, rfl, href⟩

theorem run_answer (alloc : Register.Allocs) (sip : Option Register.Sip) :
    Run (serves cs conf) a [.nua .rShutdown alloc sip] { a with ended := true } :=
  .cons ⟨trivial, rfl⟩ (.nil _)

/-- After any regular run that left the line empty, typing exit leaves the program running until the
stack answers, and ends it then, if the exit command found memory when the program started. -/
theorem exit_ends (h : ¬ env.Fatal)
    (hr : Run (serves (offered false env.allocs.commands) env.config) .init es b)
    (hends : ∀ e ∈ es, e.ends = false) (hline : b.line = [])
    (hexit : exitCommand ∈ offered false env.allocs.commands) (alloc : Register.Allocs)
    (sip : Option Register.Sip) :
    let typed := es ++ types (exitCommand.1.bytes ++ [10])
    (∃ w, (main env typed).run .init = .ok (.running, w) ∧
      w.glob.nua = some ⟨b.shutdowns + 1⟩ ∧ w.glob.out = .stopping :: b.out) ∧
    ∃ w, (main env (typed ++ [.nua .rShutdown alloc sip])).run .init = .ok (.success, w) ∧
      w.glob.nua = some ⟨b.shutdowns + 1⟩ ∧ w.glob.out = .stopping :: b.out := by
  intro typed
  have hcommand : Run (serves (offered false env.allocs.commands) env.config) b _ _ :=
    run_command hline (offered_sublist.subset hexit)
  rw [if_pos hexit] at hcommand
  have htyped := hr.append hcommand
  have hquiet : ∀ e ∈ typed, e.ends = false := by
    simpa [typed, types, Event.ends, or_imp, forall_and] using hends
  have hgoes : typed.any Event.ends = false := by simpa using hquiet
  constructor
  · obtain ⟨w, hw, href⟩ := main_refines h htyped fun e he => hquiet e (List.dropLast_subset _ he)
    rw [run_ended htyped, hgoes] at hw
    exact ⟨w, hw, href.nua, href.out⟩
  · have hanswer := htyped.append (run_answer alloc sip)
    obtain ⟨w, hw, href⟩ := main_refines h hanswer fun e he =>
      hquiet e (by rwa [List.dropLast_concat] at he)
    exact ⟨w, hw, href.nua, href.out⟩

theorem exit_ends_idle :
    let typed := types (exitCommand.1.bytes ++ [10])
    (∃ w, (main .plain typed).run .init = .ok (.running, w) ∧ w.glob.nua = some ⟨1⟩ ∧
      w.glob.out = [.stopping]) ∧
    ∃ w, (main .plain (typed ++ [.nua .rShutdown .all none])).run .init = .ok (.success, w) ∧
      w.glob.nua = some ⟨1⟩ ∧ w.glob.out = [.stopping] :=
  exit_ends (by simp [fatal_iff, Env.plain]) (.nil _) (by simp) rfl
    (List.mem_of_getElem? (i := 3) rfl) .all none

end Evsip.Core
