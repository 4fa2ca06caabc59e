import Evsip.Core.Refinement

/-! Whole lines typed at the terminal. The name of one of the program's commands runs it, whatever
happened before, if the command found memory when the program started. -/

namespace Evsip.Core
open CLib Endp Cmdlst Cli Register Transition

variable {a b : Server} {cs : List Command} {conf : Config.ConfigCtx} {es : List Event}
  {bs : List UInt8} {c d : Command} {allocs : StartAllocs}

theorem run_types (hbs : ∀ x ∈ bs, Ordinary x) (hlen : a.line.length + bs.length ≤ 255) :
    Run (serves cs conf) a (types bs) { a with line := a.line ++ bs } := by
  induction bs generalizing a with
  | nil =>
    rw [List.append_nil]
    exact .nil a
  | cons x bs ih =>
    have hx := hbs x (by simp)
    have hlt : a.line.length < 255 := by
      rw [List.length_cons] at hlen
      omega
    have hnext : a.next cs conf (.input ⟨.byte x, true⟩) =
        .ok { a with line := a.line ++ [x] } := by
      obtain ⟨h63, h9, h8, h10⟩ := hx
      simp [Server.next, Server.type, Server.after, editLine, h63, h9, h8, h10, hlt]
    have hrun := ih (a := { a with line := a.line ++ [x] }) (fun y hy => hbs y (by simp [hy]))
      (by simp only [List.length_append, List.length_cons, List.length_nil] at hlen ⊢; omega)
    rw [List.append_assoc, List.singleton_append] at hrun
    exact .cons ⟨fun h8 => absurd (ReadResult.byte.inj h8) hx.2.2.1, hnext⟩ hrun

theorem after_line (a : Server) (l : List UInt8) (o : Option Callback) :
    { a with line := l }.after cs conf o = { a.after cs conf o with line := l } := by
  rcases o with _ | c
  · rfl
  · rcases c with _ | _ | _ | _ | n <;> rfl

theorem run_line (hbs : ∀ x ∈ bs, Ordinary x) (hlen : bs.length ≤ 255) (hne : bs ≠ [])
    (ha : a.line = []) : Run (serves cs conf) a (types (bs ++ [10]))
      { a.after cs conf (Server.called cs bs) with line := [] } := by
  have hrun : Run (serves cs conf) a (types bs) { a with line := a.line ++ bs } :=
    run_types hbs (by simpa [ha] using hlen)
  rw [ha, List.nil_append] at hrun
  have hcall : (if (10 : UInt8) = 10 ∧ bs ≠ [] then Server.called cs bs else none) =
      Server.called cs bs := if_pos ⟨rfl, hne⟩
  have hend : { a with line := bs }.next cs conf (.input ⟨.byte 10, true⟩) =
      .ok { a.after cs conf (Server.called cs bs) with line := [] } := by
    rw [Server.next, Server.type, hcall, after_line]
    rfl
  rw [types, List.map_append]
  exact hrun.append (.cons ⟨by simp [Regular], hend⟩ (.nil _))

theorem mem_commands (hc : c ∈ allocs.commands.map Prod.snd) :
    c = confCommand ∨ c = helpCommand ∨ c = dumpCommand ∨ c = exitCommand := by
  simpa [StartAllocs.commands] using hc

theorem name_ordinary (hc : c ∈ allocs.commands.map Prod.snd) :
    (∀ x ∈ c.1.bytes, Ordinary x) ∧ c.1.bytes.length = 4 := by
  rcases mem_commands hc with rfl | rfl | rfl | rfl <;> unfold Ordinary <;> decide +kernel

theorem name_unique (hc : c ∈ allocs.commands.map Prod.snd) (hd : d ∈ allocs.commands.map Prod.snd)
    (h : d.1.bytes <+: c.1.bytes) : d = c := by
  have hlen := (name_ordinary hc).2
  have heq := h.eq_of_length ((name_ordinary hd).2.trans hlen.symm)
  rcases mem_commands hc with rfl | rfl | rfl | rfl <;>
    rcases mem_commands hd with rfl | rfl | rfl | rfl <;>
      first | rfl | exact absurd heq (by decide +kernel)

theorem called_name (hcs : cs ⊆ allocs.commands.map Prod.snd)
    (hc : c ∈ allocs.commands.map Prod.snd) :
    Server.called cs c.1.bytes = if c ∈ cs then c.2.2 else none := by
  rw [Server.called]
  split_ifs with hmem
  · rcases hf : cs.find? fun d => d.1.bytes <+: c.1.bytes with _ | d
    · simpa using List.find?_eq_none.1 hf c hmem
    · have hpre : d.1.bytes <+: c.1.bytes := by simpa using List.find?_some hf
      rw [hf, name_unique hc (hcs (List.mem_of_find?_eq_some hf)) hpre]
      rfl
  · have hnone : (cs.find? fun d => d.1.bytes <+: c.1.bytes) = none :=
      List.find?_eq_none.2 fun d hd hpre =>
        hmem (name_unique hc (hcs hd) (by simpa using hpre) ▸ hd)
    rw [hnone]
    rfl

/-- The name of a command and a newline run its callback if the command got on the list, and
nothing if it did not. -/
theorem run_command (hline : b.line = []) (hc : c ∈ allocs.commands.map Prod.snd) :
    Run (serves (offered false allocs.commands) conf) b (types (c.1.bytes ++ [10]))
      { b.after (offered false allocs.commands) conf
          (if c ∈ offered false allocs.commands then c.2.2 else none) with line := [] } := by
  obtain ⟨hbs, hlen⟩ := name_ordinary hc
  have hne : c.1.bytes ≠ [] := fun h => by simp [h] at hlen
  rw [← called_name (offered_sublist.subset) hc]
  exact run_line hbs (by omega) hne hline

end Evsip.Core
