import Evsip.Cmdlst.Roster

/-! The callback of the help command, and the commands a list offers as help shows them. -/

namespace Evsip.Cmdlst
open CLib Registry

/-- `printf("\t%s: %s\n", cmd, help_msg)`. -/
def helpLine (cmd helpMsg : CString) : List UInt8 :=
  9 :: cmd.bytes ++ bytes ": " ++ helpMsg.bytes ++ [10]

def helpLoop : List CmdPtr → Proc (List (List UInt8))
  | [] => return []
  | p :: rest => do
    if (← readCmd p (·.magic)) ≠ cmdMagic then
      return ← helpLoop rest
    let cmd ← readCmd p (·.cmd)
    let helpMsg ← readCmd p (·.helpMsg)
    return helpLine cmd helpMsg :: (← helpLoop rest)

/-- `evsip_cli_cmd_help_clbk`, with the lines it prints. -/
def cliCmdHelpClbk : Proc (Code × List (List UInt8)) := do
  let array ← suVectorArray
  return (.success, ← helpLoop (array.take (toInt array.length).toNat))

variable {r r' : Registry} {l : List CmdPtr} {p : CmdPtr}

namespace Registry

def helpOf (r : Registry) (p : CmdPtr) : List UInt8 := helpLine (r.cmds p).cmd (r.cmds p).helpMsg

end Registry

theorem helpLoop_run (h : r.Inv) (hl : ∀ q ∈ l, r.Alive q) :
    (helpLoop l).run r = pure (l.map r.helpOf, r) := by
  induction l with
  | nil => rfl
  | cons p l ih =>
    have hp : r.Alive p := hl p (by simp)
    have ih := ih fun q hq => hl q (by simp [hq])
    simp [helpLoop, readCmd_run, hp, (h p hp).1, ih, helpOf]

theorem cliCmdHelpClbk_run (h : Roster r) :
    cliCmdHelpClbk.run r = ((.success, (r.items.take (reach r)).map r.helpOf), r) := by
  have htouched : r.touched = r := if_neg h.fresh
  have hloop := helpLoop_run h.inv (l := r.items.take (reach r)) fun q hq =>
    h.alive q (List.mem_of_mem_take hq)
  rw [cliCmdHelpClbk]
  refine (StateT.run_bind ..).trans ?_
  rw [suVectorArray_run, pure_bind, htouched]
  dsimp only
  change ((fun l => (Code.success, l)) <$> helpLoop (r.items.take (reach r))).run r = _
  rw [StateT.run_map, hloop]
  rfl

theorem Kept.helpOf (h : Kept r r') (p : CmdPtr) : r'.helpOf p = r.helpOf p := by
  obtain ⟨i, hi⟩ := h.cmds p
  rw [Registry.helpOf, Registry.helpOf, hi]

end Evsip.Cmdlst
