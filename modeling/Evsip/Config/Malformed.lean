import Evsip.Config.Settings
import Evsip.Lib.Decimal

/-! What the handler does with the value of an integer option, numeral or not. -/

namespace Evsip.Config
open CLib

def intValue (text : List UInt8) : Option Int := (numeral text).filter fun n => IsInt n

/-- A numeral is stored, anything else is refused and changes nothing. -/
def HandlesInteger (o : IntOption) (text : List UInt8) (before : ConfigCtx) (code : Code)
    (after : ConfigCtx) : Prop :=
  match intValue text with
  | some i => code = .success ∧ after = before.setInteger o i
  | none => code ≠ .success ∧ after = before

variable {st : Parser} {text : List UInt8} {n v : Nat} {i : Int} {beyond : Nat → UInt8}

theorem atoi_intValue (h : intValue text = some i) : atoi text = i := by
  obtain ⟨hnum, hint⟩ := Option.filter_eq_some_iff.1 h
  exact atoi_numeral hnum (of_decide_eq_true hint)

theorem handles_integer_iff (o : IntOption) (hn : StrAt st.line n (slotName (.integer o)))
    (hv : StrAt st.line v text) :
    HandlesInteger o text st.config ((configKeyvalHandler beyond n v).run st).1
        ((configKeyvalHandler beyond n v).run st).2.config ↔
      ∃ i, numeral text = some i ∧ IsInt i := by
  have hvalue : (∃ i, intValue text = some i) ↔ ∃ i, numeral text = some i ∧ IsInt i :=
    exists_congr fun i => by simp [intValue, Option.filter_eq_some_iff]
  rw [configKeyvalHandler_run hn hv, slotOf_slotName, ← hvalue]
  unfold HandlesInteger
  rcases hi : intValue text with _ | i
  · exact iff_of_false (fun h => h.1 rfl) (by simp)
  · refine iff_of_true ⟨rfl, ?_⟩ ⟨i, rfl⟩
    rw [← atoi_intValue hi]
    rfl

def calledWith (text : List UInt8) : Parser :=
  ⟨bytes "local_port" ++ 0 :: text ++ [0], (configInit .zero none).2, []⟩

theorem handles_integer_iff_port :
    HandlesInteger .localPort (bytes "5061") (calledWith (bytes "5061")).config
        ((configKeyvalHandler (fun _ => 0) 0 11).run (calledWith (bytes "5061"))).1
        ((configKeyvalHandler (fun _ => 0) 0 11).run (calledWith (bytes "5061"))).2.config ↔
      ∃ i, numeral (bytes "5061") = some i ∧ IsInt i :=
  handles_integer_iff .localPort ⟨by decide, _, rfl⟩ ⟨by decide, _, rfl⟩

theorem not_handles_integer_text :
    ¬ HandlesInteger .localPort (bytes "5061x") (calledWith (bytes "5061x")).config
        ((configKeyvalHandler (fun _ => 0) 0 11).run (calledWith (bytes "5061x"))).1
        ((configKeyvalHandler (fun _ => 0) 0 11).run (calledWith (bytes "5061x"))).2.config := by
  have htext : intValue (bytes "5061x") = none := by decide
  have hn : StrAt (calledWith (bytes "5061x")).line 0 (slotName (.integer .localPort)) :=
    ⟨by decide, _, rfl⟩
  have hv : StrAt (calledWith (bytes "5061x")).line 11 (bytes "5061x") := ⟨by decide, _, rfl⟩
  unfold HandlesInteger
  rw [htext, configKeyvalHandler_run hn hv, slotOf_slotName]
  exact fun h => h.1 rfl

end Evsip.Config
