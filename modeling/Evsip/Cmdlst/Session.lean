import Evsip.Cmdlst.Spec
import Evsip.Lib.Run

/-! Clients of the command list: what they may call, and what the calls and their results tell of
the list and of the position that each command was given. -/

namespace Evsip.Cmdlst
open CLib Registry Transition

/-- A registry, with what is told by the calls so far: the commands its list should hold, those
registered, whether the list was made and torn down, and the name and the last position of each
command. -/
structure Session where
  reg : Registry
  expected : List CmdPtr
  registered : List CmdPtr
  made : Bool
  torn : Bool
  name : CmdPtr → CString
  place : CmdPtr → ℕ

def Session.init : Session := ⟨.init, [], [], false, false, fun _ => .ofBytes [], fun _ => 0⟩

inductive Op
  | init (a : Allocs) (cmd help : CString) (privilege mode : UInt32)
  | register (p : CmdPtr) (execF : Option Nat) (arg : Nat) (okAppend : Bool)
  | find (pCmd : Option CString) (outPtr : Bool)
  | destroy (p : CmdPtr)
  | destroyAll

def Op.Legal (s : Session) : Op → Prop
  | register p .. => s.reg.Alive p ∧ p ∉ s.registered
  | destroy p => s.reg.Alive p
  | _ => True

namespace Session

/-- The first expected command, of those an `int` reaches, whose name begins the text. -/
def found (s : Session) : Option CString → Bool → Option (CmdPtr × ℕ)
  | some text, true => ((s.expected.take (toInt s.expected.length).toNat).zipIdx 0).find? fun x =>
    (s.name x.1).bytes <+: text.bytes
  | _, _ => none

def named (s : Session) (cmd : CString) : Option CmdPtr → CmdPtr → CString
  | some p => Function.update s.name p cmd
  | none => s.name

def placed (s : Session) : Option (CmdPtr × ℕ) → CmdPtr → ℕ
  | some (p, i) => Function.update s.place p i
  | none => s.place

def apply (s : Session) : Op → Session
  | .init a cmd help privilege mode =>
    let res := (cliCmdInit a cmd help privilege mode).run s.reg
    { s with
      reg := res.2
      made := s.made || a.vectorCreate
      name := s.named cmd res.1.2
      place := s.placed (res.1.2.map (·, 0)) }
  | .register p execF arg ok =>
    let res := (cliCmdRegister ok (some p) execF arg).run s.reg
    -- a position is given before the append, whether or not that finds memory
    let i := s.expected.length % UInt32.size
    { s with
      reg := res.2
      expected := if res.1 = .success then s.expected ++ [p] else s.expected
      registered := if res.1 = .success then p :: s.registered else s.registered
      place := if execF.isSome ∧ s.made then s.placed (some (p, i)) else s.place }
  | .find pCmd outPtr =>
    { s with
      reg := ((cliCmdFind pCmd outPtr).run s.reg).2
      place := s.placed (s.found pCmd outPtr) }
  | .destroy p =>
    { s with reg := ((cliCmdDestroy (some p)).run s.reg).2, expected := s.expected.erase p }
  | .destroyAll =>
    { s with reg := (cliCmdDestroyAll.run s.reg).2, expected := [], torn := s.torn || s.made }

end Session

def sessionStep (s : Session) (op : Op) (t : Session) : Prop := op.Legal s ∧ t = s.apply op

/-- The list holds what it should, and nothing released was used. -/
def Faithful (s : Session) : Prop := s.reg.items = s.expected ∧ s.reg.NoLate

def Op.Reaches : Op → Prop
  | init .. => False
  | register _ execF .. => execF ≠ none
  | find pCmd outPtr => pCmd ≠ none ∧ outPtr = true
  | destroy _ | destroyAll => True

/-- A command is destroyed where it was last put, or, if it is not expected in the list, its last
position is past the end. -/
def Op.Positioned (s : Session) : Op → Prop
  | destroy p => s.expected[s.place p]? = some p ∨ p ∉ s.expected ∧ s.expected.length ≤ s.place p
  | _ => True

/-- No call reaches a list that was torn down, and every removal is at the right position. -/
def Op.Sound (s : Session) (op : Op) : Prop := (op.Reaches → s.torn = false) ∧ op.Positioned s

variable {s t : Session} {op : Op} {r r' : Registry} {p : CmdPtr} {f : Cmd → Cmd}
  {l : List CmdPtr}

structure Moved (r r' : Registry) (items : List CmdPtr) (gone : CmdPtr → Prop)
    (reaches : Prop) : Prop where
  inv : r'.Inv
  items_eq : r'.items = items
  alive : ∀ q, r.Alive q → ¬ gone q → r'.Alive q
  noLate : r'.NoLate ↔ r.NoLate ∧ (reaches → ¬ r.Dangling)

theorem Moved.refl (h : r.Inv) : Moved r r r.items (fun _ => False) False :=
  ⟨h, rfl, fun _ hq _ => hq, by simp⟩

theorem clone_moved {c : Cmd} (h : r.Inv) (hc : c.magic = cmdMagic) :
    Moved r (r.cloned c) r.items (fun _ => False) False := by
  refine ⟨fun q hq => ?_, rfl, fun q hq _ => ?_, by simp [NoLate, cloned]⟩
  · by_cases hqn : q = r.next
    · simp [cloned_cmds, hqn, hc]
    · have hq' : r.Alive q := by simpa [Alive, cloned_cmds, hqn] using hq
      have hlt : q < r.next + 1 := Nat.lt_succ_of_lt (h q hq').2
      simpa [cloned_cmds, hqn, (h q hq').1] using hlt
  · simpa [Alive, cloned_cmds, (h q hq).2.ne] using hq

theorem init_moved (h : r.Inv) (a : Allocs) (cmd help : CString) (privilege mode : UInt32) :
    Moved r ((cliCmdInit a cmd help privilege mode).run r).2 r.items (fun _ => False) False := by
  have hl : Moved r (r.listed a.vectorCreate) r.items (fun _ => False) False :=
    ⟨h.congr listed_cmds listed_next, listed_items,
      fun q hq _ => by simpa [Alive, listed_cmds] using hq, by simp [noLate_congr listed_trace]⟩
  have hc := clone_moved hl.inv (newCmd_magic a cmd help privilege mode)
  rw [cliCmdInit_run]
  split
  · exact hl
  · rw [cliCmdClone_run]
    cases a.homeClone with
    | false => exact hl
    | true =>
      exact ⟨hc.inv, hc.items_eq.trans listed_items,
        fun q hq hn => hc.alive q (hl.alive q hq hn) hn, hc.noLate.trans (by simp [hl.noLate])⟩

theorem register_moved (h : r.Inv) (hp : r.Alive p) (ok : Bool) (execF : Option Nat) (arg : Nat) :
    Moved r ((cliCmdRegister ok (some p) execF arg).run r).2
      (if ((cliCmdRegister ok (some p) execF arg).run r).1 = .success then r.items ++ [p]
        else r.items) (fun _ => False) (execF ≠ none) := by
  rw [cliCmdRegister_run h hp]
  rcases execF with _ | f
  · simpa using Moved.refl h
  have hinv := h.setCmd (f := .callback (some f) arg) hp rfl
  have halive : ∀ q, r.Alive q → (r.setCmd p (.callback (some f) arg)).Alive q :=
    fun q hq => alive_setCmd hq (callback_live _ _)
  dsimp only
  rcases hl : r.evsipCmdl with _ | v
  · have hd : ¬ r.Dangling := by simp [Dangling, hl]
    exact ⟨hinv, rfl, fun q hq _ => halive q hq, by simp [hd]⟩
  · have hinv' := (hinv.congr touched_cmds touched_next).setCmd (p := p)
      (f := .position r.items.length) (by simpa [Alive] using hp) rfl
    have halive' : ∀ q, r.Alive q →
        ((r.setCmd p (.callback (some f) arg)).touched.setCmd p (.position r.items.length)).Alive q :=
      fun q hq => alive_setCmd (by simpa [Alive] using halive q hq) (position_live _)
    simp only [reduceCtorEq, if_false]
    cases ok with
    | false =>
      refine ⟨hinv'.congr touched_cmds touched_next, by simp, fun q hq _ => ?_, by simp⟩
      simpa [Alive] using halive' q hq
    | true =>
      refine ⟨hinv'.congr touched_cmds touched_next, ?_, fun q hq _ => ?_, by simp⟩
      · exact setItems_items fun hn => by simp [hl] at hn
      · simpa [Alive] using halive' q hq

theorem find_moved (h : r.Inv) (hl : ∀ q ∈ r.items, r.Alive q) (pCmd : Option CString)
    (outPtr : Bool) : Moved r ((cliCmdFind pCmd outPtr).run r).2 r.items (fun _ => False)
      (pCmd ≠ none ∧ outPtr = true) := by
  rcases outPtr with _ | _
  · simp only [Bool.false_eq_true, and_false]
    exact Moved.refl h
  rcases pCmd with _ | pCmd
  · simp only [ne_eq, not_true, false_and]
    exact Moved.refl h
  have ht : r.touched.Inv := h.congr touched_cmds touched_next
  have ha : ∀ q, r.Alive q → r.touched.Alive q := fun q hq => by simpa [Alive] using hq
  rw [cliCmdFind_run h pCmd hl]
  rcases hs : r.scan pCmd 0 (r.items.take (toInt r.items.length).toNat) with _ | ⟨q, j⟩
  · exact ⟨ht, touched_items, fun q hq _ => ha q hq, by simp⟩
  · have hq := hl q (List.mem_of_mem_take (scan_mem hs))
    exact ⟨ht.setCmd (f := .position j) (ha q hq) rfl, touched_items,
      fun q hq _ => alive_setCmd (f := .position j) (ha q hq) (position_live j), by simp⟩

theorem destroy_moved (h : r.Inv) (hp : r.Alive p) :
    Moved r ((cliCmdDestroy (some p)).run r).2 (r.items.eraseIdx (r.cmds p).index.toNat) (· = p)
      True := by
  rw [cliCmdDestroy_run h hp]
  have hinv : (r.touched.setItems (r.items.eraseIdx (r.cmds p).index.toNat)).Inv :=
    h.congr touched_cmds touched_next
  have hitems : (r.touched.setItems (r.items.eraseIdx (r.cmds p).index.toNat)).items =
      r.items.eraseIdx (r.cmds p).index.toNat :=
    setItems_items fun hn => by rw [items_nil (touched_list ▸ hn)]; rfl
  refine ⟨hinv.setCmd (f := .release) (by simpa [Alive] using hp) rfl, hitems, fun q hq hne => ?_, by simp⟩
  have hq' : (r.cmds q).live = true := hq
  simpa [Alive, setCmd_cmds, hne] using hq'

theorem destroyAll_moved (h : r.Inv) :
    Moved r (cliCmdDestroyAll.run r).2 [] (fun _ => False) True := by
  rw [cliCmdDestroyAll_run]
  have hitems : r.emptied.items = [] := by
    rcases hl : r.evsipCmdl with _ | v <;> simp [emptied, items, setItems, hl]
  refine ⟨h.congr (by simp [emptied]) (by simp [emptied]), hitems, fun q hq _ => ?_, ?_⟩
  · simpa [Alive, emptied] using hq
  · have : r.emptied.NoLate ↔ (r.touched.setItems []).touched.NoLate := Iff.rfl
    simp [this]

end Evsip.Cmdlst
