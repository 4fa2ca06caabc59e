import Evsip.Cmdlst.Faithful

/-! Registries whose list holds registered commands only, and what a lookup or an execution
leaves of them. -/

namespace Evsip.Cmdlst
open CLib Registry Transition

structure Roster (r : Registry) : Prop where
  inv : r.Inv
  nodup : r.items.Nodup
  alive : ∀ p ∈ r.items, r.Alive p
  callback : ∀ p ∈ r.items, (r.cmds p).execF ≠ none
  fresh : ¬ r.Dangling

/-- Only the positions of commands and the record of calls may differ. -/
structure Kept (r r' : Registry) : Prop where
  list : r'.evsipCmdl = r.evsipCmdl
  next : r'.next = r.next
  cmds : ∀ p, ∃ i, r'.cmds p = { r.cmds p with index := i }

variable {s t : Session} {op : Op} {r r' r'' : Registry} {p q : CmdPtr} {text : CString}

namespace Kept

theorem refl (r : Registry) : Kept r r := ⟨rfl, rfl, fun _ => ⟨_, rfl⟩⟩

theorem trans (h : Kept r r') (h' : Kept r' r'') : Kept r r'' := by
  refine ⟨h'.list.trans h.list, h'.next.trans h.next, fun p => ?_⟩
  obtain ⟨i, hi⟩ := h'.cmds p
  obtain ⟨j, hj⟩ := h.cmds p
  exact ⟨i, by rw [hi, hj]⟩

theorem items (h : Kept r r') : r'.items = r.items := by simp [Registry.items, h.list]

theorem record (e : Event) : Kept r (r.record e) := ⟨rfl, rfl, fun _ => ⟨_, rfl⟩⟩

theorem position (i : Nat) : Kept r (r.setCmd p (.position i)) := by
  refine ⟨rfl, rfl, fun q => ?_⟩
  rw [setCmd_cmds]
  split_ifs with hq
  · exact ⟨_, by rw [hq]; rfl⟩
  · exact ⟨_, rfl⟩

theorem cmd (h : Kept r r') (p : CmdPtr) : (r'.cmds p).cmd = (r.cmds p).cmd := by
  obtain ⟨i, hi⟩ := h.cmds p
  rw [hi]

theorem roster (h : Kept r r') (hr : Roster r) : Roster r' := by
  have halive : ∀ p, r'.Alive p ↔ r.Alive p := fun p => by
    obtain ⟨i, hi⟩ := h.cmds p
    rw [Alive, Alive, hi]
  refine ⟨fun p hp => ?_, h.items ▸ hr.nodup, fun p hp => ?_, fun p hp => ?_, ?_⟩
  · obtain ⟨i, hi⟩ := h.cmds p
    rw [hi, h.next]
    exact hr.inv p ((halive p).1 hp)
  · exact (halive p).2 (hr.alive p (h.items ▸ hp))
  · obtain ⟨i, hi⟩ := h.cmds p
    rw [hi]
    exact hr.callback p (h.items ▸ hp)
  · rw [Dangling, h.list]
    exact hr.fresh

end Kept

/-- How many commands the loop of a lookup, which counts in an `int`, goes through. -/
def reach (r : Registry) : Nat := (toInt r.items.length).toNat

theorem Roster.find (h : Roster r) : (cliCmdFind (some text) true).run r =
    match r.scan text 0 (r.items.take (reach r)) with
    | none => ((.errorNotFound, none), r)
    | some (q, j) => ((.success, some q), r.setCmd q (.position j)) := by
  have htouched : r.touched = r := if_neg h.fresh
  rw [cliCmdFind_run h.inv text h.alive, htouched]
  rfl

theorem Roster.find_kept (h : Roster r) : Kept r ((cliCmdFind (some text) true).run r).2 := by
  rw [h.find]
  rcases r.scan text 0 (r.items.take (reach r)) with _ | ⟨q, j⟩
  · exact .refl r
  · exact .position j

def Callback (r : Registry) (q : CmdPtr) : Prop := (r.cmds q).execF ≠ none

theorem Callback.setCmd {f : Cmd → Cmd} (h : Callback r q)
    (hf : (r.cmds q).execF ≠ none → (f (r.cmds q)).execF ≠ none) : Callback (r.setCmd p f) q := by
  unfold Callback
  rw [setCmd_cmds]
  split_ifs with hq
  · exact hq ▸ hf h
  · exact h

theorem Callback.congr (h : Callback r q) (hc : r'.cmds = r.cmds) : Callback r' q := by
  unfold Callback
  rwa [hc]

theorem init_callback (h : Callback r q) (hq : q < r.next) (a : Allocs) (cmd help : CString)
    (privilege mode : UInt32) :
    Callback ((cliCmdInit a cmd help privilege mode).run r).2 q := by
  have hl : Callback (r.listed a.vectorCreate) q := h.congr listed_cmds
  have hc : Callback ((r.listed a.vectorCreate).cloned (newCmd a cmd help privilege mode)) q := by
    unfold Callback
    rw [cloned_cmds, listed_next, if_neg hq.ne]
    exact hl
  rw [cliCmdInit_run, cliCmdClone_run]
  cases a.homeClone <;> split_ifs <;> first | exact hl | exact hc

theorem register_callback (h : r.Inv) (hp : r.Alive p) (ok : Bool) (execF : Option Nat) (arg : Nat) :
    (Callback r q → Callback ((cliCmdRegister ok (some p) execF arg).run r).2 q) ∧
      (((cliCmdRegister ok (some p) execF arg).run r).1 = .success →
        Callback ((cliCmdRegister ok (some p) execF arg).run r).2 p) := by
  rw [cliCmdRegister_run h hp]
  rcases execF with _ | f
  · exact ⟨id, fun h => by cases h⟩
  · have hset : ∀ q, Callback r q ∨ q = p → Callback (r.setCmd p (.callback (some f) arg)) q := by
      rintro q (hq | rfl)
      · exact hq.setCmd fun _ => by simp [Cmd.callback]
      · simp [Callback, Cmd.callback]
    have hpos : ∀ q, Callback r q ∨ q = p →
        Callback ((r.setCmd p (.callback (some f) arg)).touched.setCmd p
          (.position r.items.length)).touched q := fun q hq =>
      (((hset q hq).congr touched_cmds).setCmd fun h => h).congr touched_cmds
    dsimp only
    rw [if_neg (by simp)]
    split_ifs
    · exact ⟨fun hq => hset q (.inl hq), fun h => by cases h⟩
    · exact ⟨fun hq => hpos q (.inl hq), fun _ => hpos p (.inr rfl)⟩
    · exact ⟨fun hq => hpos q (.inl hq), fun h => by cases h⟩

theorem find_callback (h : r.Inv) (hl : ∀ q ∈ r.items, r.Alive q) (hq : Callback r q)
    (pCmd : Option CString) (outPtr : Bool) : Callback ((cliCmdFind pCmd outPtr).run r).2 q := by
  rcases outPtr with _ | _
  · exact hq
  rcases pCmd with _ | pCmd
  · exact hq
  have ht : Callback r.touched q := hq.congr touched_cmds
  rw [cliCmdFind_run h pCmd hl]
  split
  · exact ht
  · exact ht.setCmd fun h => h

/-- While a session is faithful, every listed command has a callback. -/
theorem listed_callback {ops : List Op}
    (h : Run (fun s op t => sessionStep s op t ∧ Faithful t) .init ops s) :
    Inv s ∧ ∀ p ∈ s.expected, Callback s.reg p := by
  refine h.invariant (I := fun s => Inv s ∧ ∀ p ∈ s.expected, Callback s.reg p) ?_
    ⟨.init, by simp [Session.init]⟩
  rintro s op t ⟨hinv, hcall⟩ ⟨hstep, hfaithful⟩
  refine ⟨hinv.step hstep hfaithful, fun q hq => ?_⟩
  obtain ⟨hlegal, rfl⟩ := hstep
  cases op with
  | init a cmd help privilege mode =>
    exact init_callback (hcall q hq) (hinv.reg q (hinv.alive q hq)).2 a cmd help privilege mode
  | register p execF arg ok =>
    obtain ⟨hkept, hnew⟩ := register_callback (q := q) hinv.reg hlegal.1 ok execF arg
    dsimp only [Session.apply] at hq ⊢
    split_ifs at hq with hc
    · rcases List.mem_append.1 hq with hq | hq
      · exact hkept (hcall q hq)
      · exact List.mem_singleton.1 hq ▸ hnew hc
    · exact hkept (hcall q hq)
  | find pCmd outPtr =>
    exact find_callback hinv.reg (fun p hp => hinv.alive p (hinv.items ▸ hp)) (hcall q hq) pCmd outPtr
  | destroy p =>
    dsimp only [Session.apply]
    rw [cliCmdDestroy_run hinv.reg hlegal]
    have hq := hcall q (List.mem_of_mem_erase hq)
    exact (hq.congr (by simp)).setCmd fun h => h
  | destroyAll => cases hq

theorem roster_of_faithful {ops : List Op}
    (h : Run (fun s op t => sessionStep s op t ∧ Faithful t) .init ops s) (hd : ¬ s.reg.Dangling) :
    Roster s.reg := by
  obtain ⟨hinv, hcall⟩ := listed_callback h
  exact ⟨hinv.reg, hinv.items ▸ hinv.nodup, fun p hp => hinv.alive p (hinv.items ▸ hp),
    fun p hp => hcall p (hinv.items ▸ hp), hd⟩

end Evsip.Cmdlst
