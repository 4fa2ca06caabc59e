import Evsip.Cmdlst.Registry

/-! What each function of the command list does to a registry, when the commands it is
given and the listed ones are alive. -/

namespace Evsip.Cmdlst
open CLib

variable {r r' : Registry} {p q : CmdPtr} {f g : Cmd → Cmd} {e : Event} {l : List CmdPtr}

@[simp] theorem callback_live (n : Option Nat) (arg : Nat) (c : Cmd) :
    (c.callback n arg).live = c.live := rfl
@[simp] theorem callback_magic (n : Option Nat) (arg : Nat) (c : Cmd) :
    (c.callback n arg).magic = c.magic := rfl
@[simp] theorem position_live (i : Nat) (c : Cmd) : (c.position i).live = c.live := rfl
@[simp] theorem position_magic (i : Nat) (c : Cmd) : (c.position i).magic = c.magic := rfl
@[simp] theorem release_magic (c : Cmd) : c.release.magic = c.magic := rfl

namespace Registry

def Alive (r : Registry) (p : CmdPtr) : Prop := (r.cmds p).live = true

def Late : Event → Prop
  | .lateCmd _ | .lateList => True
  | _ => False

def NoLate (r : Registry) : Prop := ∀ e ∈ r.trace, ¬ Late e

def Inv (r : Registry) : Prop := ∀ p, r.Alive p → (r.cmds p).magic = cmdMagic ∧ p < r.next

/-- A registry whose list was used, on record if it was left over. -/
def touched (r : Registry) : Registry := if r.Dangling then r.record .lateList else r

@[simp] theorem setCmd_items : (r.setCmd p f).items = r.items := rfl
@[simp] theorem setCmd_list : (r.setCmd p f).evsipCmdl = r.evsipCmdl := rfl
@[simp] theorem setCmd_next : (r.setCmd p f).next = r.next := rfl
@[simp] theorem setCmd_trace : (r.setCmd p f).trace = r.trace := rfl
@[simp] theorem setCmd_self : (r.setCmd p f).cmds p = f (r.cmds p) := by simp [setCmd]

theorem setCmd_cmds : (r.setCmd p f).cmds q = if q = p then f (r.cmds p) else r.cmds q :=
  Function.update_apply ..

@[simp] theorem record_items : (r.record e).items = r.items := rfl
@[simp] theorem record_list : (r.record e).evsipCmdl = r.evsipCmdl := rfl
@[simp] theorem record_cmds : (r.record e).cmds = r.cmds := rfl
@[simp] theorem record_next : (r.record e).next = r.next := rfl
@[simp] theorem record_trace : (r.record e).trace = e :: r.trace := rfl

@[simp] theorem setItems_cmds : (r.setItems l).cmds = r.cmds := rfl
@[simp] theorem setItems_next : (r.setItems l).next = r.next := rfl
@[simp] theorem setItems_trace : (r.setItems l).trace = r.trace := rfl

theorem setItems_items (h : r.evsipCmdl = none → l = []) : (r.setItems l).items = l := by
  rcases hv : r.evsipCmdl with _ | v
  · simp [setItems, items, hv, h hv]
  · simp [setItems, items, hv]

theorem items_nil (h : r.evsipCmdl = none) : r.items = [] := by simp [items, h]

@[simp] theorem setCmd_dangling : (r.setCmd p f).Dangling ↔ r.Dangling := Iff.rfl
@[simp] theorem setCmd_noLate : (r.setCmd p f).NoLate ↔ r.NoLate := Iff.rfl
@[simp] theorem setItems_noLate : (r.setItems l).NoLate ↔ r.NoLate := Iff.rfl

@[simp] theorem setItems_dangling : (r.setItems l).Dangling ↔ r.Dangling := by
  simp [Dangling, setItems]

@[simp] theorem touched_items : r.touched.items = r.items := by
  unfold touched
  split <;> rfl

@[simp] theorem touched_list : r.touched.evsipCmdl = r.evsipCmdl := by
  unfold touched
  split <;> rfl

@[simp] theorem touched_cmds : r.touched.cmds = r.cmds := by
  unfold touched
  split <;> rfl

@[simp] theorem touched_next : r.touched.next = r.next := by
  unfold touched
  split <;> rfl

@[simp] theorem touched_dangling : r.touched.Dangling ↔ r.Dangling := by simp [Dangling]

theorem noLate_congr (h : r'.trace = r.trace) : r'.NoLate ↔ r.NoLate := by simp [NoLate, h]

@[simp] theorem touched_noLate : r.touched.NoLate ↔ r.NoLate ∧ ¬ r.Dangling := by
  unfold touched
  split
  · next h => simp [NoLate, Late, h]
  · next h => simp [h]

theorem Inv.setCmd (h : r.Inv) (hp : r.Alive p) (hm : (f (r.cmds p)).magic = (r.cmds p).magic) :
    (r.setCmd p f).Inv := by
  intro q hq
  rw [setCmd_cmds]
  by_cases hqp : q = p
  · subst hqp
    simpa [hm] using h q hp
  · rw [Alive, setCmd_cmds, if_neg hqp] at hq
    simpa [hqp] using h q hq

theorem alive_setCmd (hq : r.Alive q) (hf : ∀ c, (f c).live = c.live) : (r.setCmd p f).Alive q := by
  rw [Alive, setCmd_cmds]
  split
  · next h => rw [hf, ← h]; exact hq
  · exact hq

theorem Inv.congr (h : r.Inv) (hc : r'.cmds = r.cmds) (hn : r'.next = r.next) : r'.Inv := by
  intro p hp
  rw [hc, hn]
  exact h p (by simpa [Alive, hc] using hp)

end Registry

open Registry

/-! The small steps, on live commands. -/

theorem touch_run (hp : r.Alive p) : (touch p).run r = pure ((), r) := by
  have hl : (r.cmds p).live = true := hp
  simp [touch, hl]

theorem readCmd_run {α : Type} (g : Cmd → α) (hp : r.Alive p) :
    (readCmd p g).run r = pure (g (r.cmds p), r) := by
  simp [readCmd, touch_run hp]

theorem writeCmd_run (hp : r.Alive p) : (writeCmd p f).run r = pure ((), r.setCmd p f) := by
  simp [writeCmd, touch_run hp]

theorem touchList_run : touchList.run r = pure ((), r.touched) := rfl

theorem suVectorArray_run : suVectorArray.run r = pure (r.items, r.touched) := by
  simp [suVectorArray, touchList_run]

theorem suVectorAppend_run (ok : Bool) : (suVectorAppend ok p).run r =
    pure (ok, if ok then r.touched.setItems (r.items ++ [p]) else r.touched) := by
  cases ok <;> simp [suVectorAppend, touchList_run]

theorem suVectorRemove_run (i : UInt32) : (suVectorRemove i).run r =
    pure ((), r.touched.setItems (r.items.eraseIdx i.toNat)) := by
  simp [suVectorRemove, touchList_run]

/-! `evsip_cli_cmd_init` -/

namespace Registry

def listed (r : Registry) (ok : Bool) : Registry :=
  if r.evsipCmdl = none then { r with evsipCmdl := if ok then some ⟨true, []⟩ else none } else r

theorem listed_cmds {ok : Bool} : (r.listed ok).cmds = r.cmds := by
  unfold listed
  split <;> rfl

theorem listed_next {ok : Bool} : (r.listed ok).next = r.next := by
  unfold listed
  split <;> rfl

theorem listed_trace {ok : Bool} : (r.listed ok).trace = r.trace := by
  unfold listed
  split <;> rfl

theorem listed_items {ok : Bool} : (r.listed ok).items = r.items := by
  unfold listed
  split
  · next h => cases ok <;> simp [items, h]
  · rfl

def cloned (r : Registry) (c : Cmd) : Registry :=
  { r.setCmd r.next (fun _ => c) with next := r.next + 1 }

theorem cloned_setCmd {c : Cmd} : (r.cloned c).setCmd r.next f = r.cloned (f c) := by
  simp [cloned, setCmd]

theorem cloned_cmds {c : Cmd} : (r.cloned c).cmds q = if q = r.next then c else r.cmds q :=
  Function.update_apply ..

@[simp] theorem cloned_next {c : Cmd} : (r.cloned c).next = r.next + 1 := rfl

theorem cloned_alive {c : Cmd} (h : c.live = true) : (r.cloned c).Alive r.next := by
  simpa [Alive, cloned_cmds] using h

end Registry

def newCmd (a : Allocs) (cmd help : CString) (privilege mode : UInt32) : Cmd :=
  let c : Cmd := { Cmd.zero true with magic := cmdMagic }
  if !a.strdupCmd then { c with live := false }
  else if !a.strdupHelp then { c with cmd := cmd, live := false }
  else { c with cmd := cmd, helpMsg := help, mode := mode, privilege := privilege }

theorem newCmd_magic (a : Allocs) (cmd help : CString) (privilege mode : UInt32) :
    (newCmd a cmd help privilege mode).magic = cmdMagic := by
  unfold newCmd
  split
  · rfl
  · split <;> rfl

theorem cliCmdClone_run (a : Allocs) (cmd help : CString) (privilege mode : UInt32) :
    (cliCmdClone a cmd help privilege mode).run r =
    if a.homeClone then
      (if a.strdupCmd && a.strdupHelp then (.success, some r.next) else (.errorOutOfResources, none),
        r.cloned (newCmd a cmd help privilege mode))
    else ((.errorOutOfResources, none), r) := by
  have hw : ∀ (c : Cmd) (f : Cmd → Cmd), c.live = true →
      (writeCmd r.next f).run (r.cloned c) = pure ((), r.cloned (f c)) := fun c f hc => by
    rw [writeCmd_run (cloned_alive hc), cloned_setCmd]
  have hz : (suHomeClone true).run r = pure (some r.next, r.cloned (.zero true)) := by
    simp [suHomeClone, cloned]
  rw [cliCmdClone, StateT.run_bind]
  cases a.homeClone with
  | false =>
    simp [suHomeClone]
    rfl
  | true =>
    rw [hz]
    cases hc : a.strdupCmd <;> cases hh : a.strdupHelp <;>
      simp [hw, hc, hh, newCmd, Cmd.zero, suHomeUnref, Cmd.release] <;> rfl

theorem cliCmdInit_run (a : Allocs) (cmd help : CString) (privilege mode : UInt32) :
    (cliCmdInit a cmd help privilege mode).run r =
    if (r.listed a.vectorCreate).evsipCmdl = none then
      ((.errorOutOfResources, none), r.listed a.vectorCreate)
    else (cliCmdClone a cmd help privilege mode).run (r.listed a.vectorCreate) := by
  rcases hl : r.evsipCmdl with _ | v
  · cases hv : a.vectorCreate
    · simp [cliCmdInit, listed, hl, hv]
      rfl
    · simp [cliCmdInit, listed, hl, hv]
  · simp [cliCmdInit, listed, hl]

/-! `evsip_cli_cmd_register` -/

theorem cliCmdRegister_run (h : r.Inv) (hp : r.Alive p) (ok : Bool) (execF : Option Nat)
    (arg : Nat) : (cliCmdRegister ok (some p) execF arg).run r =
    let r₁ := r.setCmd p (.callback execF arg)
    let r₂ := (r₁.touched.setCmd p (.position r.items.length)).touched
    if execF = none then (.errorInvalidHandle, r)
    else if r.evsipCmdl = none then (.errorOutOfResources, r₁)
    else if ok then (.success, r₂.setItems (r.items ++ [p]))
    else (.errorOutOfResources, r₂) := by
  have hm := (h p hp).1
  unfold cliCmdRegister
  cases execF with
  | none =>
    simp [readCmd_run, hp, hm]
    rfl
  | some f =>
    have hw : ∀ (r' : Registry) (g : Cmd → Cmd), r'.Alive p →
        (writeCmd p g).run r' = pure ((), r'.setCmd p g) := fun _ _ => writeCmd_run
    have hp' : ∀ r' : Registry, r'.cmds = (r.setCmd p (.callback (some f) arg)).cmds →
        r'.Alive p := fun r' hr => by simpa [Alive, hr] using hp
    rcases hl : r.evsipCmdl with _ | v
    · simp [readCmd_run, hp, hm, hw, hl]
      rfl
    · cases ok <;>
        simp [readCmd_run, hp, hm, hw, hl, suVectorArray_run, suVectorAppend_run, hp'] <;> rfl

/-! `evsip_cli_cmd_find` -/

def Registry.Matches (r : Registry) (pCmd : CString) (p : CmdPtr) : Prop :=
  (r.cmds p).cmd.bytes <+: pCmd.bytes

instance (pCmd : CString) : Decidable (r.Matches pCmd p) :=
  inferInstanceAs (Decidable (_ <+: _))

def Registry.scan (r : Registry) (pCmd : CString) (i : Nat) (l : List CmdPtr) :
    Option (CmdPtr × Nat) :=
  (l.zipIdx i).find? fun x => r.Matches pCmd x.1

theorem scan_mem {pCmd : CString} {i j : Nat} (h : r.scan pCmd i l = some (p, j)) : p ∈ l := by
  have hm := List.mem_of_find?_eq_some h
  exact List.fst_mem_of_mem_zipIdx hm

theorem scan_eq_some {pCmd : CString} {i j : Nat} (h : r.scan pCmd i l = some (p, j)) :
    ∃ k, j = i + k ∧ l[k]? = some p ∧ r.Matches pCmd p ∧
      ∀ m < k, ∀ q, l[m]? = some q → ¬ r.Matches pCmd q := by
  induction l generalizing i with
  | nil => cases h
  | cons a l ih =>
    rw [scan, List.zipIdx_cons, List.find?_cons] at h
    split at h
    · next hm =>
      cases h
      exact ⟨0, rfl, rfl, of_decide_eq_true hm, fun m hm => absurd hm (Nat.not_lt_zero m)⟩
    · next hm =>
      obtain ⟨k, rfl, hk, hmatch, hfirst⟩ := ih h
      refine ⟨k + 1, by omega, hk, hmatch, fun m hlt q hq => ?_⟩
      cases m with
      | zero =>
        cases hq
        exact of_decide_eq_false hm
      | succ m => exact hfirst m (Nat.lt_of_succ_lt_succ hlt) q hq

theorem scan_eq_none {pCmd : CString} {i : Nat} (h : r.scan pCmd i l = none) :
    ∀ q ∈ l, ¬ r.Matches pCmd q := by
  intro q hq hmatch
  obtain ⟨k, hk⟩ := List.mem_iff_getElem?.1 hq
  have hmem : (q, i + k) ∈ l.zipIdx i := List.mk_add_mem_zipIdx_iff_getElem?.2 hk
  simpa [hmatch] using List.find?_eq_none.1 h _ hmem

theorem findLoop_run (h : r.Inv) (pCmd : CString) (i : Nat) (hl : ∀ q ∈ l, r.Alive q) :
    (findLoop pCmd i l).run r = pure (match r.scan pCmd i l with
      | none => (none, r)
      | some (q, j) => (some q, r.setCmd q (.position j))) := by
  induction l generalizing i with
  | nil => rfl
  | cons p l ih =>
    have hp : r.Alive p := hl p (by simp)
    have hm := (h p hp).1
    have hc := strncmp_length_eq_zero_iff (r.cmds p).cmd.noNul pCmd.noNul
    rw [findLoop]
    by_cases hmatch : r.Matches pCmd p
    · simp [readCmd_run, hp, hm, hc.2 hmatch, writeCmd_run, scan, hmatch]
    · have hne := mt hc.1 hmatch
      simpa [readCmd_run, hp, hm, hne, scan, hmatch] using ih (i + 1) fun q hq => hl q (by simp [hq])

theorem cliCmdFind_run (h : r.Inv) (pCmd : CString) (hl : ∀ q ∈ r.items, r.Alive q) :
    (cliCmdFind (some pCmd) true).run r =
    match r.scan pCmd 0 (r.items.take (toInt r.items.length).toNat) with
    | none => ((.errorNotFound, none), r.touched)
    | some (q, j) =>
      ((.success, some q), r.touched.setCmd q (.position j)) := by
  have ht : r.touched.Inv := h.congr touched_cmds touched_next
  have hscan : ∀ l, r.touched.scan pCmd 0 l = r.scan pCmd 0 l := fun l => by
    rw [scan, scan]
    congr 1
    funext x
    exact decide_eq_decide.2 (by rw [Matches, touched_cmds, Matches])
  rw [cliCmdFind, if_neg (by decide)]
  refine (StateT.run_bind ..).trans ?_
  rw [suVectorArray_run, pure_bind]
  dsimp only
  generalize (toInt r.items.length).toNat = n
  have hrun := findLoop_run ht pCmd 0 (l := r.items.take n) fun q hq => by
    simpa [Alive] using hl q (List.mem_of_mem_take hq)
  rw [StateT.run_bind, hrun, hscan]
  cases r.scan pCmd 0 (r.items.take n) <;> rfl

/-! `evsip_cli_cmd_str` and `evsip_cli_cmd_execute` -/

theorem cliCmdStr_run (h : r.Inv) (hp : r.Alive p) :
    (cliCmdStr (some p)).run r = (some (r.cmds p).cmd, r) := by
  simp [cliCmdStr, readCmd_run, hp, (h p hp).1]
  rfl

theorem cliCmdExecute_run (h : r.Inv) (hp : r.Alive p) {n : Nat} (hf : (r.cmds p).execF = some n) :
    (cliCmdExecute (some p)).run r = (.success, r.record (.exec p n (r.cmds p).execArg)) := by
  simp [cliCmdExecute, readCmd_run, hp, (h p hp).1, hf]
  rfl

/-! `evsip_cli_cmd_destroy` and `evsip_cli_cmd_destroy_all` -/

theorem cliCmdDestroy_run (h : r.Inv) (hp : r.Alive p) : (cliCmdDestroy (some p)).run r =
    ((), (r.touched.setItems (r.items.eraseIdx (r.cmds p).index.toNat)).setCmd p .release) := by
  have hm := (h p hp).1
  have hp' : (r.touched.setItems (r.items.eraseIdx (r.cmds p).index.toNat)).Alive p := by
    simpa [Alive] using hp
  simp [cliCmdDestroy, readCmd_run, hp, hm, suVectorRemove_run, suHomeUnref, writeCmd_run hp']
  rfl

def Registry.emptied (r : Registry) : Registry :=
  let r' := (r.touched.setItems []).touched
  { r' with evsipCmdl := r'.evsipCmdl.map fun v => { v with live := false } }

theorem cliCmdDestroyAll_run : cliCmdDestroyAll.run r = ((), r.emptied) := by
  simp [cliCmdDestroyAll, suVectorEmpty, suVectorDestroy, touchList_run, emptied]
  rfl

end Evsip.Cmdlst
