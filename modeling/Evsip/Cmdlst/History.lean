import Evsip.Cmdlst.Session

/-! The cached positions follow the calls: where a command was put last is told by the history. -/

namespace Evsip.Cmdlst
open CLib Registry

/-- What the calls tell of the list and of the commands that are alive is so in the registry. -/
structure Told (s : Session) : Prop where
  place : ∀ p, s.reg.Alive p → (s.reg.cmds p).index.toNat = s.place p
  name : ∀ p, s.reg.Alive p → (s.reg.cmds p).cmd = s.name p
  made : s.reg.evsipCmdl.isSome = s.made
  torn : s.reg.Dangling ↔ s.torn = true

variable {s t : Session} {op : Op} {r r' : Registry} {p q : CmdPtr} {cmd help : CString}
  {o : Option CmdPtr}

theorem Told.init : Told .init :=
  ⟨fun _ _ => rfl, fun _ _ => rfl, rfl, by simp [Session.init, Registry.init, Dangling]⟩

theorem Session.placed_some {i : ℕ} :
    s.placed (some (p, i)) q = if q = p then i else s.place q := Function.update_apply ..

theorem Session.placed_map : s.placed (o.map (·, 0)) q = if o = some q then 0 else s.place q := by
  rcases o with _ | p
  · rfl
  · rw [Option.map_some, placed_some]
    simp only [Option.some.injEq, eq_comm]

theorem Session.named_apply : s.named cmd o q = if o = some q then cmd else s.name q := by
  rcases o with _ | p
  · rfl
  · change Function.update s.name p cmd q = _
    rw [Function.update_apply]
    simp only [Option.some.injEq, eq_comm]

theorem newCmd_live {a : Allocs} {privilege mode : UInt32}
    (h : (newCmd a cmd help privilege mode).live = true) :
    (a.strdupCmd && a.strdupHelp) = true ∧ (newCmd a cmd help privilege mode).cmd = cmd ∧
      (newCmd a cmd help privilege mode).index = 0 := by
  rcases hc : a.strdupCmd with _ | _ <;> rcases hh : a.strdupHelp with _ | _ <;>
    simp [newCmd, hc, hh, Cmd.zero] at h ⊢

theorem init_cmds (a : Allocs) (cmd help : CString) (privilege mode : UInt32) :
    let x := (cliCmdInit a cmd help privilege mode).run r
    x.2.evsipCmdl = (r.listed a.vectorCreate).evsipCmdl ∧ ∀ q, x.2.Alive q →
      x.1.2 ≠ some q ∧ x.2.cmds q = r.cmds q ∨
        x.1.2 = some q ∧ (x.2.cmds q).cmd = cmd ∧ (x.2.cmds q).index = 0 := by
  have hold : ∀ q, (r.listed a.vectorCreate).cmds q = r.cmds q := fun q => by rw [listed_cmds]
  dsimp only
  rw [cliCmdInit_run, cliCmdClone_run]
  split_ifs
  · exact ⟨rfl, fun q _ => .inl ⟨(Option.some_ne_none q).symm, hold q⟩⟩
  · next hclone hdup =>
    refine ⟨rfl, fun q hq => ?_⟩
    by_cases hqn : q = (r.listed a.vectorCreate).next
    · subst hqn
      rw [Alive, cloned_cmds, if_pos rfl] at hq
      rw [cloned_cmds, if_pos rfl]
      exact .inr ⟨rfl, (newCmd_live hq).2⟩
    · rw [cloned_cmds, if_neg hqn]
      exact .inl ⟨fun h => hqn (Option.some.inj h).symm, hold q⟩
  · next hclone hdup =>
    refine ⟨rfl, fun q hq => ?_⟩
    by_cases hqn : q = (r.listed a.vectorCreate).next
    · subst hqn
      rw [Alive, cloned_cmds, if_pos rfl] at hq
      exact absurd (newCmd_live hq).1 hdup
    · rw [cloned_cmds, if_neg hqn]
      exact .inl ⟨(Option.some_ne_none q).symm, hold q⟩
  · exact ⟨rfl, fun q _ => .inl ⟨(Option.some_ne_none q).symm, hold q⟩⟩

theorem listed_isSome {ok : Bool} :
    (r.listed ok).evsipCmdl.isSome = (r.evsipCmdl.isSome || ok) := by
  unfold listed
  rcases h : r.evsipCmdl with _ | v
  · cases ok <;> rfl
  · simp [h]

theorem listed_dangling {ok : Bool} : (r.listed ok).Dangling ↔ r.Dangling := by
  unfold listed
  rcases h : r.evsipCmdl with _ | v
  · cases ok <;> simp [Dangling, h]
  · simp [Dangling, h]

theorem Told.created (h : Told s) (a : Allocs) (cmd help : CString) (privilege mode : UInt32) :
    Told (s.apply (.init a cmd help privilege mode)) := by
  obtain ⟨hlist, hcmds⟩ := init_cmds (r := s.reg) a cmd help privilege mode
  constructor
  · intro q hq
    dsimp only [Session.apply] at hq ⊢
    rw [Session.placed_map]
    rcases hcmds q hq with ⟨hne, heq⟩ | ⟨heq, -, hindex⟩
    · rw [Alive, heq] at hq
      rw [if_neg hne, heq]
      exact h.place q hq
    · rw [if_pos heq, hindex]
      rfl
  · intro q hq
    dsimp only [Session.apply] at hq ⊢
    rw [Session.named_apply]
    rcases hcmds q hq with ⟨hne, heq⟩ | ⟨heq, hname, -⟩
    · rw [Alive, heq] at hq
      rw [if_neg hne, heq]
      exact h.name q hq
    · rw [if_pos heq, hname]
  · dsimp only [Session.apply]
    rw [hlist, listed_isSome, h.made]
  · have hd : ((cliCmdInit a cmd help privilege mode).run s.reg).2.Dangling ↔ s.reg.Dangling := by
      rw [Dangling, hlist, ← Dangling, listed_dangling]
    exact hd.trans h.torn

/-- A call that makes no command and leaves the list where it is, and the positions after it. -/
structure Puts (r r' : Registry) (place : CmdPtr → ℕ) : Prop where
  list : r'.evsipCmdl.isSome = r.evsipCmdl.isSome
  dangling : r'.Dangling ↔ r.Dangling
  cmds : ∀ q, r'.Alive q → r.Alive q ∧ (r'.cmds q).cmd = (r.cmds q).cmd ∧
    (r'.cmds q).index.toNat = place q

theorem Told.puts {place : CmdPtr → ℕ} (h : Told s) (hp : Puts s.reg t.reg place)
    (hplace : ∀ q, s.reg.Alive q → t.place q = place q) (hname : t.name = s.name)
    (hmade : t.made = s.made) (htorn : t.torn = s.torn) : Told t where
  place q hq := by
    obtain ⟨hold, -, hindex⟩ := hp.cmds q hq
    rw [hindex, hplace q hold]
  name q hq := by
    obtain ⟨hold, hcmd, -⟩ := hp.cmds q hq
    rw [hcmd, h.name q hold, hname]
  made := by rw [hp.list, h.made, hmade]
  torn := by rw [hp.dangling, h.torn, htorn]

theorem register_puts (h : r.Inv) (hp : r.Alive p) (execF : Option Nat) (arg : Nat) (ok : Bool) :
    Puts r ((cliCmdRegister ok (some p) execF arg).run r).2 fun q =>
      if q = p ∧ execF.isSome ∧ r.evsipCmdl.isSome then r.items.length % UInt32.size
      else (r.cmds q).index.toNat := by
  rw [cliCmdRegister_run h hp]
  dsimp only
  rcases execF with _ | n
  · exact ⟨rfl, .rfl, fun q hq => ⟨hq, rfl, by simp⟩⟩
  rcases hl : r.evsipCmdl with _ | v
  · refine ⟨by simp [hl], by simp, fun q hq => ?_⟩
    by_cases hqp : q = p
    · subst hqp
      exact ⟨hp, by simp [Cmd.callback], by simp [Cmd.callback]⟩
    · have hq' : r.Alive q := by simpa [Alive, setCmd_cmds, hqp] using hq
      exact ⟨hq', by simp [setCmd_cmds, hqp], by simp [setCmd_cmds, hqp]⟩
  · have hcmds : ∀ q, (((r.setCmd p (.callback (some n) arg)).touched.setCmd p
        (.position r.items.length)).touched).cmds q =
          if q = p then ((r.cmds p).callback (some n) arg).position r.items.length
          else r.cmds q := fun q => by
      rw [touched_cmds, setCmd_cmds, touched_cmds, setCmd_cmds, setCmd_cmds, if_pos rfl]
      split_ifs <;> rfl
    have hputs : ∀ {r' : Registry}, r'.cmds = (((r.setCmd p (.callback (some n) arg)).touched.setCmd
        p (.position r.items.length)).touched).cmds → r'.evsipCmdl.isSome = r.evsipCmdl.isSome →
        (r'.Dangling ↔ r.Dangling) → Puts r r' fun q =>
          if q = p ∧ (some n).isSome ∧ r.evsipCmdl.isSome then r.items.length % UInt32.size
          else (r.cmds q).index.toNat := fun hr hlist hd => by
      refine ⟨hlist, hd, fun q hq => ?_⟩
      rw [Alive, hr, hcmds] at hq
      rw [hr, hcmds]
      by_cases hqp : q = p
      · subst hqp
        simpa [hl, Cmd.callback, Cmd.position] using hp
      · rw [if_neg hqp] at hq ⊢
        exact ⟨hq, rfl, by simp [hqp]⟩
    rw [hl] at hputs
    rw [if_neg (by simp), if_neg (by simp)]
    cases ok with
    | false => exact hputs rfl (by simp [hl]) (by simp)
    | true => exact hputs rfl (by simp [setItems, hl]) (by simp)

theorem toNat_toInt_lt (n : ℕ) : (toInt n).toNat < UInt32.size := by
  unfold toInt
  have := (UInt32.ofNat n).toInt32.toInt_lt
  have hsize : UInt32.size = 4294967296 := rfl
  omega

theorem scan_lt {text : CString} {i : ℕ}
    (hs : r.scan text 0 (r.items.take (toInt r.items.length).toNat) = some (p, i)) :
    r.items[i]? = some p ∧ i < UInt32.size := by
  obtain ⟨k, hi, hget, -, -⟩ := scan_eq_some hs
  obtain rfl : i = k := by simpa using hi
  rw [List.getElem?_take] at hget
  split_ifs at hget with hlt
  exact ⟨hget, hlt.trans (toNat_toInt_lt _)⟩

theorem find_puts (h : r.Inv) (hl : ∀ q ∈ r.items, r.Alive q) (text : CString) :
    Puts r ((cliCmdFind (some text) true).run r).2 fun q =>
      match r.scan text 0 (r.items.take (toInt r.items.length).toNat) with
      | some (p, i) => if q = p then i else (r.cmds q).index.toNat
      | none => (r.cmds q).index.toNat := by
  rw [cliCmdFind_run h text hl]
  rcases hs : r.scan text 0 (r.items.take (toInt r.items.length).toNat) with _ | ⟨p, i⟩
  · refine ⟨by rw [touched_list], touched_dangling, fun q hq => ?_⟩
    rw [Alive, touched_cmds] at hq
    rw [touched_cmds]
    exact ⟨hq, rfl, rfl⟩
  · obtain ⟨hget, hlt⟩ := scan_lt hs
    refine ⟨by simp, by simp, fun q hq => ?_⟩
    by_cases hqp : q = p
    · subst hqp
      have hi : ((r.cmds q).position i).index.toNat = i := Nat.mod_eq_of_lt hlt
      exact ⟨hl q (List.mem_of_getElem? hget), by simp [Cmd.position], by simpa using hi⟩
    · have hq' : r.Alive q := by simpa [Alive, setCmd_cmds, hqp] using hq
      exact ⟨hq', by simp [setCmd_cmds, hqp], by simp [setCmd_cmds, hqp]⟩

theorem destroy_puts (h : r.Inv) (hp : r.Alive p) :
    Puts r ((cliCmdDestroy (some p)).run r).2 fun q => (r.cmds q).index.toNat := by
  rw [cliCmdDestroy_run h hp]
  refine ⟨by simp [setItems], by simp, fun q hq => ?_⟩
  by_cases hqp : q = p
  · subst hqp
    simp [Alive, Cmd.release] at hq
  · have hq' : r.Alive q := by simpa [Alive, setCmd_cmds, hqp] using hq
    exact ⟨hq', by simp [setCmd_cmds, hqp], by simp [setCmd_cmds, hqp]⟩

theorem Told.destroyed (h : Told s) : Told (s.apply .destroyAll) := by
  have hcmds : s.reg.emptied.cmds = s.reg.cmds := by simp [emptied]
  have hlist : s.reg.emptied.evsipCmdl.isSome = s.reg.evsipCmdl.isSome := by
    simp [emptied, setItems]
  have hrun : (s.apply .destroyAll).reg = s.reg.emptied := by
    rw [Session.apply, cliCmdDestroyAll_run]
  have hd : s.reg.emptied.Dangling ↔ s.made = true := by
    rw [← h.made]
    rcases hl : s.reg.evsipCmdl with _ | v <;> simp [Dangling, emptied, setItems, hl]
  have htorn : s.torn = true → s.made = true := fun ht => by
    obtain ⟨v, hv, -⟩ := h.torn.2 ht
    rw [← h.made, hv]
    rfl
  constructor
  · intro q hq
    rw [hrun, Alive, hcmds] at hq
    rw [hrun, hcmds]
    exact h.place q hq
  · intro q hq
    rw [hrun, Alive, hcmds] at hq
    rw [hrun, hcmds]
    exact h.name q hq
  · rw [hrun, hlist]
    exact h.made
  · rw [hrun, hd]
    have hafter : (s.apply .destroyAll).torn = (s.torn || s.made) := rfl
    rw [hafter, Bool.or_eq_true]
    exact ⟨.inr, fun hor => hor.elim htorn id⟩

theorem find_zipIdx {text : CString} {l : List CmdPtr} {i : ℕ}
    (hnames : ∀ q ∈ l, (s.reg.cmds q).cmd = s.name q) :
    ((l.zipIdx i).find? fun x => (s.name x.1).bytes <+: text.bytes) = s.reg.scan text i l := by
  induction l generalizing i with
  | nil => rfl
  | cons q l ih =>
    obtain ⟨hname, hnames⟩ := List.forall_mem_cons.1 hnames
    rw [scan, List.zipIdx_cons, List.find?_cons, List.find?_cons, ih hnames, scan]
    simp only [Matches, hname]

theorem Told.found (h : Told s) (hl : ∀ q ∈ s.reg.items, s.reg.Alive q)
    (hitems : s.reg.items = s.expected) (text : CString) : s.found (some text) true =
      s.reg.scan text 0 (s.reg.items.take (toInt s.reg.items.length).toNat) := by
  rw [Session.found, ← hitems]
  exact find_zipIdx fun q hq => h.name q (hl q (List.take_subset _ _ hq))

theorem Told.step (h : Told s) (hreg : s.reg.Inv) (hl : ∀ q ∈ s.expected, s.reg.Alive q)
    (hitems : s.reg.items = s.expected) (hs : sessionStep s op t) : Told t := by
  obtain ⟨hlegal, rfl⟩ := hs
  have hl' : ∀ q ∈ s.reg.items, s.reg.Alive q := hitems ▸ hl
  cases op with
  | init a cmd help privilege mode => exact h.created a cmd help privilege mode
  | register p execF arg ok =>
    refine h.puts (t := s.apply (.register p execF arg ok))
      (register_puts hreg hlegal.1 execF arg ok) (fun q hq => ?_) rfl rfl rfl
    dsimp only [Session.apply]
    rw [hitems, h.made, h.place q hq]
    by_cases hput : execF.isSome ∧ s.made
    · rw [if_pos hput, Session.placed_some]
      simp only [hput, and_true]
    · rw [if_neg hput, if_neg fun hc => hput hc.2]
  | find pCmd outPtr =>
    rcases outPtr with _ | _
    · rcases pCmd with _ | text <;> exact h
    rcases pCmd with _ | text
    · exact h
    have hfound := h.found hl' hitems text
    refine h.puts (t := s.apply (.find (some text) true)) (find_puts hreg hl' text)
      (fun q hq => ?_) rfl rfl rfl
    rw [← hfound, h.place q hq]
    dsimp only [Session.apply]
    rcases s.found (some text) true with _ | ⟨p, i⟩
    · rfl
    · exact Session.placed_some
  | destroy p =>
    exact h.puts (t := s.apply (.destroy p)) (destroy_puts hreg hlegal)
      (fun q hq => (h.place q hq).symm) rfl rfl rfl
  | destroyAll => exact h.destroyed

end Evsip.Cmdlst
