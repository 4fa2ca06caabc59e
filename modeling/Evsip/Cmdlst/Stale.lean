import Evsip.Cmdlst.Faithful
import Evsip.Lib.Places

/-! Clients that destroy listed commands only. A command can be destroyed as long as none before it
was destroyed since it was registered or last found. -/

namespace Evsip.Cmdlst
open CLib Registry Transition Places

/-- A session, with the listed commands that a removal has moved since they were last found. -/
structure Client where
  session : Session
  stale : List CmdPtr

def Client.init : Client := ⟨.init, []⟩

/-- Listed commands are destroyed, one by one, and there is a position for every command. -/
def Op.Orderly (s : Session) : Op → Prop
  | register .. => s.expected.length < UInt32.size
  | destroy p => p ∈ s.expected
  | destroyAll => False
  | _ => True

def Client.staled (c : Client) : Op → List CmdPtr
  | .find pCmd outPtr =>
    match ((cliCmdFind pCmd outPtr).run c.session.reg).1.2 with
    | some p => c.stale.filter (· ≠ p)
    | none => c.stale
  | .destroy p => c.session.expected.drop (c.session.expected.idxOf p + 1) ++ c.stale
  | _ => c.stale

def clientStep (c : Client) (op : Op) (d : Client) : Prop :=
  sessionStep c.session op d.session ∧ op.Orderly c.session ∧ d.stale = c.staled op

def Op.Timely (c : Client) : Op → Prop
  | destroy p => p ∉ c.stale
  | _ => True

structure Client.Tidy (c : Client) : Prop where
  inv : Inv c.session
  whole : c.session.torn = false
  tracks : Tracks c.session.expected c.session.place c.stale

variable {c d : Client} {op : Op} {ops : List Op} {s : Session} {p : CmdPtr}

theorem Client.Tidy.init : Client.init.Tidy := ⟨.init, rfl, .nil⟩

theorem find_eq (h : Inv s) (pCmd : Option CString) (outPtr : Bool) :
    ((cliCmdFind pCmd outPtr).run s.reg).1.2 = (s.found pCmd outPtr).map Prod.fst := by
  rcases outPtr with _ | _
  · cases pCmd <;> rfl
  rcases pCmd with _ | text
  · rfl
  have hl : ∀ q ∈ s.reg.items, s.reg.Alive q := fun q hq => h.alive q (h.items ▸ hq)
  rw [cliCmdFind_run h.reg text hl, h.told.found hl h.items]
  rcases s.reg.scan text 0 (s.reg.items.take (toInt s.reg.items.length).toNat) with _ | x <;> rfl

theorem found_getElem? {pCmd : Option CString} {outPtr : Bool} {i : ℕ} (h : Inv s)
    (hx : s.found pCmd outPtr = some (p, i)) : s.expected[i]? = some p := by
  rcases outPtr with _ | _
  · cases pCmd with
    | none => cases hx
    | some _ => cases hx
  rcases pCmd with _ | text
  · cases hx
  have hl : ∀ q ∈ s.reg.items, s.reg.Alive q := fun q hq => h.alive q (h.items ▸ hq)
  rw [h.told.found hl h.items] at hx
  exact h.items ▸ (scan_lt hx).1

theorem init_next {r : Registry} {a : Allocs} {cmd help : CString} {privilege mode : UInt32}
    (h : ((cliCmdInit a cmd help privilege mode).run r).1.2 = some p) : p = r.next := by
  rw [cliCmdInit_run, cliCmdClone_run, listed_next] at h
  split_ifs at h
  exact (Option.some.inj h).symm

theorem register_success {r : Registry} {ok : Bool} {execF : Option Nat} {arg : Nat} (h : r.Inv)
    (hp : r.Alive p) (hc : ((cliCmdRegister ok (some p) execF arg).run r).1 = .success) :
    execF.isSome ∧ r.evsipCmdl.isSome := by
  rw [cliCmdRegister_run h hp] at hc
  dsimp only at hc
  split_ifs at hc with hf hl
  exact ⟨Option.isSome_iff_ne_none.2 hf, Option.isSome_iff_ne_none.2 hl⟩

theorem faithful_iff_timely (h : c.Tidy) (hs : clientStep c op d) :
    Faithful d.session ↔ op.Timely c := by
  rw [faithful_step h.inv hs.1, Op.Sound, and_iff_right fun _ => h.whole]
  cases op with
  | destroy p =>
    have hp : p ∈ c.session.expected := hs.2.1
    have hpos : (Op.destroy p).Positioned c.session ↔
        c.session.expected[c.session.place p]? = some p := by simp [Op.Positioned, hp]
    exact hpos.trans (h.tracks.getElem?_place hp)
  | _ => exact .rfl

theorem Client.Tidy.step (h : c.Tidy) (hs : clientStep c op d) (hf : Faithful d.session) :
    d.Tidy := by
  have htimely := (faithful_iff_timely h hs).1 hf
  obtain ⟨hst, horderly, hstale⟩ := hs
  have hinv := h.inv.step hst hf
  obtain ⟨hlegal, heq⟩ := hst
  rw [heq] at hf hinv
  obtain ⟨s, stale⟩ := d
  dsimp only at heq hstale
  subst heq hstale
  cases op with
  | init a cmd help privilege mode =>
    refine ⟨hinv, h.whole, h.tracks.congr fun p hp => ?_⟩
    dsimp only [Session.apply]
    rw [Session.placed_map]
    -- the command that is made was not there before
    refine if_neg fun hnew => ?_
    have hlt := (h.inv.reg p (h.inv.alive p hp)).2
    exact absurd (init_next hnew) hlt.ne
  | register p execF arg ok =>
    have hp : p ∉ c.session.expected := fun hp => hlegal.2 (h.inv.registered p hp)
    have hlen : c.session.expected.length % UInt32.size = c.session.expected.length :=
      Nat.mod_eq_of_lt horderly
    have htracks := h.tracks.congr (g := (c.session.apply (.register p execF arg ok)).place)
      fun q hq => by
        dsimp only [Session.apply]
        split_ifs
        · rw [Session.placed_some, if_neg (ne_of_mem_of_not_mem hq hp)]
        · rfl
    refine ⟨hinv, h.whole, ?_⟩
    by_cases hc : ((cliCmdRegister ok (some p) execF arg).run c.session.reg).1 = .success
    · have he : (c.session.apply (.register p execF arg ok)).expected = c.session.expected ++ [p] :=
        if_pos hc
      have hput := register_success h.inv.reg hlegal.1 hc
      rw [h.inv.told.made] at hput
      rw [he]
      refine htracks.append hp ?_
      dsimp only [Session.apply]
      rw [if_pos hput, Session.placed_some, if_pos rfl, hlen]
    · have he : (c.session.apply (.register p execF arg ok)).expected = c.session.expected :=
        if_neg hc
      rw [he]
      exact htracks
  | find pCmd outPtr =>
    refine ⟨hinv, h.whole, ?_⟩
    dsimp only [Client.staled, Session.apply]
    rw [find_eq h.inv]
    rcases hx : c.session.found pCmd outPtr with _ | ⟨p, i⟩
    · exact h.tracks
    · refine h.tracks.found (found_getElem? h.inv hx) ?_ fun q _ hq => ?_
      · rw [Session.placed_some, if_pos rfl]
      · rw [Session.placed_some, if_neg hq]
  | destroy p => exact ⟨hinv, h.whole, h.tracks.erase horderly htimely⟩
  | destroyAll => cases horderly

/-- The clients whose list is always right are those that destroy no command that was left behind
by the removal of one before it. -/
theorem destroy_order_iff :
    Run (fun c op d => clientStep c op d ∧ Faithful d.session) .init ops c ↔
      Run (guarded clientStep fun c op => op.Timely c) .init ops c :=
  run_good_iff (I := Client.Tidy) (G := fun c : Client => Faithful c.session)
    (fun _ _ _ => faithful_iff_timely) (fun _ _ _ => Client.Tidy.step) .init

end Evsip.Cmdlst
