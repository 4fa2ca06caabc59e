import Evsip.Cmdlst.History

/-! When the list holds what it should: each removal must be made where the command is. -/

namespace Evsip.Cmdlst
open CLib Registry Transition

variable {s t : Session} {op : Op} {l : List CmdPtr}

theorem eraseIdx_eq_erase_iff (h : l.Nodup) (i p : CmdPtr) :
    l.eraseIdx i = l.erase p ↔ l[i]? = some p ∨ p ∉ l ∧ l.length ≤ i := by
  induction l generalizing i with
  | nil => simp
  | cons a l ih =>
    have ha : a ∉ l := (List.nodup_cons.1 h).1
    have ih := ih (List.nodup_cons.1 h).2
    by_cases hap : a = p
    · subst hap
      cases i with
      | zero => simp
      | succ i =>
        -- a later position leaves the head, which `erase` would take
        have hne : a :: l.eraseIdx i ≠ l := fun he => ha (by rw [← he]; simp)
        have hget : l[i]? ≠ some a := fun hi => ha (List.mem_of_getElem? hi)
        simpa [hne] using hget
    · cases i with
      | zero =>
        have hne : l ≠ a :: l.erase p := fun he => ha (by rw [he]; simp)
        simp [hap, hne]
      | succ i => simpa [hap, Ne.symm hap] using ih i

/-- What holds of a session as long as it is faithful. -/
structure Inv (s : Session) : Prop where
  reg : s.reg.Inv
  nodup : s.expected.Nodup
  registered : ∀ p ∈ s.expected, p ∈ s.registered
  alive : ∀ p ∈ s.expected, s.reg.Alive p
  items : s.reg.items = s.expected
  noLate : s.reg.NoLate
  told : Told s

theorem Inv.init : Inv .init :=
  ⟨fun p hp => by simp [Alive, Registry.init, Session.init, Cmd.zero] at hp, List.nodup_nil,
    by simp [Session.init], by simp [Session.init], rfl,
    by simp [NoLate, Session.init, Registry.init], .init⟩

theorem faithful_step (h : Inv s) (hs : sessionStep s op t) : Faithful t ↔ op.Sound s := by
  obtain ⟨hlegal, rfl⟩ := hs
  have hno : ∀ {r' : Registry} {items gone reaches}, Moved s.reg r' items gone reaches →
      (r'.NoLate ↔ (reaches → s.torn = false)) := fun hm => by
    simp [hm.noLate, h.noLate, h.told.torn]
  cases op with
  | init a cmd help privilege mode =>
    have hm := init_moved h.reg a cmd help privilege mode
    simp [Faithful, Session.apply, hm.items_eq, h.items, hno hm, Op.Sound, Op.Reaches, Op.Positioned]
  | register p execF arg ok =>
    have hm := register_moved h.reg hlegal.1 ok execF arg
    simp [Faithful, Session.apply, hm.items_eq, h.items, hno hm, Op.Sound, Op.Reaches, Op.Positioned]
  | find pCmd outPtr =>
    have hm := find_moved h.reg (fun q hq => h.alive q (h.items ▸ hq)) pCmd outPtr
    simp [Faithful, Session.apply, hm.items_eq, h.items, hno hm, Op.Sound, Op.Reaches, Op.Positioned]
  | destroy p =>
    have hm := destroy_moved h.reg hlegal
    rw [h.told.place p hlegal] at hm
    have hitems := eraseIdx_eq_erase_iff h.nodup (s.place p) p
    simp only [Faithful, Session.apply, hm.items_eq, hno hm, h.items, hitems, Op.Sound, Op.Reaches,
      Op.Positioned]
    exact and_comm
  | destroyAll =>
    have hm := destroyAll_moved h.reg
    simp [Faithful, Session.apply, hm.items_eq, hno hm, Op.Sound, Op.Reaches, Op.Positioned]

theorem Inv.step (h : Inv s) (hs : sessionStep s op t) (hf : Faithful t) : Inv t := by
  have htold := h.told.step h.reg h.alive h.items hs
  obtain ⟨hlegal, rfl⟩ := hs
  cases op with
  | init a cmd help privilege mode =>
    have hm := init_moved h.reg a cmd help privilege mode
    exact ⟨hm.inv, h.nodup, h.registered, fun p hp => hm.alive p (h.alive p hp) id, hf.1, hf.2, htold⟩
  | register p execF arg ok =>
    have hm := register_moved h.reg hlegal.1 ok execF arg
    have hp : p ∉ s.expected := fun hp => hlegal.2 (h.registered p hp)
    by_cases hc : ((cliCmdRegister ok (some p) execF arg).run s.reg).1 = .success
    · have he : (s.apply (.register p execF arg ok)).expected = s.expected ++ [p] := if_pos hc
      have hr : (s.apply (.register p execF arg ok)).registered = p :: s.registered := if_pos hc
      refine ⟨hm.inv, ?_, fun q hq => ?_, fun q hq => ?_, hf.1, hf.2, htold⟩
      · rw [he]
        exact List.nodup_append.2 ⟨h.nodup, by simp, by simpa using fun q hq => ne_of_mem_of_not_mem hq hp⟩
      · rw [hr]
        rcases List.mem_append.1 (he ▸ hq) with hq | hq
        · exact List.mem_cons_of_mem p (h.registered q hq)
        · exact List.mem_cons.2 (.inl (List.mem_singleton.1 hq))
      · rcases List.mem_append.1 (he ▸ hq) with hq | hq
        · exact hm.alive q (h.alive q hq) id
        · exact hm.alive q (List.mem_singleton.1 hq ▸ hlegal.1) id
    · have he : (s.apply (.register p execF arg ok)).expected = s.expected := if_neg hc
      have hr : (s.apply (.register p execF arg ok)).registered = s.registered := if_neg hc
      exact ⟨hm.inv, he ▸ h.nodup, he ▸ hr ▸ h.registered,
        fun q hq => hm.alive q (h.alive q (he ▸ hq)) id, hf.1, hf.2, htold⟩
  | find pCmd outPtr =>
    have hm := find_moved h.reg (fun q hq => h.alive q (h.items ▸ hq)) pCmd outPtr
    exact ⟨hm.inv, h.nodup, h.registered, fun p hp => hm.alive p (h.alive p hp) id, hf.1, hf.2, htold⟩
  | destroy p =>
    have hm := destroy_moved h.reg hlegal
    refine ⟨hm.inv, h.nodup.erase p, fun q hq => h.registered q (List.mem_of_mem_erase hq),
      fun q hq => ?_, hf.1, hf.2, htold⟩
    have hq := (h.nodup.mem_erase_iff).1 hq
    exact hm.alive q (h.alive q hq.2) hq.1
  | destroyAll =>
    have hm := destroyAll_moved h.reg
    exact ⟨hm.inv, List.nodup_nil, by simp [Session.apply], by simp [Session.apply], hf.1, hf.2, htold⟩

/-- A run is faithful throughout exactly when every removal is made at the right position
and no call reaches a list that was destroyed. -/
theorem faithful_run_iff {ops : List Op} :
    Run (fun s op t => sessionStep s op t ∧ Faithful t) .init ops t ↔
      Run (guarded sessionStep fun s op => op.Sound s) .init ops t :=
  run_good_iff (fun _ _ _ => faithful_step) (fun _ _ _ => Inv.step) Inv.init

theorem not_faithful_unregistered : ∃ t, Run sessionStep .init
    [.init .all (.ofBytes [97]) (.ofBytes []) 1 1, .register 0 (some 0) 0 true,
      .init .all (.ofBytes [98]) (.ofBytes []) 1 1, .destroy 1] t ∧
    t.expected = [0] ∧ t.reg.items = [] :=
  ⟨_, .cons ⟨trivial, rfl⟩ (.cons ⟨⟨rfl, by decide⟩, rfl⟩ (.cons ⟨trivial, rfl⟩
    (.cons ⟨rfl, rfl⟩ (.nil _)))), by decide, by decide⟩

end Evsip.Cmdlst
