import Evsip.Register.Outcome

/-! Who owns an end point. One that is on the list belongs to the list; any other one
should have been destroyed, once, and not be used again. -/

namespace Evsip.Register
open CLib Endp Store Transition

/-- Every end point created is listed once and not destroyed, or not listed and destroyed
once, and none was used after its destruction. -/
structure Owned (s : Store) : Prop where
  owner : ∀ p < s.next, s.items.count p = 1 ∧ s.trace.count (.homeUnref p) = 0 ∨
    p ∉ s.items ∧ s.trace.count (.homeUnref p) = 1
  noLateAccess : ∀ p, .lateAccess p ∉ s.trace

/-- The request does not remove a listed end point, and puts on the list the one it creates. -/
def KeepsOwner (s : Store) (i : Allocs × Option Sip) : Prop :=
  ∀ m c, i.2 = some m → m.Accepted → m.sipContact = some c →
    (∃ p ∈ s.items, s.hostOf p = c.mUrl.urlHost) ∧ m.exptime > 0 ∨
    (∀ p ∈ s.items, s.hostOf p ≠ c.mUrl.urlHost) ∧
      (m.exptime > 0 → i.1.homeClone → s.listable i.1.vectorCreate i.1.vectorAppend)

variable {a : Allocs} {c : SipContact} {s t : Store} {p : EndpPtr} {i : Allocs × Option Sip}

theorem Inv.count_unref (h : Inv s) (hp : p ∈ s.items) : s.trace.count (.homeUnref p) = 0 :=
  List.count_eq_zero.2 fun hu => (h.unref p hu).2 hp

theorem Inv.owned_iff_off_list (h : Inv s) : Owned s ↔
    (∀ p < s.next, p ∉ s.items → s.trace.count (.homeUnref p) = 1) ∧
      ∀ p, .lateAccess p ∉ s.trace := by
  constructor
  · intro ho
    refine ⟨fun p hp hn => ?_, ho.noLateAccess⟩
    rcases ho.owner p hp with ⟨hc, -⟩ | ⟨-, hu⟩
    · rw [List.count_eq_zero.2 hn] at hc
      cases hc
    · exact hu
  · rintro ⟨ho, hl⟩
    refine ⟨fun p hp => ?_, hl⟩
    by_cases hm : p ∈ s.items
    · exact .inl ⟨List.count_eq_one_of_mem h.nodup hm, h.count_unref hm⟩
    · exact .inr ⟨hm, ho p hp hm⟩

theorem owned_used {n : ℕ} : Owned (s.used n) ↔ Owned s :=
  ⟨fun h => ⟨h.owner, h.noLateAccess⟩, fun h => ⟨h.owner, h.noLateAccess⟩⟩

theorem owned_refresh : Owned (refresh a c s p) ↔ Owned s := by
  constructor <;> rintro ⟨h, h'⟩ <;> exact ⟨by simpa using h, by simpa using h'⟩

theorem owned_register (h : Inv s) (hc : ∀ q ∈ s.items, s.hostOf q ≠ c.mUrl.urlHost) :
    Owned (register a c s) ↔ Owned s ∧ s.listable a.vectorCreate a.vectorAppend := by
  have hun : s.trace.count (.homeUnref s.next) = 0 :=
    List.count_eq_zero.2 fun hu => absurd (h.unref _ hu).1 (lt_irrefl _)
  rw [(h.register hc).owned_iff_off_list, h.owned_iff_off_list, register_next, register_trace, register_items]
  constructor
  · rintro ⟨ho, hl⟩
    -- off the list, the new end point would have no owner and no end
    have hli : s.listable a.vectorCreate a.vectorAppend := by
      by_contra hli
      have := ho s.next (Nat.lt_succ_self _) (by rw [if_neg hli]; exact h.next_notMem)
      rw [hun] at this
      cases this
    refine ⟨⟨fun q hq hm => ho q (Nat.lt_succ_of_lt hq) ?_, hl⟩, hli⟩
    rw [if_pos hli]
    simpa [hm] using hq.ne
  · rintro ⟨⟨ho, hl⟩, hli⟩
    rw [if_pos hli]
    refine ⟨fun q hq hm => ?_, hl⟩
    simp only [List.mem_append, List.mem_singleton, not_or] at hm
    exact ho q (Nat.lt_of_le_of_ne (Nat.le_of_lt_succ hq) hm.2) hm.1

theorem not_owned_detach : ¬ Owned (s.detach p) := fun h =>
  h.noLateAccess p (by simp [detach])

theorem owned_step (h : Inv s) (hg : Owned s) (hs : registerStep s i t) :
    Owned t ↔ KeepsOwner s i := by
  obtain ⟨a, sip⟩ := i
  obtain ⟨r, hr⟩ := hs
  cases registerHandler_cases h hr with
  | refused hno _ => exact iff_of_true hg fun m c hm ha _ => absurd ha (hno m hm)
  | noMemory _ hc hsc _ ha =>
    refine iff_of_true (owned_used.2 hg) ?_
    rintro _ c' ⟨⟩ _ hc'
    cases hc.symm.trans hc'
    exact .inr ⟨scan_none hsc, fun _ h1 => absurd (ha.symm.trans h1) Bool.false_ne_true⟩
  | registered hm hc hsc he ha =>
    rw [owned_used, owned_register (h.used 1) (scan_none_used 1 hsc), owned_used, used_listable]
    constructor
    · rintro ⟨-, hli⟩ _ c' ⟨⟩ _ hc'
      cases hc.symm.trans hc'
      exact .inr ⟨scan_none hsc, fun _ _ => hli⟩
    · intro hk
      rcases hk _ _ rfl hm hc with ⟨⟨p, hp, hph⟩, -⟩ | ⟨-, hli⟩
      · exact absurd hph (scan_none hsc p hp)
      · exact ⟨hg, hli he ha⟩
  | refreshed _ hc hsc he =>
    rw [owned_used, owned_refresh, owned_used]
    refine iff_of_true hg ?_
    rintro _ c' ⟨⟩ _ hc'
    cases hc.symm.trans hc'
    exact .inl ⟨⟨_, (scan_some hsc).1, (scan_some hsc).2.1⟩, he⟩
  | removed hm hc hsc he =>
    refine iff_of_false (mt owned_used.1 not_owned_detach) fun hk => ?_
    rcases hk _ _ rfl hm hc with ⟨-, hpos⟩ | ⟨hall, -⟩
    · exact he hpos
    · exact hall _ (scan_some hsc).1 (scan_some hsc).2.1
  | absent _ hc hsc he =>
    refine iff_of_true (owned_used.2 hg) ?_
    rintro _ c' ⟨⟩ _ hc'
    cases hc.symm.trans hc'
    exact .inr ⟨scan_none hsc, fun hpos => absurd hpos he⟩

theorem not_owned_step (h : Inv s) (hg : ¬ Owned s) (hs : registerStep s i t) : ¬ Owned t := by
  obtain ⟨a, sip⟩ := i
  obtain ⟨r, hr⟩ := hs
  cases registerHandler_cases h hr with
  | refused _ _ => exact hg
  | noMemory _ _ _ _ _ => exact mt owned_used.1 hg
  | registered _ _ hsc _ _ =>
    rw [owned_used, owned_register (h.used 1) (scan_none_used 1 hsc), owned_used]
    exact fun ho => hg ho.1
  | refreshed _ _ _ _ => rwa [owned_used, owned_refresh, owned_used]
  | removed _ _ _ _ => exact mt owned_used.1 not_owned_detach
  | absent _ _ _ _ => exact mt owned_used.1 hg

theorem owned_init : Owned Store.init :=
  ⟨fun p hp => absurd hp (Nat.not_lt_zero p), by simp [Store.init]⟩

/-- Ownership holds through a run exactly as long as nothing listed is removed and nothing
created stays off the list. -/
theorem owned_iff {is : List (Allocs × Option Sip)} (h : Run registerStep Store.init is t) :
    Owned t ↔ Run (guarded registerStep KeepsOwner) Store.init is t :=
  h.good_iff_guarded (fun _ _ _ => Inv.step) (fun _ _ _ => owned_step)
    (fun _ _ _ => not_owned_step) Inv.init owned_init

theorem owned_iff_two_hosts : ∃ t, Run registerStep Store.init
    [(.all, some (.request contactA 300)), (.all, some (.request contactB 300)),
      (.all, some (.request contactA 300))] t ∧ Owned t := by
  have h₁ := contactA_step
  have h₂ : registerStep _ (.all, some (.request contactB 300)) _ :=
    request_step (Inv.init.step h₁) rfl
  have h₃ : registerStep _ (.all, some (.request contactA 300)) _ :=
    request_step ((Inv.init.step h₁).step h₂) rfl
  refine ⟨_, .cons h₁ (.cons h₂ (.cons h₃ (.nil _))),
    (owned_iff (.cons h₁ (.cons h₂ (.cons h₃ (.nil _))))).2
      (.cons ⟨h₁, ?_⟩ (.cons ⟨h₂, ?_⟩ (.cons ⟨h₃, ?_⟩ (.nil _))))⟩
  · rintro _ _ ⟨⟩ _ ⟨⟩
    exact .inr ⟨by decide, fun _ _ => rfl⟩
  · rintro _ _ ⟨⟩ _ ⟨⟩
    exact .inr ⟨by decide, fun _ _ => rfl⟩
  · rintro _ _ ⟨⟩ _ ⟨⟩
    exact .inl ⟨by decide, by decide⟩

theorem not_owned_removal : ∃ t, Run registerStep Store.init
    [(.all, some (.request contactA 300)), (.all, some (.request contactA 0))] t ∧
    t.trace.count (.homeUnref 0) = 2 ∧ .lateAccess 0 ∈ t.trace ∧ ¬ Owned t := by
  have h₁ := contactA_step
  have h₂ : registerStep _ (.all, some (.request contactA 0)) _ :=
    request_step (Inv.init.step h₁) rfl
  exact ⟨_, .cons h₁ (.cons h₂ (.nil _)), by decide, by decide,
    mt owned_used.1 not_owned_detach⟩

end Evsip.Register
