import Evsip.Register.Outcome

/-! What is on the list after requests that found no memory. An end point whose host could not be
copied stays there for good, and nobody else gets on the list. -/

namespace Evsip.Register
open CLib Endp Store Transition

/-- The list of `t` is what is left of that of `s`, and `p` is on it without a host. -/
structure Stuck (s : Store) (p : EndpPtr) (t : Store) : Prop where
  inv : Inv t
  mem : p ∈ t.items
  nameless : t.hostOf p = none
  left : t.items.Sublist s.items
  hosts : ∀ q ∈ t.items, t.hostOf q = none ∨ t.hostOf q = s.hostOf q

variable {s t u : Store} {p q : EndpPtr} {i : Allocs × Option Sip}
  {is : List (Allocs × Option Sip)} {host : Option CString} {l : List EndpPtr} {m : Sip}
  {c : SipContact} {a : Allocs}

theorem scan_ne_none (hp : p ∈ l) (hn : s.hostOf p = none) : scan s host l ≠ .ok none := by
  induction l with
  | nil => cases hp
  | cons q l ih =>
    intro h
    rw [scan_cons] at h
    split at h
    · next k _ hk =>
      split_ifs at h with hkk
      · cases h
      · rcases List.mem_cons.1 hp with rfl | hp
        · cases hn.symm.trans hk
        · exact ih hp h
    · cases h

namespace Stuck

theorem start (h : Inv s) (hp : p ∈ s.items) (hn : s.hostOf p = none) : Stuck s p s :=
  ⟨h, hp, hn, .refl _, fun _ _ => .inr rfl⟩

theorem used {n : ℕ} (h : Stuck s p t) : Stuck s p (t.used n) :=
  ⟨h.inv.used n, h.mem, h.nameless, h.left, h.hosts⟩

theorem ne_of_scan (h : Stuck s p t) (hsc : scan t host t.items = .ok (some q)) : q ≠ p := by
  rintro rfl
  obtain ⟨-, hh, hne⟩ := scan_some hsc
  exact hne (hh.symm.trans h.nameless)

theorem step (h : Stuck s p t) (hs : registerStep t i u) : Stuck s p u := by
  have hinv := h.inv.step hs
  obtain ⟨a, sip⟩ := i
  obtain ⟨r, hr⟩ := hs
  cases registerHandler_cases h.inv hr with
  | refused _ _ => exact h
  | noMemory _ _ _ _ _ => exact h.used
  | absent _ _ _ _ => exact h.used
  | registered _ _ hsc _ _ => exact absurd hsc (scan_ne_none h.mem h.nameless)
  | @refreshed _ c q _ _ hsc _ =>
    have hne := h.ne_of_scan hsc
    have hqh := (scan_some hsc).2.1
    refine ⟨hinv, ?_, ?_, ?_, fun x hx => ?_⟩
    · rw [used_items, refresh_items]
      exact h.mem
    · rw [used_hostOf, refresh_hostOf, if_neg hne.symm]
      exact h.nameless
    · rw [used_items, refresh_items]
      exact h.left
    · rw [used_items, refresh_items] at hx
      rw [used_hostOf, refresh_hostOf]
      split_ifs with hxq ha
      · rw [hxq, ← hqh]
        exact h.hosts q (hxq ▸ hx)
      · exact .inl rfl
      · exact h.hosts x hx
  | removed _ _ hsc _ =>
    have hne := h.ne_of_scan hsc
    refine ⟨hinv, ?_, ?_, ?_, fun x hx => ?_⟩
    · rw [used_items, detach_items]
      exact (List.mem_erase_of_ne hne.symm).2 h.mem
    · rw [used_hostOf, detach_hostOf]
      exact h.nameless
    · rw [used_items, detach_items]
      exact (List.erase_sublist ..).trans h.left
    · rw [used_hostOf, detach_hostOf]
      rw [used_items, detach_items] at hx
      exact h.hosts x (List.mem_of_mem_erase hx)

theorem faults (h : Stuck s p t) (hm : m.Accepted) (hc : m.sipContact = some c)
    (hnew : ∀ q ∈ s.items, s.hostOf q ≠ none → s.hostOf q ≠ c.mUrl.urlHost)
    (x : Handled × Store) : (registerHandler a (some m)).run t ≠ .ok x := by
  intro hr
  rw [registerHandler_accepted h.inv hm hc, contactEffect] at hr
  rcases hsc : scan t c.mUrl.urlHost t.items with e | _ | q
  · rw [hsc] at hr
    cases hr
  · exact scan_ne_none h.mem h.nameless hsc
  · obtain ⟨hq, hqh, hne⟩ := scan_some hsc
    rcases h.hosts q hq with hnone | hsame
    · exact hne (hqh.symm.trans hnone)
    · rw [hsame] at hqh
      exact hnew q (h.left.subset hq) (hqh ▸ hne) hqh

end Stuck

/-- Whatever is requested and whatever fails, no end point is listed twice, each of them is alive,
and no two share a host. -/
theorem list_sound (hr : Run registerStep Store.init is t) : t.items.Nodup ∧
    (∀ p ∈ t.items, t.Live p ∧ t.Added p) ∧ ((t.items.map t.hostOf).filter (· ≠ none)).Nodup := by
  have h := hr.invariant (I := Register.Inv) (fun _ _ _ h hst => h.step hst) Register.Inv.init
  refine ⟨h.nodup, fun p hp => ⟨h.live p hp, h.added p hp⟩, ?_⟩
  rw [List.filter_map]
  refine (List.nodup_map_iff_inj_on (h.nodup.filter _)).2 fun p hp q hq heq => ?_
  simp only [List.mem_filter, Function.comp_apply, decide_eq_true_eq] at hp hq
  exact h.host_inj p hp.1 q hq.1 hp.2 heq

def nameless : Store := register { Allocs.all with strdupHost := false } contactA Store.init

theorem nameless_run : Run registerStep Store.init
    [({ Allocs.all with strdupHost := false }, some (.request contactA 300))] nameless :=
  .cons (request_step Inv.init rfl) (.nil _)

theorem list_sound_nameless : nameless.items.Nodup ∧
    (∀ p ∈ nameless.items, nameless.Live p ∧ nameless.Added p) ∧
    ((nameless.items.map nameless.hostOf).filter (· ≠ none)).Nodup := list_sound nameless_run

/-- An end point that is listed without a host never leaves, nobody new gets on the list, and a
request for a host that was not listed is not survived. -/
theorem nameless_stays (hs : Run registerStep Store.init is s) (hp : p ∈ s.items)
    (hn : s.hostOf p = none) {js : List (Allocs × Option Sip)} (hr : Run registerStep s js t) :
    p ∈ t.items ∧ t.hostOf p = none ∧ t.items.Sublist s.items ∧
    ∀ a m c, m.Accepted → m.sipContact = some c →
      (∀ q ∈ s.items, s.hostOf q ≠ none → s.hostOf q ≠ c.mUrl.urlHost) →
      ∀ x, (registerHandler a (some m)).run t ≠ .ok x := by
  have hinv := hs.invariant (I := Register.Inv) (fun _ _ _ h hst => h.step hst) Register.Inv.init
  have h := hr.invariant (I := Stuck s p) (fun _ _ _ h hst => h.step hst) (.start hinv hp hn)
  exact ⟨h.mem, h.nameless, h.left, fun a m c hm hc hnew x => h.faults hm hc hnew x⟩

theorem nameless_stays_first : 0 ∈ nameless.items ∧ nameless.hostOf 0 = none ∧
    nameless.items.Sublist nameless.items ∧
    ∀ a m c, m.Accepted → m.sipContact = some c →
      (∀ q ∈ nameless.items, nameless.hostOf q ≠ none → nameless.hostOf q ≠ c.mUrl.urlHost) →
      ∀ x, (registerHandler a (some m)).run nameless ≠ .ok x :=
  nameless_stays nameless_run (by decide) rfl (.nil _)

end Evsip.Register
