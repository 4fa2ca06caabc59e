import Mathlib.Data.List.Nodup
import Evsip.Lib.Run
import Evsip.Register.Handler
import Evsip.Endp.Spec

/-! What a REGISTER can do to a sound store, outcome by outcome. -/

namespace Evsip.Register
open CLib Endp Store

/-- What holds of the store between two requests, whatever was sent and whatever failed. -/
structure Inv (s : Store) : Prop where
  lt_next : ∀ p ∈ s.items, p < s.next
  nodup : s.items.Nodup
  live : ∀ p ∈ s.items, s.Live p
  added : ∀ p ∈ s.items, s.Added p
  host_inj : ∀ p ∈ s.items, ∀ q ∈ s.items, s.hostOf p ≠ none → s.hostOf p = s.hostOf q → p = q
  home_lt : ∀ v, s.gpEndpList = some v → v.home < s.next
  unref : ∀ p, .homeUnref p ∈ s.trace → p < s.next ∧ p ∉ s.items
  loops : ∀ p, .attachedNotInList p ∉ s.trace ∧ .extractNotInList p ∉ s.trace

theorem Inv.init : Inv Store.init := by
  constructor <;> simp [Store.init, items]

theorem Inv.used {s : Store} (h : Inv s) (n : ℕ) : Inv (s.used n) :=
  ⟨h.lt_next, h.nodup, h.live, h.added, h.host_inj, h.home_lt, h.unref, h.loops⟩

theorem Inv.ne_next {s : Store} {p : EndpPtr} (h : Inv s) (hp : p ∈ s.items) : p ≠ s.next :=
  (h.lt_next p hp).ne

theorem Inv.next_notMem {s : Store} (h : Inv s) : s.next ∉ s.items := fun hm => h.ne_next hm rfl

def Listed (s : Store) (host : Option CString) : Prop := ∃ p ∈ s.items, s.hostOf p = host

section scan
variable {s : Store} {host : Option CString} {ps : List EndpPtr} {p : EndpPtr}

theorem scan_some (h : scan s host ps = .ok (some p)) :
    p ∈ ps ∧ s.hostOf p = host ∧ host ≠ none := by
  induction ps with
  | nil => cases h
  | cons q qs ih =>
    rw [scan_cons] at h
    split at h
    · next k k' hk =>
      split at h
      · next he =>
        cases h
        exact ⟨by simp, by rw [hk, he], by simp⟩
      · obtain ⟨hm, hh⟩ := ih h
        exact ⟨by simp [hm], hh⟩
    · cases h

theorem scan_none (h : scan s host ps = .ok none) : ∀ p ∈ ps, s.hostOf p ≠ host := by
  induction ps with
  | nil => simp
  | cons q qs ih =>
    rw [scan_cons] at h
    split at h
    · next k k' hk =>
      split at h
      · cases h
      · next hne =>
        rintro p (_ | ⟨_, hp⟩)
        · simpa [hk] using hne
        · exact ih h p hp
    · cases h

theorem scan_none_used (n : ℕ) (h : scan s host s.items = .ok none) :
    ∀ q ∈ (s.used n).items, (s.used n).hostOf q ≠ host := fun q hq => scan_none h q hq

theorem scan_listed (h : scan s host s.items = .ok (some p)) : Listed s host :=
  ⟨p, (scan_some h).1, (scan_some h).2.1⟩

theorem scan_not_listed (h : scan s host s.items = .ok none) : ¬ Listed s host := by
  rintro ⟨p, hp, hh⟩
  exact scan_none h p hp hh

theorem scan_ok_iff : (∃ r, scan s host ps = .ok r) ↔
    ps = [] ∨ ∃ h, host = some h ∧ none ∉ (ps.map s.hostOf).takeWhile (· ≠ some h) := by
  induction ps with
  | nil => simp [scan]
  | cons q qs ih =>
    rcases hq : s.hostOf q with _ | k <;> rcases host with _ | h
    · simp [scan, hq]
    · simp [scan, hq]
    · simp [scan, hq]
    · by_cases hk : k = h
      · simp [scan, hq, hk]
      · simp only [scan, hq, hk, if_false, ih]
        rcases qs with _ | ⟨q', qs⟩ <;> simp [hq, hk]

end scan

/-! The three ways a request changes the store. -/

section effects
variable {a : Allocs} {c : SipContact} {s : Store} {p q : EndpPtr}

def refresh (a : Allocs) (c : SipContact) (s : Store) (p : EndpPtr) : Store :=
  (s.setHost a.strdupHost p c.mUrl.urlHost).setContact a.strdupContact p c.mUrl.urlUser

def register (a : Allocs) (c : SipContact) (s : Store) : Store :=
  ((refresh a c s.create s.next).used 1).add a.vectorCreate a.vectorAppend s.next

@[simp] theorem refresh_next : (refresh a c s p).next = s.next := by
  simp [refresh, setHost, setContact]

@[simp] theorem refresh_list : (refresh a c s p).gpEndpList = s.gpEndpList := by
  simp [refresh, setHost, setContact]

@[simp] theorem refresh_trace : (refresh a c s p).trace = s.trace := by
  simp [refresh, setHost, setContact]

@[simp] theorem refresh_items : (refresh a c s p).items = s.items := by simp [items]

@[simp] theorem refresh_listable (b b' : Bool) :
    (refresh a c s p).listable b b' = s.listable b b' := by simp [listable]

@[simp] theorem refresh_live : (refresh a c s p).Live q ↔ s.Live q := by simp [refresh]

@[simp] theorem refresh_released : (refresh a c s p).released q ↔ s.released q := by
  simp [refresh]

@[simp] theorem refresh_added : (refresh a c s p).Added q ↔ s.Added q := by simp [refresh]

@[simp] theorem refresh_hostOf : (refresh a c s p).hostOf q =
    if q = p then (if a.strdupHost then c.mUrl.urlHost else none) else s.hostOf q := by
  simp [refresh]

@[simp] theorem refresh_contactOf : (refresh a c s p).contactOf q =
    if q = p then (if a.strdupContact then c.mUrl.urlUser else none) else s.contactOf q := by
  simp [refresh]

theorem Inv.refresh (h : Inv s) (hp : p ∈ s.items) (hc : s.hostOf p = c.mUrl.urlHost) :
    Inv (refresh a c s p) where
  lt_next := by simpa using h.lt_next
  nodup := by simpa using h.nodup
  live := by simpa using h.live
  added := by simpa using h.added
  home_lt := by simpa using h.home_lt
  unref := by simpa using h.unref
  loops := by simpa using h.loops
  host_inj := by
    have key : ∀ q, (Register.refresh a c s p).hostOf q ≠ none →
        (Register.refresh a c s p).hostOf q = s.hostOf q := by
      intro q hq
      by_cases hqp : q = p
      · subst hqp
        cases ha : a.strdupHost
        · simp [ha] at hq
        · simp [ha, hc]
      · simp [hqp]
    intro x hx y hy hxn hxy
    rw [refresh_items] at hx hy
    have hyn : (Register.refresh a c s p).hostOf y ≠ none := hxy ▸ hxn
    rw [key x hxn, key y hyn] at hxy
    rw [key x hxn] at hxn
    exact h.host_inj x hx y hy hxn hxy

@[simp] theorem register_next : (register a c s).next = s.next + 1 := by simp [register]

@[simp] theorem register_trace : (register a c s).trace = s.trace := by simp [register]

@[simp] theorem register_items : (register a c s).items =
    if s.listable a.vectorCreate a.vectorAppend then s.items ++ [s.next] else s.items := by
  simp [register]

theorem mem_register : q ∈ (register a c s).items ↔
    q ∈ s.items ∨ q = s.next ∧ s.listable a.vectorCreate a.vectorAppend := by
  rw [register_items]
  split_ifs with hl <;> simp [hl]

theorem register_list : (register a c s).gpEndpList =
    if s.gpEndpList.isNone ∧ a.vectorCreate = false then none
    else some { s.gpEndpList.getD ⟨s.next, []⟩ with
      items := if a.vectorAppend then s.items ++ [s.next] else s.items } := by
  simp [register, add_list]

theorem register_live : (register a c s).Live q ↔ q = s.next ∨ s.Live q := by simp [register]

theorem register_released :
    (register a c s).released q ↔ q ≠ s.next ∧ s.released q := by simp [register]

theorem register_added : (register a c s).Added q ↔ q ≠ s.next ∧ s.Added q ∨
    q = s.next ∧ s.listable a.vectorCreate a.vectorAppend := by simp [register]

theorem register_hostOf : (register a c s).hostOf q =
    if q = s.next then (if a.strdupHost then c.mUrl.urlHost else none) else s.hostOf q := by
  by_cases h : q = s.next <;> simp [register, h]

theorem register_contactOf : (register a c s).contactOf q =
    if q = s.next then (if a.strdupContact then c.mUrl.urlUser else none) else s.contactOf q := by
  by_cases h : q = s.next <;> simp [register, h]

theorem hostOf_ne_new (hc : ∀ q ∈ s.items, s.hostOf q ≠ c.mUrl.urlHost) (hq : q ∈ s.items)
    (hne : q ≠ s.next) (hn : (register a c s).hostOf s.next ≠ none) :
    (register a c s).hostOf q ≠ (register a c s).hostOf s.next := by
  intro he
  rw [register_hostOf, if_neg hne, register_hostOf, if_pos rfl] at he
  rw [register_hostOf, if_pos rfl] at hn
  split_ifs at hn he
  · exact hc q hq he
  · exact hn rfl

theorem host_inj_register (h : Inv s) (hc : ∀ q ∈ s.items, s.hostOf q ≠ c.mUrl.urlHost) :
    ∀ x ∈ (register a c s).items, ∀ y ∈ (register a c s).items,
      (register a c s).hostOf x ≠ none →
        (register a c s).hostOf x = (register a c s).hostOf y → x = y := by
  have hne := fun q => h.ne_next (p := q)
  intro x hx y hy hxn hxy
  rcases mem_register.1 hx with hx | ⟨rfl, -⟩ <;> rcases mem_register.1 hy with hy | ⟨rfl, -⟩
  · rw [register_hostOf, if_neg (hne x hx)] at hxy hxn
    rw [register_hostOf, if_neg (hne y hy)] at hxy
    exact h.host_inj x hx y hy hxn hxy
  · exact absurd hxy (hostOf_ne_new hc hx (hne x hx) (hxy ▸ hxn))
  · exact absurd hxy.symm (hostOf_ne_new hc hy (hne y hy) hxn)
  · rfl

theorem home_lt_register (h : Inv s) {v : SuVector} (hv : (register a c s).gpEndpList = some v) :
    v.home < (register a c s).next := by
  have hhome : (s.gpEndpList.getD ⟨s.next, []⟩).home = v.home := by
    rw [register_list] at hv
    by_cases hl : s.gpEndpList.isNone ∧ a.vectorCreate = false
    · simp [hl] at hv
    · rw [if_neg hl] at hv
      rw [← Option.some.inj hv]
  rw [register_next, ← hhome]
  rcases hl : s.gpEndpList with _ | w
  · exact Nat.lt_succ_self _
  · exact Nat.lt_succ_of_lt (h.home_lt w hl)

theorem Inv.register (h : Inv s) (hc : ∀ q ∈ s.items, s.hostOf q ≠ c.mUrl.urlHost) :
    Inv (register a c s) := by
  have hne := fun q => h.ne_next (p := q)
  constructor
  case lt_next =>
    intro q hq
    rw [register_next]
    rcases mem_register.1 hq with hq | ⟨rfl, -⟩
    · exact Nat.lt_succ_of_lt (h.lt_next q hq)
    · exact Nat.lt_succ_self _
  case nodup =>
    rw [register_items]
    split_ifs
    · exact h.nodup.append (List.nodup_singleton _) (by simpa using h.next_notMem)
    · exact h.nodup
  case live =>
    intro q hq
    rcases mem_register.1 hq with hq | ⟨rfl, -⟩
    · exact register_live.2 (.inr (h.live q hq))
    · exact register_live.2 (.inl rfl)
  case added =>
    intro q hq
    rcases mem_register.1 hq with hq | ⟨rfl, hl⟩
    · exact register_added.2 (.inl ⟨hne q hq, h.added q hq⟩)
    · exact register_added.2 (.inr ⟨rfl, hl⟩)
  case host_inj => exact host_inj_register h hc
  case home_lt => exact fun v hv => home_lt_register h hv
  case unref =>
    intro q hq
    rw [register_trace] at hq
    have hlt := (h.unref q hq).1
    refine ⟨by rw [register_next]; exact Nat.lt_succ_of_lt hlt, fun hm => ?_⟩
    rcases mem_register.1 hm with hm | ⟨rfl, -⟩
    · exact (h.unref q hq).2 hm
    · exact lt_irrefl _ hlt
  case loops => simpa using h.loops

theorem Inv.mem_detach (h : Inv s) : q ∈ (s.detach p).items ↔ q ≠ p ∧ q ∈ s.items := by
  rw [detach_items, h.nodup.mem_erase_iff]

theorem Inv.detach (h : Inv s) (hp : p ∈ s.items) : Inv (s.detach p) := by
  have hmem := fun q => h.mem_detach (p := p) (q := q)
  constructor
  case lt_next => exact fun q hq => h.lt_next q ((hmem q).1 hq).2
  case nodup =>
    rw [detach_items]
    exact h.nodup.erase p
  case live => exact fun q hq => (detach_live ((hmem q).1 hq).1).2 (h.live q ((hmem q).1 hq).2)
  case added => exact fun q hq => (detach_added ((hmem q).1 hq).1).2 (h.added q ((hmem q).1 hq).2)
  case host_inj =>
    intro x hx y hy hxn hxy
    rw [detach_hostOf] at hxn hxy
    rw [detach_hostOf] at hxy
    exact h.host_inj x ((hmem x).1 hx).2 y ((hmem y).1 hy).2 hxn hxy
  case home_lt =>
    intro v hv
    obtain ⟨w, hw, rfl⟩ := Option.map_eq_some_iff.1 hv
    exact h.home_lt w hw
  case unref =>
    intro q hq
    have hq : q = p ∨ .homeUnref q ∈ s.trace := by simpa [Store.detach] using hq
    rw [hmem]
    rcases hq with rfl | hq
    · exact ⟨h.lt_next q hp, fun hm => hm.1 rfl⟩
    · exact ⟨(h.unref q hq).1, fun hm => (h.unref q hq).2 hm.2⟩
  case loops => simpa [Store.detach] using h.loops

end effects

/-! The handler. -/

section handler
variable {a : Allocs} {c : SipContact} {s t : Store} {p : EndpPtr} {m : Sip}

theorem registerAttach_run (h : s.Live p) (ha : s.Added p ↔ p ∈ s.items) :
    (registerAttach a (some p) c.mUrl.urlHost c.mUrl.urlUser).run s = .ok ((),
      if p ∈ s.items then (refresh a c s p).used 1
      else ((refresh a c s p).used 1).add a.vectorCreate a.vectorAppend p) := by
  have h₁ : (s.setHost a.strdupHost p c.mUrl.urlHost).Live p := by simpa using h
  have h₂ : (refresh a c s p).Live p := by simpa using h
  have hat := endpIsAttached_run h₂ (by simpa using ha)
  obtain ⟨ret, hadd⟩ := endpAdd_run h₂ a.vectorCreate a.vectorAppend
  rw [refresh_items] at hat
  simp only [registerAttach, endpSetHostIpv4, endpSetContact, StateT.run_bind,
    endpSetString_run h, Proc.ok_bind]
  rw [show (s.setString _ _ _ _) = s.setHost a.strdupHost p c.mUrl.urlHost from rfl,
    endpSetString_run h₁, Proc.ok_bind, show (Store.setString _ _ _ _ _) = refresh a c s p from rfl,
    hat, Proc.ok_bind]
  by_cases hp : p ∈ s.items <;> simp [hp, hadd]

theorem registerDetach_run (h : s.Live p) (ha : s.Added p) (hp : p ∈ s.items) :
    (registerDetach (some p)).run s = .ok ((), s.detach p) := by
  simp only [registerDetach, Option.isSome_some, if_true, StateT.run_bind,
    endpExtract_run h ha hp, Proc.ok_bind]
  rw [endpDestroy_run_released]
  · simp [taken, freed, setEndp, record, setItems, items, detach]
  · simp [taken, freed, setItems, h.1]
  · simp [taken, freed, setItems, released]

def answer (m : Sip) (c : SipContact) (shown : List (Option CString × Option CString)) : Handled :=
  ⟨.success, [.trying, .ok (some c) (formatLd m.exptime)], some shown⟩

theorem registerUpdate_run {e : Option EndpPtr} (ht : Inv t)
    (h : (if m.exptime > 0 then registerAttach a e c.mUrl.urlHost c.mUrl.urlUser
      else registerDetach e).run s = .ok ((), t)) :
    (registerUpdate a m c e).run s = .ok (answer m c t.dump, t.used 1) := by
  have hd := endpDumpList_run fun p hp => (ht.live p hp).not_released
  by_cases he : m.exptime > 0
  · rw [if_pos he] at h
    simp [registerUpdate, he, h, hd, answer]
  · rw [if_neg he] at h
    simp [registerUpdate, he, h, hd, answer]

/-- The lookup has used the list once, and the dump at the end uses it again. -/
def contactEffect (a : Allocs) (m : Sip) (c : SipContact) (s : Store) :
    Except Fault (Handled × Store) :=
  let s₁ := s.used 1
  (scan s c.mUrl.urlHost s.items).map fun
    | some p =>
      if m.exptime > 0 then (answer m c (refresh a c s₁ p).dump, (refresh a c s₁ p).used 2)
      else (answer m c (s₁.detach p).dump, (s₁.detach p).used 1)
    | none =>
      if m.exptime > 0 then
        if a.homeClone then (answer m c (register a c s₁).dump, (register a c s₁).used 1)
        else (⟨.errorOutOfResources, [.trying, .internalServerError], none⟩, s₁)
      else (answer m c s.dump, s.used 2)

theorem registerContact_run (h : Inv s) :
    (registerContact a m c).run s = contactEffect a m c s := by
  have h₁ := h.used 1
  simp only [registerContact, StateT.run_bind, endpFindByIpv4_run h.live, contactEffect]
  rcases hs : scan s c.mUrl.urlHost s.items with e | _ | p
  · rfl
  · have hc := scan_none_used 1 hs
    by_cases he : m.exptime > 0
    · cases ha : a.homeClone
      · simp [Except.map, he, endpCreate_run]
      · have hat : (registerAttach a (some s.next) c.mUrl.urlHost c.mUrl.urlUser).run
            (s.used 1).create = .ok ((), register a c (s.used 1)) := by
          have hn : s.next ∉ (s.used 1).create.items := h.next_notMem
          rw [registerAttach_run (by simp) (by simpa using h.next_notMem), if_neg hn]
          rfl
        simp [Except.map, he, endpCreate_run,
          registerUpdate_run (m := m) (h₁.register hc) (by rw [if_pos he, hat])]
    · have hat := registerUpdate_run (a := a) (m := m) (c := c) (e := none) h₁
        (by rw [if_neg he]; rfl)
      rw [used_used] at hat
      simp [Except.map, he, hat]
      rfl
  · obtain ⟨hp, hh, -⟩ := scan_some hs
    have hl : (s.used 1).Live p := h.live p hp
    have ha : (s.used 1).Added p := h.added p hp
    have hp₁ : p ∈ (s.used 1).items := hp
    by_cases he : m.exptime > 0
    · have hat := registerAttach_run (a := a) (c := c) hl (iff_of_true ha hp₁)
      rw [if_pos hp₁] at hat
      have hupdate := registerUpdate_run (m := m) ((h₁.refresh hp₁ hh).used 1)
        (by rw [if_pos he, hat])
      rw [used_used] at hupdate
      simp [Except.map, he, hupdate]
      rfl
    · have hat := registerDetach_run hl ha hp₁
      simp [Except.map, he,
        registerUpdate_run (a := a) (m := m) (c := c) (h₁.detach hp₁) (by rw [if_neg he, hat])]

theorem registerHandler_accepted (h : Inv s) (hm : m.Accepted) (hc : m.sipContact = some c) :
    (registerHandler a (some m)).run s = contactEffect a m c s := by
  obtain ⟨sipTo, hto, hu, hh⟩ := hm.target
  have hmeth : (m.sipRequest.bind (·.rqMethodName)).isNone = false := by simpa using hm.method
  simp [registerHandler, hmeth, hto, Option.isSome_iff_ne_none.1 hu,
    Option.isSome_iff_ne_none.1 hh, hc, registerContact_run h]

/-- The ways a request can end, with what it comes to and the store it leaves. -/
inductive Outcome (a : Allocs) (s : Store) : Option Sip → Handled → Store → Prop
  | refused {sip : Option Sip} {r : Response} :
      (∀ m, sip = some m → ¬ m.Accepted) → r = .internalServerError ∨ r = .unauthorized →
      Outcome a s sip ⟨.success, [r], none⟩ s
  | noMemory {m : Sip} {c : SipContact} :
      m.Accepted → m.sipContact = some c → scan s c.mUrl.urlHost s.items = .ok none →
      m.exptime > 0 → a.homeClone = false →
      Outcome a s (some m) ⟨.errorOutOfResources, [.trying, .internalServerError], none⟩ (s.used 1)
  | registered {m : Sip} {c : SipContact} :
      m.Accepted → m.sipContact = some c → scan s c.mUrl.urlHost s.items = .ok none →
      m.exptime > 0 → a.homeClone = true →
      Outcome a s (some m) (answer m c (register a c (s.used 1)).dump)
        ((register a c (s.used 1)).used 1)
  | refreshed {m : Sip} {c : SipContact} {p : EndpPtr} :
      m.Accepted → m.sipContact = some c → scan s c.mUrl.urlHost s.items = .ok (some p) →
      m.exptime > 0 →
      Outcome a s (some m) (answer m c (refresh a c (s.used 1) p).dump)
        ((refresh a c (s.used 1) p).used 2)
  | removed {m : Sip} {c : SipContact} {p : EndpPtr} :
      m.Accepted → m.sipContact = some c → scan s c.mUrl.urlHost s.items = .ok (some p) →
      ¬ m.exptime > 0 →
      Outcome a s (some m) (answer m c ((s.used 1).detach p).dump) (((s.used 1).detach p).used 1)
  | absent {m : Sip} {c : SipContact} :
      m.Accepted → m.sipContact = some c → scan s c.mUrl.urlHost s.items = .ok none →
      ¬ m.exptime > 0 → Outcome a s (some m) (answer m c s.dump) (s.used 2)

theorem contactEffect_cases {r : Handled} (hm : m.Accepted)
    (hc : m.sipContact = some c) (h : contactEffect a m c s = .ok (r, t)) :
    Outcome a s (some m) r t := by
  rw [contactEffect] at h
  rcases hs : scan s c.mUrl.urlHost s.items with e | _ | p <;> rw [hs] at h
  · cases h
  · by_cases he : m.exptime > 0
    · cases ha : a.homeClone <;> simp only [Except.map, he, ha, if_true] at h <;> cases h
      · exact .noMemory hm hc hs he ha
      · exact .registered hm hc hs he ha
    · simp only [Except.map, he, if_false] at h
      cases h
      exact .absent hm hc hs he
  · by_cases he : m.exptime > 0 <;> simp only [Except.map, he, if_true, if_false] at h <;> cases h
    · exact .refreshed hm hc hs he
    · exact .removed hm hc hs he

theorem registerHandler_cases {sip : Option Sip} {r : Handled} (h : Inv s)
    (hr : (registerHandler a sip).run s = .ok (r, t)) : Outcome a s sip r t := by
  rcases sip with _ | m
  · cases hr
    exact .refused (by simp) (.inl rfl)
  rcases hmeth : m.sipRequest.bind (·.rqMethodName) with _ | name
  · simp [registerHandler, hmeth] at hr
    obtain ⟨rfl, rfl⟩ := hr
    refine .refused ?_ (.inl rfl)
    rintro _ ⟨⟩ hm
    simpa [hmeth] using hm.method
  rcases hto : m.sipTo with _ | sipTo
  · simp [registerHandler, hmeth, hto] at hr
  by_cases hbad : sipTo.aUrl.urlUser = none ∨ sipTo.aUrl.urlHost = none
  · simp [registerHandler, hmeth, hto, hbad] at hr
    obtain ⟨rfl, rfl⟩ := hr
    refine .refused ?_ (.inr rfl)
    rintro _ ⟨⟩ hm
    obtain ⟨sipTo', hto', hu, hh⟩ := hm.target
    cases hto.symm.trans hto'
    rcases hbad with hb | hb
    · simp [hb] at hu
    · simp [hb] at hh
  · have hm : m.Accepted := by
      simp only [not_or, ← ne_eq, ← Option.isSome_iff_ne_none] at hbad
      exact ⟨by rw [hmeth]; rfl, sipTo, hto, hbad⟩
    rcases hc : m.sipContact with _ | c
    · simp [registerHandler, hmeth, hto, hbad, hc] at hr
    · rw [registerHandler_accepted h hm hc] at hr
      exact contactEffect_cases hm hc hr

end handler

/-! Runs of the handler. -/

def registerStep (s : Store) (i : Allocs × Option Sip) (t : Store) : Prop :=
  ∃ r, (registerHandler i.1 i.2).run s = .ok (r, t)

/-- Every allocation succeeds. -/
def registerStepAll (s : Store) (m : Sip) (t : Store) : Prop := registerStep s (.all, some m) t

theorem Inv.step {s t : Store} {i : Allocs × Option Sip} (h : Inv s) (hs : registerStep s i t) :
    Inv t := by
  obtain ⟨a, sip⟩ := i
  obtain ⟨r, hr⟩ := hs
  cases registerHandler_cases h hr with
  | refused _ _ => exact h
  | noMemory _ _ _ _ _ => exact h.used 1
  | registered _ _ hsc _ _ => exact ((h.used 1).register (scan_none_used 1 hsc)).used 1
  | refreshed _ _ hsc _ =>
    exact ((h.used 1).refresh (scan_some hsc).1 (scan_some hsc).2.1).used 2
  | removed _ _ hsc _ => exact ((h.used 1).detach (scan_some hsc).1).used 1
  | absent _ _ _ _ => exact h.used 2

theorem request_step {a : Allocs} {s t : Store} {c : SipContact} {e : UInt64}
    {r : Handled} (h : Inv s) (he : contactEffect a (.request c e) c s = .ok (r, t)) :
    registerStep s (a, some (.request c e)) t :=
  ⟨r, by rw [registerHandler_accepted h (Sip.request_accepted c e) rfl, he]⟩

theorem contactA_step : registerStep Store.init (.all, some (.request contactA 300))
    (register .all contactA Store.init) := request_step Inv.init rfl

def Reachable (s : Store) : Prop := ∃ is, Transition.Run registerStep Store.init is s

theorem Reachable.inv {s : Store} (h : Reachable s) : Inv s := by
  obtain ⟨_, hr⟩ := h
  exact hr.invariant (fun _ _ _ => Inv.step) Inv.init

end Evsip.Register
