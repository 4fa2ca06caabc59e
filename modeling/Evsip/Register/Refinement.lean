import Mathlib.Data.List.Induction
import Evsip.Register.Outcome

/-! The registrar as a finite map from contact hosts to contact users. -/

namespace Evsip.Register
open CLib Endp Store Transition

/-! What a registrar is for: each host has the user it registered last, until it leaves. -/

abbrev Bindings := CString → Option CString

def Sip.contactHost (m : Sip) : Option CString := m.sipContact.bind (·.mUrl.urlHost)
def Sip.contactUser (m : Sip) : Option CString := m.sipContact.bind (·.mUrl.urlUser)

def lastRequest (ms : List Sip) (host : CString) : Option Sip :=
  ms.reverse.find? (·.contactHost = some host)

/-- The user the most recent request of a host registered, if it did register. -/
def boundUser (ms : List Sip) : Bindings := fun host =>
  (lastRequest ms host).bind fun m => if m.exptime > 0 then m.contactUser else none

def Bindings.handle (b : Bindings) (m : Sip) : Bindings := fun host =>
  if m.contactHost = some host then (if m.exptime > 0 then m.contactUser else none) else b host

theorem boundUser_concat (ms : List Sip) (m : Sip) :
    boundUser (ms ++ [m]) = (boundUser ms).handle m := by
  funext host
  by_cases h : m.contactHost = some host <;> simp [boundUser, lastRequest, Bindings.handle, h]

theorem foldl_handle (ms : List Sip) : ms.foldl Bindings.handle (fun _ => none) = boundUser ms := by
  induction ms using List.reverseRecOn with
  | nil => rfl
  | append_singleton ms m ih => rw [List.foldl_append, ih, boundUser_concat, List.foldl_cons,
      List.foldl_nil]

/-! The store of the handler against the map. -/

structure Sip.Complete (m : Sip) : Prop where
  accepted : m.Accepted
  contact : ∃ c host user, m.sipContact = some c ∧ c.mUrl.urlHost = some host ∧
    c.mUrl.urlUser = some user

def usersOf (s : Store) (host : CString) : List (Option CString) :=
  (s.items.filter (s.hostOf · = some host)).map s.contactOf

structure Represents (s : Store) (b : Bindings) : Prop where
  inv : Inv s
  hosts : ∀ p ∈ s.items, s.hostOf p ≠ none
  users : ∀ host, usersOf s host = (b host).toList.map some

variable {c : SipContact} {s t : Store} {b : Bindings} {m : Sip} {host user : CString}
  {p : EndpPtr}

theorem Inv.filter_host (h : Inv s) (hp : p ∈ s.items) (hh : s.hostOf p = some host) :
    s.items.filter (s.hostOf · = some host) = [p] := by
  have hone : ∀ q ∈ s.items, (decide (s.hostOf q = some host)) = decide (q = p) := by
    intro q hq
    rw [decide_eq_decide]
    constructor
    · exact fun hqh => h.host_inj q hq p hp (by simp [hqh]) (hqh.trans hh.symm)
    · rintro rfl
      exact hh
  rw [List.filter_congr hone, List.filter_eq, List.count_eq_one_of_mem h.nodup hp]
  rfl

theorem usersOf_eq_nil (h : ∀ p ∈ s.items, s.hostOf p ≠ some host) : usersOf s host = [] := by
  rw [usersOf, List.filter_eq_nil_iff.2 (by simpa using h), List.map_nil]

theorem usersOf_of_mem (h : Inv s) (hp : p ∈ s.items) (hh : s.hostOf p = some host) :
    usersOf s host = [s.contactOf p] := by
  rw [usersOf, h.filter_host hp hh, List.map_singleton]

theorem usersOf_refresh {k : CString} (hc : s.hostOf p = c.mUrl.urlHost)
    (hk : s.hostOf p ≠ some k) : usersOf (refresh .all c s p) k = usersOf s k := by
  have hh : ∀ q, (refresh .all c s p).hostOf q = s.hostOf q := by
    intro q
    by_cases hq : q = p
    · simp [hq, Allocs.all, hc]
    · simp [hq]
  rw [usersOf, usersOf, refresh_items]
  simp only [hh]
  refine List.map_congr_left fun q hq => ?_
  have hne : q ≠ p := fun he => hk (by simpa [he] using (List.mem_filter.1 hq).2)
  simp [hne]

theorem usersOf_register {k : CString} (h : Inv s) :
    usersOf (register .all c s) k =
      usersOf s k ++ if c.mUrl.urlHost = some k then [c.mUrl.urlUser] else [] := by
  have hne := fun q => h.ne_next (p := q)
  have hold : (s.items.filter ((register .all c s).hostOf · = some k)).map
      (register .all c s).contactOf = usersOf s k := by
    rw [usersOf, List.filter_congr fun q hq => by rw [register_hostOf, if_neg (hne q hq)]]
    refine List.map_congr_left fun q hq => ?_
    rw [register_contactOf, if_neg (hne q (List.mem_of_mem_filter hq))]
  rw [usersOf, register_items, if_pos (by simp [listable, Allocs.all]), List.filter_append,
    List.map_append, hold]
  by_cases hk : c.mUrl.urlHost = some k <;>
    simp [register_hostOf, register_contactOf, Allocs.all, hk]

theorem usersOf_detach {k : CString} (h : Inv s) (hk : s.hostOf p ≠ some k) :
    usersOf (s.detach p) k = usersOf s k := by
  rw [usersOf, usersOf, detach_items, h.nodup.erase_eq_filter, List.filter_filter]
  simp only [detach_hostOf]
  rw [List.filter_congr fun q _ => ?_, List.map_congr_left fun q _ => detach_contactOf]
  by_cases hq : q = p
  · simp [hq, hk]
  · simp [hq]

@[simp] theorem usersOf_used (n : ℕ) : usersOf (s.used n) host = usersOf s host := rfl

theorem Represents.used (h : Represents s b) (n : ℕ) : Represents (s.used n) b :=
  ⟨h.inv.used n, h.hosts, h.users⟩

theorem represents_init : Represents Store.init fun _ => none :=
  ⟨Inv.init, by simp [Store.init, items], fun _ => rfl⟩

/-! The users of a host after each outcome, for the request of `host` -/

theorem usersOf_registered (h : Represents s b) (hnone : ∀ q ∈ s.items, s.hostOf q ≠ some host)
    (hch : c.mUrl.urlHost = some host) (k : CString) :
    usersOf (register .all c s) k = if host = k then [c.mUrl.urlUser] else usersOf s k := by
  rw [usersOf_register h.inv, hch]
  by_cases hk : host = k
  · subst hk
    rw [usersOf_eq_nil hnone]
    simp
  · simp [hk]

theorem usersOf_refreshed (h : Represents s b) (hp : p ∈ s.items) (hph : s.hostOf p = some host)
    (hch : c.mUrl.urlHost = some host) (k : CString) :
    usersOf (refresh .all c s p) k = if host = k then [c.mUrl.urlUser] else usersOf s k := by
  have hpc : s.hostOf p = c.mUrl.urlHost := hph.trans hch.symm
  by_cases hk : host = k
  · subst hk
    have hp' : p ∈ (refresh .all c s p).items := by simpa using hp
    rw [if_pos rfl, usersOf_of_mem (h.inv.refresh hp hpc) hp' (by simp [Allocs.all, hch])]
    simp [Allocs.all]
  · rw [if_neg hk, usersOf_refresh hpc (by simpa [hph] using hk)]

theorem usersOf_removed (h : Represents s b) (hp : p ∈ s.items) (hph : s.hostOf p = some host)
    (k : CString) : usersOf (s.detach p) k = if host = k then [] else usersOf s k := by
  by_cases hk : host = k
  · subst hk
    rw [if_pos rfl]
    refine usersOf_eq_nil fun q hq hqh => ?_
    have hq := h.inv.mem_detach.1 hq
    rw [detach_hostOf] at hqh
    -- no other end point has the host of the removed one
    exact hq.1 (h.inv.host_inj q hq.2 p hp (by simp [hqh]) (hqh.trans hph.symm))
  · rw [if_neg hk, usersOf_detach h.inv (by simpa [hph] using hk)]

theorem usersOf_absent (hnone : ∀ q ∈ s.items, s.hostOf q ≠ some host) (k : CString) :
    usersOf s k = if host = k then [] else usersOf s k := by
  by_cases hk : host = k
  · subst hk
    rw [if_pos rfl, usersOf_eq_nil hnone]
  · rw [if_neg hk]

theorem Represents.step (h : Represents s b) (hm : m.Complete) (hs : registerStepAll s m t) :
    Represents t (b.handle m) := by
  obtain ⟨c, host, user, hc, hch, hcu⟩ := hm.contact
  obtain ⟨r, hr⟩ := hs
  have hmh : m.contactHost = some host := by simp [Sip.contactHost, hc, hch]
  have hmu : m.contactUser = some user := by simp [Sip.contactUser, hc, hcu]
  have hb : ∀ k, (b.handle m) k = if host = k then (if m.exptime > 0 then some user else none)
      else b k := fun k => by simp [Bindings.handle, hmh, hmu]
  have hinv := h.inv.step ⟨r, hr⟩
  have h₁ := h.used 1
  -- what each outcome leaves to show of the users, once they are known host by host
  have husers : ∀ {l : List (Option CString)} {t : Store},
      (∀ k, usersOf t k = if host = k then l else usersOf s k) →
      l = (if m.exptime > 0 then some user else none).toList.map some →
      ∀ k, usersOf t k = ((b.handle m) k).toList.map some := by
    intro l t ht hl k
    rw [ht, hb]
    by_cases hk : host = k
    · rw [if_pos hk, if_pos hk, hl]
    · rw [if_neg hk, if_neg hk, h.users]
  cases registerHandler_cases h.inv hr with
  | refused hno _ => exact absurd hm.accepted (hno m rfl)
  | noMemory _ _ _ _ ha => cases ha
  | registered _ hc' hsc he _ =>
    cases hc.symm.trans hc'
    have hnone : ∀ q ∈ (s.used 1).items, (s.used 1).hostOf q ≠ some host :=
      hch ▸ scan_none_used 1 hsc
    refine ⟨hinv, fun q hq => ?_, husers (usersOf_registered h₁ hnone hch) ?_⟩
    · rw [used_hostOf, register_hostOf]
      split_ifs with hqn h1
      · simp [hch]
      · exact absurd rfl h1
      · rcases mem_register.1 hq with hq | ⟨rfl, -⟩
        · exact h.hosts q hq
        · exact absurd rfl hqn
    · simp [he, hcu]
  | refreshed _ hc' hsc he =>
    cases hc.symm.trans hc'
    obtain ⟨hp, hph, -⟩ := scan_some hsc
    refine ⟨hinv, fun q hq => ?_, husers (usersOf_refreshed h₁ hp (hph.trans hch) hch) ?_⟩
    · rw [used_hostOf, refresh_hostOf]
      split_ifs with hqp h1
      · simp [hch]
      · exact absurd rfl h1
      · exact h.hosts q (by simpa using hq)
    · simp [he, hcu]
  | removed _ hc' hsc he =>
    cases hc.symm.trans hc'
    obtain ⟨hp, hph, -⟩ := scan_some hsc
    refine ⟨hinv, fun q hq => ?_, husers (usersOf_removed h₁ hp (hph.trans hch)) (by simp [he])⟩
    rw [used_hostOf, detach_hostOf]
    exact h.hosts q (h₁.inv.mem_detach.1 hq).2
  | absent _ hc' hsc he =>
    cases hc.symm.trans hc'
    exact ⟨hinv, h.hosts, husers (usersOf_absent (s := s) (hch ▸ scan_none hsc)) (by simp [he])⟩

theorem Represents.progress (h : Represents s b) (hm : m.Complete) :
    ∃ t, registerStepAll s m t := by
  obtain ⟨c, host, user, hc, hch, -⟩ := hm.contact
  have hok : ∃ r, scan s c.mUrl.urlHost s.items = .ok r := by
    refine scan_ok_iff.2 (.inr ⟨host, hch, fun hn => ?_⟩)
    obtain ⟨p, hp, hpn⟩ := List.mem_map.1 ((List.takeWhile_prefix _).subset hn)
    exact h.hosts p hp hpn
  obtain ⟨r, hr⟩ := hok
  have heff : ∃ x, contactEffect .all m c s = .ok x := by
    rw [contactEffect, hr]
    exact ⟨_, rfl⟩
  obtain ⟨⟨x, t⟩, hx⟩ := heff
  exact ⟨t, x, by rw [registerHandler_accepted h.inv hm.accepted hc, hx]⟩

/-- Every run of complete requests ends, and in a store that holds one end point for each
bound host, with its user, and no other. -/
theorem registrar_refines (ms : List Sip) (hms : ∀ m ∈ ms, m.Complete) :
    (∃ t, Run registerStepAll Store.init ms t) ∧
    ∀ t, Run registerStepAll Store.init ms t →
      (∀ host, usersOf t host = (boundUser ms host).toList.map some) ∧
      (∀ p ∈ t.items, t.hostOf p ≠ none ∧ t.Added p) ∧
      ∀ p, .attachedNotInList p ∉ t.trace ∧ .extractNotInList p ∉ t.trace := by
  constructor
  · refine Run.exists_of_progress (I := fun s => ∃ b, Represents s b) (P := Sip.Complete)
      ?_ ?_ ⟨_, represents_init⟩ hms
    · exact fun _ _ _ ⟨_, hb⟩ hm hs => ⟨_, hb.step hm hs⟩
    · exact fun _ _ ⟨_, hb⟩ hm => hb.progress hm
  · intro t hr
    have h : Represents t (boundUser ms) := by
      rw [← foldl_handle]
      exact hr.refines (R := Represents) (P := Sip.Complete) (fun _ _ _ _ h hm hs => h.step hm hs) represents_init hms
    exact ⟨h.users, fun p hp => ⟨h.hosts p hp, h.inv.added p hp⟩, h.inv.loops⟩

theorem registrar_refines_leaving : ∃ t, Run registerStepAll Store.init
    [.request contactA 300, .request contactB 300, .request contactA 0] t ∧
    usersOf t (.ofBytes [49]) = [] ∧ usersOf t (.ofBytes [50]) = [some (.ofBytes [98])] := by
  have hA : ∀ e, (Sip.request contactA e).Complete := fun e =>
    ⟨Sip.request_accepted _ _, _, _, _, rfl, rfl, rfl⟩
  have hB : ∀ e, (Sip.request contactB e).Complete := fun e =>
    ⟨Sip.request_accepted _ _, _, _, _, rfl, rfl, rfl⟩
  obtain ⟨⟨t, ht⟩, hall⟩ := registrar_refines
    [.request contactA 300, .request contactB 300, .request contactA 0] (by simp [hA, hB])
  exact ⟨t, ht, (hall t ht).1 _, (hall t ht).1 _⟩

end Evsip.Register
