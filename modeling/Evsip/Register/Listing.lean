import Evsip.Lib.Assoc
import Evsip.Register.Refinement
import Mathlib.Data.List.Perm.Basic

/-! The registrar as a list of bindings in the order in which their hosts came, and the dump of
the end points against it. -/

namespace Evsip.Register
open CLib Endp Store Transition Assoc

/-- The hosts that are registered, in the order in which they came, with their users. -/
abbrev Listing := List (CString × CString)

def Listing.handle (l : Listing) (m : Sip) : Listing :=
  match m.contactHost, m.contactUser with
  | some host, some user => if m.exptime > 0 then put l host user else remove l host
  | _, _ => l

def listing (ms : List Sip) : Listing := ms.foldl Listing.handle []

def shown (e : CString × CString) : Option CString × Option CString := (some e.2, some e.1)

/-- The list holds an end point for each binding, in the same order. -/
structure Lists (s : Store) (l : Listing) : Prop where
  inv : Inv s
  endps : s.items.map (fun p => (s.hostOf p, s.contactOf p)) = l.map fun e => (some e.1, some e.2)
  nodup : (keys l).Nodup

variable {c : SipContact} {s t t' : Store} {l : Listing} {m : Sip} {ms ms' : List Sip}
  {host user : CString} {p : EndpPtr}

namespace Lists

theorem init : Lists Store.init [] := ⟨Inv.init, rfl, List.nodup_nil⟩

theorem hosts (h : Lists s l) : s.items.map s.hostOf = (keys l).map some := by
  have hmap := congrArg (List.map Prod.fst) h.endps
  simpa [keys, List.map_map, Function.comp_def] using hmap

theorem mem_keys_iff (h : Lists s l) : host ∈ keys l ↔ ∃ p ∈ s.items, s.hostOf p = some host := by
  have hmem : host ∈ keys l ↔ some host ∈ (keys l).map some := by simp
  rw [hmem, ← h.hosts, List.mem_map]

theorem eq_iff (h : Lists s l) (hp : p ∈ s.items) (hph : s.hostOf p = some host) {q : EndpPtr}
    (hq : q ∈ s.items) : q = p ↔ s.hostOf q = some host := by
  constructor
  · rintro rfl
    exact hph
  · exact fun hqh => h.inv.host_inj q hq p hp (by simp [hqh]) (hqh.trans hph.symm)

theorem refreshed (h : Lists s l) (hp : p ∈ s.items) (hph : s.hostOf p = some host)
    (hch : c.mUrl.urlHost = some host) (hcu : c.mUrl.urlUser = some user) :
    Lists (refresh .all c s p) (put l host user) := by
  refine ⟨h.inv.refresh hp (hph.trans hch.symm), ?_, nodup_put h.nodup⟩
  have hput : put l host user = l.map fun e => if e.1 = host then (host, user) else e :=
    if_pos (h.mem_keys_iff.2 ⟨p, hp, hph⟩)
  calc (refresh .all c s p).items.map (fun q => ((refresh .all c s p).hostOf q,
          (refresh .all c s p).contactOf q))
      = (s.items.map fun q => (s.hostOf q, s.contactOf q)).map
          fun e => if e.1 = some host then (some host, some user) else e := by
        rw [refresh_items, List.map_map]
        refine List.map_congr_left fun q hq => ?_
        have hqp := h.eq_iff hp hph hq
        by_cases hqe : q = p
        · simp [hqe, hph, Allocs.all, hch, hcu]
        · simp [hqe, mt hqp.2 hqe]
    _ = (put l host user).map fun e => (some e.1, some e.2) := by
        rw [h.endps, hput, List.map_map, List.map_map]
        refine List.map_congr_left fun e _ => ?_
        by_cases he : e.1 = host <;> simp [he]

theorem registered (h : Lists s l) (hnone : ∀ q ∈ s.items, s.hostOf q ≠ some host)
    (hch : c.mUrl.urlHost = some host) (hcu : c.mUrl.urlUser = some user) :
    Lists (register .all c s) (put l host user) := by
  refine ⟨h.inv.register (hch ▸ hnone), ?_, nodup_put h.nodup⟩
  have hput : put l host user = l ++ [(host, user)] := if_neg fun hk => by
    obtain ⟨q, hq, hqh⟩ := h.mem_keys_iff.1 hk
    exact hnone q hq hqh
  have hold : s.items.map (fun q => ((register .all c s).hostOf q, (register .all c s).contactOf q)) =
      l.map fun e => (some e.1, some e.2) := by
    rw [← h.endps]
    refine List.map_congr_left fun q hq => ?_
    rw [register_hostOf, register_contactOf, if_neg (h.inv.ne_next hq), if_neg (h.inv.ne_next hq)]
  rw [register_items, if_pos (by simp [listable, Allocs.all]), List.map_append, hold, hput,
    List.map_append]
  simp [register_hostOf, register_contactOf, Allocs.all, hch, hcu]

theorem removed (h : Lists s l) (hp : p ∈ s.items) (hph : s.hostOf p = some host) :
    Lists (s.detach p) (remove l host) := by
  refine ⟨h.inv.detach hp, ?_, nodup_remove h.nodup⟩
  calc (s.detach p).items.map (fun q => ((s.detach p).hostOf q, (s.detach p).contactOf q))
      = (s.items.filter (s.hostOf · ≠ some host)).map fun q => (s.hostOf q, s.contactOf q) := by
        simp only [detach_items, detach_hostOf, detach_contactOf, h.inv.nodup.erase_eq_filter]
        rw [List.filter_congr fun q hq => ?_]
        have hqp := h.eq_iff hp hph hq
        by_cases hqe : q = p
        · simp [hqe, hph]
        · simp [hqe, mt hqp.2 hqe]
    _ = (s.items.map fun q => (s.hostOf q, s.contactOf q)).filter (·.1 ≠ some host) := by
        rw [List.filter_map]
        rfl
    _ = (remove l host).map fun e => (some e.1, some e.2) := by
        rw [h.endps, remove, List.filter_map]
        congr 1
        refine List.filter_congr fun e _ => ?_
        simp

theorem used (h : Lists s l) (n : ℕ) : Lists (s.used n) l := ⟨h.inv.used n, h.endps, h.nodup⟩

theorem absent (h : Lists s l) (hnone : ∀ q ∈ s.items, s.hostOf q ≠ some host) :
    remove l host = l := by
  refine List.filter_eq_self.2 fun e he => decide_eq_true fun hk => ?_
  obtain ⟨q, hq, hqh⟩ := h.mem_keys_iff.1 (List.mem_map.2 ⟨e, he, hk⟩)
  exact hnone q hq hqh

theorem step (h : Lists s l) (hm : m.Complete) (hs : registerStepAll s m t) :
    Lists t (l.handle m) := by
  obtain ⟨c, host, user, hc, hch, hcu⟩ := hm.contact
  obtain ⟨r, hr⟩ := hs
  have hhandle : l.handle m = if m.exptime > 0 then put l host user else remove l host := by
    simp [Listing.handle, Sip.contactHost, Sip.contactUser, hc, hch, hcu]
  have h₁ := h.used 1
  rw [hhandle]
  cases registerHandler_cases h.inv hr with
  | refused hno _ => exact absurd hm.accepted (hno m rfl)
  | noMemory _ _ _ _ ha => cases ha
  | registered _ hc' hsc he _ =>
    cases hc.symm.trans hc'
    rw [if_pos he]
    exact (h₁.registered (hch ▸ scan_none_used 1 hsc) hch hcu).used 1
  | refreshed _ hc' hsc he =>
    cases hc.symm.trans hc'
    obtain ⟨hp, hph, -⟩ := scan_some hsc
    rw [if_pos he]
    exact (h₁.refreshed hp (hph.trans hch) hch hcu).used 2
  | removed _ hc' hsc he =>
    cases hc.symm.trans hc'
    obtain ⟨hp, hph, -⟩ := scan_some hsc
    rw [if_neg he]
    exact (h₁.removed hp (hph.trans hch)).used 1
  | absent _ hc' hsc he =>
    cases hc.symm.trans hc'
    rw [if_neg he, h.absent (hch ▸ scan_none hsc)]
    exact h.used 2

theorem run (hms : ∀ m ∈ ms, m.Complete) (hr : Run registerStepAll Store.init ms t) :
    Lists t (listing ms) :=
  hr.refines (R := Lists) (P := Sip.Complete) (fun _ _ _ _ h hm hs => h.step hm hs) .init hms

theorem dump (h : Lists s l) : endpDumpList.run s = .ok (l.map shown, s.used 1) := by
  rw [endpDumpList_run fun p hp => (h.inv.live p hp).not_released]
  have hmap := congrArg (List.map Prod.swap) h.endps
  have hshown : shown = fun e => (some e.2, some e.1) := rfl
  simpa [Store.dump, List.map_map, Function.comp_def, hshown] using hmap

end Lists

theorem complete_run (hms : ∀ m ∈ ms, m.Complete) : ∃ t, Run registerStepAll Store.init ms t :=
  Run.exists_of_progress (I := fun s => ∃ b, Represents s b) (P := Sip.Complete)
    (fun _ _ _ ⟨_, hb⟩ hm hs => ⟨_, hb.step hm hs⟩) (fun _ _ ⟨_, hb⟩ hm => hb.progress hm)
    ⟨_, represents_init⟩ hms

/-- What the dump shows after any requests is the bindings, host by host, in order of arrival. -/
theorem dump_listing (hms : ∀ m ∈ ms, m.Complete) :
    (∃ t, Run registerStepAll Store.init ms t) ∧
    ∀ t, Run registerStepAll Store.init ms t →
      endpDumpList.run t = .ok ((listing ms).map shown, t.used 1) ∧ (keys (listing ms)).Nodup := by
  refine ⟨complete_run hms, fun t hr => ?_⟩
  have h := Lists.run hms hr
  exact ⟨h.dump, h.nodup⟩

theorem contacts_complete (e : UInt64) :
    (Sip.request contactA e).Complete ∧ (Sip.request contactB e).Complete :=
  ⟨⟨Sip.request_accepted _ _, _, _, _, rfl, rfl, rfl⟩,
    ⟨Sip.request_accepted _ _, _, _, _, rfl, rfl, rfl⟩⟩

theorem dump_listing_two :
    let ms := [Sip.request contactA 300, .request contactB 300]
    (∃ t, Run registerStepAll Store.init ms t) ∧
    ∀ t, Run registerStepAll Store.init ms t →
      endpDumpList.run t = .ok ([(some (.ofBytes [97]), some (.ofBytes [49])),
        (some (.ofBytes [98]), some (.ofBytes [50]))], t.used 1) ∧ (keys (listing ms)).Nodup :=
  dump_listing (by simp [contacts_complete])

theorem mem_listing (hms : ∀ m ∈ ms, m.Complete) :
    (host, user) ∈ listing ms ↔ boundUser ms host = some user := by
  induction ms using List.reverseRecOn with
  | nil => simp [listing, boundUser, lastRequest]
  | append_singleton ms m ih =>
    have ih := ih fun m hm => hms m (List.mem_append_left _ hm)
    obtain ⟨c, k, u, hc, hk, hu⟩ := (hms m (by simp)).contact
    have hmk : m.contactHost = some k := by simp [Sip.contactHost, hc, hk]
    have hmu : m.contactUser = some u := by simp [Sip.contactUser, hc, hu]
    rw [boundUser_concat, listing, List.foldl_append, List.foldl_cons, List.foldl_nil, ← listing]
    simp only [Listing.handle, Bindings.handle, hmk, hmu]
    by_cases he : m.exptime > 0 <;> by_cases hkh : k = host
    · simp [he, hkh, mem_put, eq_comm]
    · simp [he, hkh, mem_put, ih, Ne.symm hkh]
    · simp [he, hkh, mem_remove]
    · simp [he, hkh, mem_remove, ih, Ne.symm hkh]

theorem nodup_listing (ms : List Sip) : (keys (listing ms)).Nodup := by
  induction ms using List.reverseRecOn with
  | nil => exact List.nodup_nil
  | append_singleton ms m ih =>
    rw [listing, List.foldl_append, List.foldl_cons, List.foldl_nil, ← listing]
    rcases hhost : m.contactHost with _ | host
    · simpa only [Listing.handle, hhost] using ih
    rcases huser : m.contactUser with _ | user
    · simpa only [Listing.handle, hhost, huser] using ih
    · simp only [Listing.handle, hhost, huser]
      split_ifs
      · exact nodup_put ih
      · exact nodup_remove ih

theorem perm_iff (hms : ∀ m ∈ ms, m.Complete) (hms' : ∀ m ∈ ms', m.Complete) :
    ((listing ms).map shown).Perm ((listing ms').map shown) ↔ boundUser ms = boundUser ms' := by
  have hshown : Function.Injective shown := fun x y hxy => by
    obtain ⟨huser, hhost⟩ := Prod.mk.inj hxy
    exact Prod.ext (Option.some.inj hhost) (Option.some.inj huser)
  rw [List.map_perm_map_iff hshown, List.perm_ext_iff_of_nodup (nodup_listing ms).of_map
    (nodup_listing ms').of_map]
  constructor
  · intro h
    funext host
    refine Option.ext fun user => ?_
    rw [← Option.mem_def, Option.mem_def, ← mem_listing hms, ← mem_listing hms', h]
  · rintro h ⟨host, user⟩
    rw [mem_listing hms, mem_listing hms', h]

/-- The dumps after two runs show the same end points exactly when the runs left every host bound to
the same user, whatever the order of the requests of different hosts. -/
theorem dump_perm (hms : ∀ m ∈ ms, m.Complete) (hms' : ∀ m ∈ ms', m.Complete)
    (hr : Run registerStepAll Store.init ms t) (hr' : Run registerStepAll Store.init ms' t') :
    ∃ d d', endpDumpList.run t = .ok (d, t.used 1) ∧ endpDumpList.run t' = .ok (d', t'.used 1) ∧
      (d.Perm d' ↔ ∀ host, boundUser ms host = boundUser ms' host) :=
  ⟨_, _, (Lists.run hms hr).dump, (Lists.run hms' hr').dump,
    (perm_iff hms hms').trans funext_iff⟩

theorem dump_perm_two :
    let ms := [Sip.request contactA 300, .request contactB 300]
    let ms' := [Sip.request contactB 300, .request contactA 300]
    ∃ t t', Run registerStepAll Store.init ms t ∧ Run registerStepAll Store.init ms' t' ∧
      ∃ d d', endpDumpList.run t = .ok (d, t.used 1) ∧ endpDumpList.run t' = .ok (d', t'.used 1) ∧
        (d.Perm d' ↔ ∀ host, boundUser ms host = boundUser ms' host) := by
  intro ms ms'
  have hms : ∀ m ∈ ms, m.Complete := by simp [ms, contacts_complete]
  have hms' : ∀ m ∈ ms', m.Complete := by simp [ms', contacts_complete]
  obtain ⟨t, hr⟩ := complete_run hms
  obtain ⟨t', hr'⟩ := complete_run hms'
  exact ⟨t, t', hr, hr', dump_perm hms hms' hr hr'⟩

end Evsip.Register
