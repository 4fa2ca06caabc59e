import Evsip.Register.Outcome

/-! The strings in the homes of the end points. The setters allocate a copy and let go of the
pointer to the one before, so that a home keeps all it was ever given. -/

namespace Evsip.Register
open CLib Endp Store Transition

/-- The home of a listed end point has the strings that the end point refers to, and no other. -/
def Tidy (s : Store) : Prop := ∀ p ∈ s.items, ∀ d,
  d ∈ (s.endp p).home.strings ↔ (s.endp p).contact = some d ∨ (s.endp p).host = some d

/-- The request is no registration for a host that is listed already. -/
def NoRefresh (s : Store) (m : Sip) : Prop :=
  ∀ c, m.Accepted → m.sipContact = some c → m.exptime > 0 → ¬ Listed s c.mUrl.urlHost

def Older (s : Store) : Prop := ∀ p ∈ s.items, ∀ d ∈ (s.endp p).home.strings, d.addr < s.nextStr

variable {a : Allocs} {c : SipContact} {s t : Store} {p q : EndpPtr} {m : Sip} {d : Dup}

/-! The strings of a refreshed end point -/

def newHost (a : Allocs) (c : SipContact) (s : Store) : Option Dup :=
  s.dup a.strdupHost c.mUrl.urlHost

def newContact (a : Allocs) (c : SipContact) (s : Store) (p : EndpPtr) : Option Dup :=
  (s.setHost a.strdupHost p c.mUrl.urlHost).dup a.strdupContact c.mUrl.urlUser

theorem setHost_nextStr : (s.setHost a.strdupHost p c.mUrl.urlHost).nextStr =
    s.nextStr + (newHost a c s).toList.length := strdup_nextStr

theorem refresh_nextStr : (refresh a c s p).nextStr =
    s.nextStr + (newHost a c s).toList.length + (newContact a c s p).toList.length := by
  rw [← setHost_nextStr (p := p)]
  exact strdup_nextStr

theorem refresh_endp_of_ne (hq : q ≠ p) : (refresh a c s p).endp q = s.endp q := by
  rw [refresh, setContact, setString_endp_of_ne _ hq, setHost, setString_endp_of_ne _ hq]

theorem refresh_strings : ((refresh a c s p).endp p).home.strings =
    (newContact a c s p).toList ++ ((newHost a c s).toList ++ (s.endp p).home.strings) := by
  simp [refresh, setContact, setString, strdup_strings, setHost, newContact, newHost]

theorem refresh_contact : ((refresh a c s p).endp p).contact = newContact a c s p := by
  simp [refresh, setContact, setString, newContact]

theorem refresh_host : ((refresh a c s p).endp p).host = newHost a c s := by
  simp [refresh, setContact, setHost, setString, newHost]

theorem newHost_addr (h : newHost a c s = some d) : d.addr = s.nextStr := dup_addr h

theorem newContact_addr (h : newContact a c s p = some d) :
    d.addr = s.nextStr + (newHost a c s).toList.length := (dup_addr h).trans setHost_nextStr

theorem mem_refresh_strings : d ∈ ((refresh a c s p).endp p).home.strings ↔
    (((refresh a c s p).endp p).contact = some d ∨ ((refresh a c s p).endp p).host = some d) ∨
      d ∈ (s.endp p).home.strings := by
  rw [refresh_strings, refresh_contact, refresh_host]
  simp [or_assoc]

theorem refresh_addr_lt (hold : ∀ d ∈ (s.endp p).home.strings, d.addr < s.nextStr) :
    ∀ d ∈ ((refresh a c s p).endp p).home.strings, d.addr < (refresh a c s p).nextStr := by
  intro d hd
  rw [refresh_strings] at hd
  rw [refresh_nextStr]
  simp only [List.mem_append, Option.mem_toList] at hd
  rcases hd with hd | hd | hd
  · rw [newContact_addr hd, hd]
    simp
  · rw [newHost_addr hd, hd]
    simp only [Option.toList_some, List.length_singleton]
    omega
  · have hlt := hold d hd
    omega

theorem refresh_addr_ge (hd : ((refresh a c s p).endp p).contact = some d ∨
    ((refresh a c s p).endp p).host = some d) : s.nextStr ≤ d.addr := by
  rw [refresh_contact, refresh_host] at hd
  rcases hd with hd | hd
  · rw [newContact_addr hd]
    exact Nat.le_add_right _ _
  · exact (newHost_addr hd).ge

theorem not_tidy_refresh (ht : Tidy s) (hold : Older s) (hp : p ∈ s.items)
    (hh : s.hostOf p ≠ none) : ¬ Tidy (refresh a c s p) := by
  obtain ⟨d, hd⟩ : ∃ d, (s.endp p).host = some d := by
    rw [← Option.ne_none_iff_exists']
    exact fun h0 => hh (by rw [hostOf, h0, Option.map_none])
  have hmem := (ht p hp d).2 (.inr hd)
  intro htidy
  have hkept := (htidy p (by rw [refresh_items]; exact hp) d).1 (mem_refresh_strings.2 (.inr hmem))
  exact absurd (hold p hp d hmem) (refresh_addr_ge hkept).not_gt

/-! The strings of a new one, and of those that stay -/

theorem register_endp_of_ne (hq : q ≠ s.next) : (register a c s).endp q = s.endp q := by
  rw [register, add_endp, if_neg fun h => hq h.1, used_endp, refresh_endp_of_ne hq, create_endp,
    if_neg hq]

theorem register_endp_self : ∃ flags, (register a c s).endp s.next =
    { (refresh a c s.create s.next).endp s.next with flags := flags } := by
  rw [register, add_endp, used_endp]
  split_ifs
  · exact ⟨_, rfl⟩
  · exact ⟨_, rfl⟩

theorem create_strings : (s.create.endp s.next).home.strings = [] := by
  rw [create_endp, if_pos rfl]

theorem register_nextStr : (register a c s).nextStr = (refresh a c s.create s.next).nextStr :=
  add_nextStr

theorem nextStr_le_register : s.nextStr ≤ (register a c s).nextStr := by
  rw [register_nextStr, refresh_nextStr, Nat.add_assoc]
  exact Nat.le_add_right _ _

theorem Tidy.used (ht : Tidy s) (n : ℕ) : Tidy (s.used n) := ht

theorem Older.used (hold : Older s) (n : ℕ) : Older (s.used n) := hold

theorem Tidy.register (ht : Tidy s) (h : Inv s) : Tidy (register a c s) := by
  intro p hp d
  rcases mem_register.1 hp with hp | ⟨rfl, -⟩
  · rw [register_endp_of_ne (h.ne_next hp)]
    exact ht p hp d
  · obtain ⟨flags, hself⟩ := register_endp_self (a := a) (c := c) (s := s)
    rw [hself, mem_refresh_strings, create_strings]
    exact or_iff_left List.not_mem_nil

theorem Older.register (hold : Older s) (h : Inv s) : Older (register a c s) := by
  intro p hp d hd
  rcases mem_register.1 hp with hp | ⟨rfl, -⟩
  · rw [register_endp_of_ne (h.ne_next hp)] at hd
    exact (hold p hp d hd).trans_le nextStr_le_register
  · obtain ⟨flags, hself⟩ := register_endp_self (a := a) (c := c) (s := s)
    rw [hself] at hd
    rw [register_nextStr]
    exact refresh_addr_lt (by simp) d hd

theorem Tidy.detach (ht : Tidy s) (h : Inv s) : Tidy (s.detach p) := by
  intro q hq d
  obtain ⟨hqp, hq⟩ := h.mem_detach.1 hq
  rw [detach_endp hqp]
  exact ht q hq d

theorem Older.detach (hold : Older s) (h : Inv s) : Older (s.detach p) := by
  intro q hq d hd
  obtain ⟨hqp, hq⟩ := h.mem_detach.1 hq
  rw [detach_endp hqp] at hd
  exact hold q hq d hd

structure Neat (s : Store) : Prop where
  inv : Inv s
  tidy : Tidy s
  older : Older s

theorem Neat.step (hs : Neat s) (hst : registerStepAll s m t) :
    Neat t ∧ NoRefresh s m ∨ ¬ Tidy t ∧ ¬ NoRefresh s m := by
  have hinv := hs.inv.step hst
  have h₁ := hs.inv.used 1
  have ht₁ := hs.tidy.used 1
  have hold₁ := hs.older.used 1
  obtain ⟨r, hr⟩ := hst
  cases registerHandler_cases hs.inv hr with
  | refused hno _ => exact .inl ⟨hs, fun c ha => absurd ha (hno m rfl)⟩
  | noMemory _ _ _ _ ha => cases ha
  | registered _ hc hsc _ _ =>
    refine .inl ⟨⟨hinv, (ht₁.register h₁).used 1, (hold₁.register h₁).used 1⟩, ?_⟩
    intro c' _ hc' _
    cases hc.symm.trans hc'
    exact scan_not_listed hsc
  | refreshed hm hc hsc he =>
    obtain ⟨hp, hh, hne⟩ := scan_some hsc
    have hne' : (s.used 1).hostOf _ ≠ none := hh ▸ hne
    refine .inr ⟨fun ht => not_tidy_refresh ht₁ hold₁ hp hne' ht, fun hno => ?_⟩
    exact hno _ hm hc he (scan_listed hsc)
  | removed _ _ _ he =>
    exact .inl ⟨⟨hinv, (ht₁.detach h₁).used 1, (hold₁.detach h₁).used 1⟩,
      fun _ _ _ hpos => absurd hpos he⟩
  | absent _ _ _ he =>
    exact .inl ⟨⟨hinv, hs.tidy.used 2, hs.older.used 2⟩, fun _ _ _ hpos => absurd hpos he⟩

theorem Neat.init : Neat Store.init :=
  ⟨Inv.init, by simp [Tidy, Store.init, items], by simp [Older, Store.init, items]⟩

/-- The homes keep to the strings in use as long as no registration is refreshed. -/
theorem strings_tidy_iff (ms : List Sip) (t : Store) :
    Run (fun s m t => registerStepAll s m t ∧ Tidy t) Store.init ms t ↔
      Run (guarded registerStepAll NoRefresh) Store.init ms t := by
  refine run_good_iff (I := Neat) (fun s m t hs hst => ?_) (fun s m t hs hst htidy => ?_) .init
  · rcases hs.step hst with ⟨ht, hno⟩ | ⟨hnot, hre⟩
    · exact iff_of_true ht.tidy hno
    · exact iff_of_false hnot hre
  · rcases hs.step hst with ⟨ht, -⟩ | ⟨hnot, -⟩
    · exact ht
    · exact absurd htidy hnot

theorem not_strings_tidy_refresh : ∃ t, Run registerStepAll Store.init
    [.request contactA 300, .request contactA 300] t ∧ t.items = [0] ∧
    (t.endp 0).home.strings.length = 4 ∧ ¬ Tidy t := by
  have h₁ : registerStepAll Store.init (.request contactA 300) _ := contactA_step
  have h₂ : registerStepAll _ (.request contactA 300) _ := request_step (Inv.init.step h₁) rfl
  have hs : Neat (register .all contactA Store.init) :=
    ⟨Inv.init.step h₁, Neat.init.tidy.register Inv.init, Neat.init.older.register Inv.init⟩
  refine ⟨_, .cons h₁ (.cons h₂ (.nil _)), rfl, rfl, ?_⟩
  exact not_tidy_refresh hs.tidy hs.older (List.mem_singleton_self _) (by decide)

end Evsip.Register
