import Evsip.Register.Outcome

/-! The lifetime of the cached list, which is allocated in the home of the end point that is added
first and goes with it, and the requests that use nothing released. -/

namespace Evsip.Register
open CLib Endp Store Transition

def RemovesListHome (s : Store) (i : Allocs × Option Sip) : Prop :=
  ∃ m c v host, i.2 = some m ∧ m.Accepted ∧ m.exptime = 0 ∧ m.sipContact = some c ∧
    c.mUrl.urlHost = some host ∧ s.gpEndpList = some v ∧ v.home ∈ v.items ∧
    s.hostOf v.home = some host

/-- From `s` to `t` no end point and no list was used after its release. -/
structure Punctual (s t : Store) : Prop where
  list : t.lateList = s.lateList
  endps : ∀ p, t.trace.count (.lateAccess p) = s.trace.count (.lateAccess p)

/-- A request that gets to the list finds it alive, and takes no end point off it. -/
def KeepsLive (s : Store) (m : Sip) : Prop :=
  m.Accepted → s.ListLive ∧
    (m.exptime = 0 → ∀ c, m.sipContact = some c → ¬ Listed s c.mUrl.urlHost)

variable {a : Allocs} {c : SipContact} {s t : Store} {p : EndpPtr} {i : Allocs × Option Sip}
  {m : Sip} {r : Handled} {n : ℕ}

theorem items_eq {v : SuVector} (h : s.gpEndpList = some v) : s.items = v.items := by
  rw [items, h]

theorem listLive_refresh : (refresh a c s p).ListLive ↔ s.ListLive := by
  simp [ListLive]

theorem listLive_detach : (s.detach p).ListLive ↔
    ∀ v, s.gpEndpList = some v → v.home ≠ p ∧ ¬ s.released v.home := by
  simp only [ListLive, detach_released, not_or]
  constructor
  · intro h v hv
    exact h { v with items := s.items.erase p } (by simp [detach, hv])
  · intro h v hv
    obtain ⟨w, hw, rfl⟩ := Option.map_eq_some_iff.1 hv
    exact h w hw

theorem listLive_register (h : Inv s) : (register a c s).ListLive ↔ s.ListLive := by
  have hlt : ∀ v, s.gpEndpList = some v → v.home ≠ s.next :=
    fun v hv => (h.home_lt v hv).ne
  simp only [ListLive, register_released, register_list]
  rcases hl : s.gpEndpList with _ | v
  · cases a.vectorCreate <;> simp
  · simp [hlt v hl]

theorem used_lateList_iff (hn : n ≠ 0) : (s.used n).lateList = s.lateList ↔ s.ListLive := by
  by_cases h : s.ListLive <;> simp [used, h, hn]

theorem le_used : s.lateList ≤ (s.used n).lateList := Nat.le_add_right _ _

theorem refresh_lateList : (refresh a c s p).lateList = s.lateList := by
  simp [refresh, setHost, setContact, setString, strdup_lateList, setEndp]

theorem le_register : s.lateList ≤ (register a c s).lateList := by
  have hle : (refresh a c s.create s.next).lateList ≤ _ := le_used (n := 1)
  rw [refresh_lateList] at hle
  rw [register, add_lateList]
  exact hle

theorem register_lateList (hl : s.ListLive) : (register a c s).lateList = s.lateList := by
  have hlive : (refresh a c s.create s.next).ListLive := by
    intro v hv
    rw [refresh_list, create_list] at hv
    rw [refresh_released, create_released]
    exact fun hr => hl v hv hr.2
  rw [register, add_lateList, used_of_live hlive, refresh_lateList]
  rfl

theorem punctual_iff_of_trace (ht : t.trace = s.trace)
    (hl : t.lateList = s.lateList ↔ s.ListLive) : Punctual s t ↔ s.ListLive :=
  ⟨fun hp => hl.1 hp.list, fun hs => ⟨hl.2 hs, fun p => by rw [ht]⟩⟩

theorem listLive_of_used_le (h : (s.used 1).lateList ≤ s.lateList) : s.ListLive :=
  (used_lateList_iff Nat.one_ne_zero).1 (le_antisymm h le_used)

theorem punctual_register (h : Inv s) :
    Punctual s ((register a c (s.used 1)).used 1) ↔ s.ListLive := by
  refine punctual_iff_of_trace (by rw [used_trace, register_trace, used_trace])
    ⟨fun hk => listLive_of_used_le (hk ▸ le_register.trans le_used), fun hl => ?_⟩
  rw [used_of_live hl, used_of_live ((listLive_register h).2 hl), register_lateList hl]

theorem punctual_refresh : Punctual s ((refresh a c (s.used 1) p).used 2) ↔ s.ListLive := by
  refine punctual_iff_of_trace (by rw [used_trace, refresh_trace, used_trace])
    ⟨fun hk => listLive_of_used_le ?_, fun hl => ?_⟩
  · calc (s.used 1).lateList = (refresh a c (s.used 1) p).lateList := refresh_lateList.symm
      _ ≤ ((refresh a c (s.used 1) p).used 2).lateList := le_used
      _ = s.lateList := hk
  · rw [used_of_live hl, used_of_live (listLive_refresh.2 hl), refresh_lateList]

theorem not_punctual_detach : ¬ Punctual s (((s.used 1).detach p).used 1) := by
  intro hp
  have hcount := hp.endps p
  simp only [used_trace, detach, List.count_cons] at hcount
  simp at hcount
  omega

/-- A request uses something released exactly when it gets to a list that is gone, or takes an end
point off the list, which is destroyed by the list and then used by the handler. -/
theorem Outcome.punctual_iff (h : Inv s) (ho : Outcome a s (some m) r t) :
    Punctual s t ↔ KeepsLive s m := by
  have hpos : m.exptime > 0 → m.exptime ≠ 0 := UInt64.pos_iff_ne_zero.1
  have hkeeps : m.Accepted → m.exptime > 0 → (s.ListLive ↔ KeepsLive s m) := fun hm he =>
    ⟨fun hl _ => ⟨hl, fun h0 => absurd h0 (hpos he)⟩, fun hk => (hk hm).1⟩
  cases ho with
  | refused hno _ => exact iff_of_true ⟨rfl, fun _ => rfl⟩ fun ha => absurd ha (hno m rfl)
  | noMemory hm _ _ he _ =>
    have hone := used_lateList_iff (s := s) Nat.one_ne_zero
    exact (punctual_iff_of_trace used_trace hone).trans (hkeeps hm he)
  | registered hm _ _ he _ => exact (punctual_register h).trans (hkeeps hm he)
  | refreshed hm _ _ he => exact punctual_refresh.trans (hkeeps hm he)
  | @removed m c p hm hc hsc he =>
    refine iff_of_false not_punctual_detach fun hk => ?_
    exact (hk hm).2 (by simpa using he) c hc (scan_listed hsc)
  | absent hm hc hsc _ =>
    have htwo := used_lateList_iff (s := s) (n := 2) (by decide)
    refine (punctual_iff_of_trace used_trace htwo).trans
      ⟨fun hl _ => ⟨hl, ?_⟩, fun hk => (hk hm).1⟩
    intro _ c' hc'
    cases hc.symm.trans hc'
    exact scan_not_listed hsc

theorem listLive_step (h : Inv s) (hg : s.ListLive) (hs : registerStep s i t) :
    t.ListLive ↔ ¬ RemovesListHome s i := by
  obtain ⟨a, sip⟩ := i
  obtain ⟨r, hr⟩ := hs
  have hpos : ∀ {m : Sip}, m.exptime > 0 → ¬ RemovesListHome s (a, some m) := by
    rintro m he ⟨_, _, _, _, ⟨⟩, _, h0, _⟩
    rw [h0] at he
    exact absurd he (by decide)
  cases registerHandler_cases h hr with
  | refused hno _ => exact iff_of_true hg fun ⟨m, _, _, _, hm, ha, _⟩ => hno m hm ha
  | noMemory _ _ _ he _ => exact iff_of_true hg (hpos he)
  | registered _ _ _ he _ =>
    rw [used_listLive, listLive_register (h.used 1), used_listLive]
    exact iff_of_true hg (hpos he)
  | refreshed _ _ _ he =>
    rw [used_listLive, listLive_refresh, used_listLive]
    exact iff_of_true hg (hpos he)
  | @removed m c p hm hc hsc he =>
    obtain ⟨hp, hh, hn⟩ := scan_some hsc
    rw [used_listLive, listLive_detach]
    simp only [used_list, used_released]
    have he0 : m.exptime = 0 := by simpa using he
    -- the end point found by its host is the one whose home has the list, or it is not
    constructor
    · rintro hl ⟨_, _, v, host, ⟨⟩, _, _, hc', hhost, hv, hmem, hvh⟩
      cases hc.symm.trans hc'
      refine (hl v hv).1 (h.host_inj _ (items_eq hv ▸ hmem) _ hp (by simp [hvh]) ?_)
      rw [hvh, hh, hhost]
    · intro hno v hv
      refine ⟨fun hvp => hno ?_, hg v hv⟩
      obtain ⟨host, hhost⟩ := Option.ne_none_iff_exists'.1 hn
      exact ⟨m, c, v, host, rfl, hm, he0, hc, hhost, hv, by rw [hvp, ← items_eq hv]; exact hp,
        by rw [hvp, hh, hhost]⟩
  | absent _ hc hsc _ =>
    rw [used_listLive]
    refine iff_of_true hg ?_
    rintro ⟨_, _, v, host, ⟨⟩, _, _, hc', hhost, hv, hmem, hvh⟩
    cases hc.symm.trans hc'
    exact scan_none hsc v.home (items_eq hv ▸ hmem) (hvh.trans hhost.symm)

theorem not_listLive_step (h : Inv s) (hg : ¬ s.ListLive) (hs : registerStep s i t) :
    ¬ t.ListLive := by
  obtain ⟨a, sip⟩ := i
  obtain ⟨r, hr⟩ := hs
  cases registerHandler_cases h hr with
  | refused _ _ => exact hg
  | noMemory _ _ _ _ _ => exact hg
  | registered _ _ _ _ _ => rwa [used_listLive, listLive_register (h.used 1), used_listLive]
  | refreshed _ _ _ _ => rwa [used_listLive, listLive_refresh, used_listLive]
  | removed _ _ _ _ =>
    rw [used_listLive, listLive_detach]
    exact fun hl => hg fun v hv => (hl v hv).2
  | absent _ _ _ _ => exact hg

theorem listLive_init : Store.init.ListLive := by simp [ListLive, Store.init]

/-- The list of a run is alive as long as the end point that was added first stays. -/
theorem listLive_iff {is : List (Allocs × Option Sip)} (h : Run registerStep Store.init is t) :
    t.ListLive ↔ Run (guarded registerStep fun s i => ¬ RemovesListHome s i) Store.init is t :=
  h.good_iff_guarded (fun _ _ _ => Inv.step) (fun _ _ _ => listLive_step)
    (fun _ _ _ => not_listLive_step) Inv.init listLive_init

theorem listLive_iff_second_leaves : ∃ t, Run registerStep Store.init
    [(.all, some (.request contactA 300)), (.all, some (.request contactB 300)),
      (.all, some (.request contactB 0))] t ∧ t.ListLive := by
  have h₁ := contactA_step
  have h₂ : registerStep _ (.all, some (.request contactB 300)) _ :=
    request_step (Inv.init.step h₁) rfl
  have h₃ : registerStep _ (.all, some (.request contactB 0)) _ :=
    request_step ((Inv.init.step h₁).step h₂) rfl
  have hpos : ∀ s c, ¬ RemovesListHome s (.all, some (.request c 300)) := by
    rintro s c ⟨_, _, _, _, ⟨⟩, _, h0, _⟩
    exact absurd (show (300 : UInt64) = 0 from h0) (by decide)
  refine ⟨_, .cons h₁ (.cons h₂ (.cons h₃ (.nil _))),
    (listLive_iff (.cons h₁ (.cons h₂ (.cons h₃ (.nil _))))).2
      (.cons ⟨h₁, hpos _ _⟩ (.cons ⟨h₂, hpos _ _⟩ (.cons ⟨h₃, ?_⟩ (.nil _))))⟩
  rintro ⟨_, _, v, host, ⟨⟩, _, _, ⟨⟩, ⟨⟩, ⟨⟩, _, hv⟩
  exact absurd hv (by decide)

theorem not_listLive_first_leaves : ∃ t, Run registerStep Store.init
    [(.all, some (.request contactA 300)), (.all, some (.request contactA 0))] t ∧
    t.gpEndpList ≠ none ∧ ¬ t.ListLive := by
  have h₁ := contactA_step
  have h₂ : registerStep _ (.all, some (.request contactA 0)) _ :=
    request_step (Inv.init.step h₁) rfl
  exact ⟨_, .cons h₁ (.cons h₂ (.nil _)), by decide, fun h => h _ rfl (by decide)⟩

end Evsip.Register
