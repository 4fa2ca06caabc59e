import Evsip.Register.Lifetime

/-! When the handler gets to a final response without following a NULL pointer, and when it also
uses nothing that was released. -/

namespace Evsip.Register
open CLib Endp Store Transition

variable {a : Allocs} {s t : Store} {m : Sip} {sipTo : SipTo}

def Responds (a : Allocs) (s : Store) (m : Sip) : Prop :=
  ∃ r t, (registerHandler a (some m)).run s = .ok (r, t) ∧ ∃ x ∈ r.sent, x.status ≥ 200

def RespondsLive (a : Allocs) (s : Store) (m : Sip) : Prop :=
  ∃ r t, (registerHandler a (some m)).run s = .ok (r, t) ∧ (∃ x ∈ r.sent, x.status ≥ 200) ∧
    Punctual s t

/-- The target is incomplete, or there is a contact whose lookup meets no NULL host. -/
def Answerable (s : Store) (m : Sip) (sipTo : SipTo) : Prop :=
  sipTo.aUrl.urlUser = none ∨ sipTo.aUrl.urlHost = none ∨
    ∃ c, m.sipContact = some c ∧ (s.items = [] ∨ ∃ host, c.mUrl.urlHost = some host ∧
      none ∉ (s.items.map s.hostOf).takeWhile (· ≠ some host))

theorem answer_final (m : Sip) (c : SipContact)
    (shown : List (Option CString × Option CString)) :
    ∃ x ∈ (answer m c shown).sent, x.status ≥ 200 :=
  ⟨.ok (some c) (formatLd m.exptime), by simp [answer], by simp [Response.status]⟩

theorem Outcome.final {sip : Option Sip} {r : Handled} (h : Outcome a s sip r t) :
    ∃ x ∈ r.sent, x.status ≥ 200 := by
  cases h with
  | refused _ hr => exact ⟨_, List.mem_singleton_self _, by rcases hr with rfl | rfl <;> decide⟩
  | noMemory _ _ _ _ _ => exact ⟨.internalServerError, by simp, by decide⟩
  | _ => exact answer_final _ _ _

theorem Answerable.of_run (h : Inv s) (hmeth : (m.sipRequest.bind (·.rqMethodName)).isSome)
    (hto : m.sipTo = some sipTo) {r : Handled}
    (hr : (registerHandler a (some m)).run s = .ok (r, t)) : Answerable s m sipTo := by
  have hscan : ∀ {c r}, m.sipContact = some c → scan s c.mUrl.urlHost s.items = .ok r →
      Answerable s m sipTo := fun hc hsc => .inr (.inr ⟨_, hc, scan_ok_iff.1 ⟨_, hsc⟩⟩)
  cases registerHandler_cases h hr with
  | refused hno _ =>
    by_contra hg
    simp only [Answerable, not_or, ← ne_eq, ← Option.isSome_iff_ne_none] at hg
    exact hno m rfl ⟨hmeth, sipTo, hto, hg.1, hg.2.1⟩
  | noMemory _ hc hsc _ _ => exact hscan hc hsc
  | registered _ hc hsc _ _ => exact hscan hc hsc
  | refreshed _ hc hsc _ => exact hscan hc hsc
  | removed _ hc hsc _ => exact hscan hc hsc
  | absent _ hc hsc _ => exact hscan hc hsc

theorem Answerable.run (h : Answerable s m sipTo) (hs : Inv s)
    (hmeth : (m.sipRequest.bind (·.rqMethodName)).isSome) (hto : m.sipTo = some sipTo) :
    ∃ r t, (registerHandler a (some m)).run s = .ok (r, t) := by
  have hmeth' : (m.sipRequest.bind (·.rqMethodName)).isNone = false := by simpa using hmeth
  by_cases hbad : sipTo.aUrl.urlUser = none ∨ sipTo.aUrl.urlHost = none
  · exact ⟨⟨.success, [.unauthorized], none⟩, s, by simp [registerHandler, hmeth', hto, hbad]⟩
  · rcases h with h | h | ⟨c, hc, hsc⟩
    · exact absurd (.inl h) hbad
    · exact absurd (.inr h) hbad
    · simp only [not_or, ← ne_eq, ← Option.isSome_iff_ne_none] at hbad
      obtain ⟨x, hx⟩ := scan_ok_iff.2 hsc
      rw [registerHandler_accepted hs ⟨hmeth, sipTo, hto, hbad⟩ hc, contactEffect, hx]
      exact ⟨_, _, rfl⟩

/-- The first part takes released memory to keep its contents, the second has none used. -/
theorem responds_iff (hs : Reachable s) (hmeth : (m.sipRequest.bind (·.rqMethodName)).isSome)
    (hto : m.sipTo = some sipTo) : (Responds a s m ↔ Answerable s m sipTo) ∧
      (RespondsLive a s m ↔ Answerable s m sipTo ∧ KeepsLive s m) := by
  have hinv := hs.inv
  refine ⟨⟨?_, fun h => ?_⟩, ?_, fun ⟨h, hk⟩ => ?_⟩
  · rintro ⟨r, t, hr, -⟩
    exact .of_run hinv hmeth hto hr
  · obtain ⟨r, t, hr⟩ := h.run (a := a) hinv hmeth hto
    exact ⟨r, t, hr, (registerHandler_cases hinv hr).final⟩
  · rintro ⟨r, t, hr, -, hp⟩
    exact ⟨.of_run hinv hmeth hto hr, ((registerHandler_cases hinv hr).punctual_iff hinv).1 hp⟩
  · obtain ⟨r, t, hr⟩ := h.run (a := a) hinv hmeth hto
    have hout := registerHandler_cases hinv hr
    exact ⟨r, t, hr, hout.final, (hout.punctual_iff hinv).2 hk⟩

theorem responds_iff_two_hosts :
    Responds .all (register .all contactA Store.init) (.request contactB 300) ∧
      RespondsLive .all (register .all contactA Store.init) (.request contactB 300) := by
  have h₁ := contactA_step
  have hans : Answerable (register .all contactA Store.init) (.request contactB 300) ⟨contactA.mUrl⟩ :=
    .inr (.inr ⟨_, rfl, .inr ⟨_, rfl, by decide⟩⟩)
  have hiff := responds_iff (a := .all) ⟨_, .cons h₁ (.nil _)⟩
    (Sip.request_accepted contactB 300).method rfl
  exact ⟨hiff.1.2 hans, hiff.2.2 ⟨hans, fun _ => ⟨by decide, fun h => absurd h (by decide)⟩⟩⟩

theorem not_responds_null :
    (registerHandler .all (some { Sip.request contactA 300 with sipContact := none })).run
      Store.init = .error .nullPointer ∧
    ∃ s, Run registerStep Store.init
      [({ Allocs.all with strdupHost := false }, some (.request contactA 300))] s ∧
      (registerHandler .all (some (.request contactB 300))).run s = .error .nullString := by
  refine ⟨rfl, ?_⟩
  have h₁ : registerStep Store.init
      ({ Allocs.all with strdupHost := false }, some (.request contactA 300)) _ :=
    request_step Inv.init rfl
  refine ⟨_, .cons h₁ (.nil _), ?_⟩
  rw [registerHandler_accepted (Inv.init.step h₁) (Sip.request_accepted _ _) rfl]
  rfl

end Evsip.Register
