import Evsip.Lib.Decimal
import Evsip.Register.Outcome

/-! The expiry of a binding, from the header or parameter it was asked for with to the text it is
granted with: read as a `long`, kept in a `uint64_t`, and written as a `long` again. -/

namespace Evsip.Register
open CLib Endp Store Transition

/-- What was given, in the header or else in the parameter, is zero. -/
def Sip.DenotesZero (sip : Sip) : Prop :=
  match sip.sipExpires, sip.sipContact with
  | some e, _ => e.exDelta = 0
  | none, some ⟨_, some text⟩ => numeral text.bytes = some 0
  | none, _ => False

/-- The text of the answer is the numeral of the expiry that was acted on, and a binding is gone
only if that was asked for with a zero. -/
structure ExpiryAgrees (s : Store) (m : Sip) (text : String) (t : Store) : Prop where
  answered : text = toString m.exptime.toNat
  removed : (∃ p ∈ s.items, p ∉ t.items) → m.DenotesZero

/-- The header is below 2^63. The parameter is not negative, and if it counts as zero for a
binding that is listed then it is a numeral. -/
def Sip.PlainExpiry (s : Store) (sip : Sip) : Prop :=
  match sip.sipExpires, sip.sipContact with
  | some e, _ => e.exDelta.toNat < 9223372036854775808
  | none, some ⟨url, some text⟩ => 0 ≤ decimal text.bytes ∧
      (decimal text.bytes = 0 → Listed s url.urlHost → numeral text.bytes = some 0)
  | none, _ => True

variable {a : Allocs} {s t : Store} {m : Sip} {c : SipContact} {r : Handled}
  {contact : Option SipContact} {text : String} {d : List (Option CString × Option CString)}

theorem exptime_eq_zero_iff : ¬ m.exptime > 0 ↔ m.exptime = 0 :=
  (not_congr UInt64.pos_iff_ne_zero).trans not_not

theorem mem_answer (h : .ok contact text ∈ (answer m c d).sent) : text = formatLd m.exptime := by
  have h : contact = some c ∧ text = formatLd m.exptime := by simpa [answer] using h
  exact h.2

theorem Outcome.granted (h : Inv s) (ho : Outcome a s (some m) r t)
    (hok : .ok contact text ∈ r.sent) : text = formatLd m.exptime ∧
    ∃ c, m.sipContact = some c ∧
      ((∃ p ∈ s.items, p ∉ t.items) ↔ m.exptime = 0 ∧ Listed s c.mUrl.urlHost) := by
  cases ho with
  | refused _ hr => rcases hr with rfl | rfl <;> simp at hok
  | noMemory _ _ _ _ _ => simp at hok
  | registered _ hc _ he _ =>
    refine ⟨mem_answer hok, _, hc, iff_of_false ?_ fun h0 => exptime_eq_zero_iff.2 h0.1 he⟩
    rintro ⟨p, hp, hno⟩
    exact hno (mem_register.2 (.inl hp))
  | refreshed _ hc _ he =>
    refine ⟨mem_answer hok, _, hc, iff_of_false ?_ fun h0 => exptime_eq_zero_iff.2 h0.1 he⟩
    rintro ⟨p, hp, hno⟩
    rw [used_items, refresh_items] at hno
    exact hno hp
  | removed _ hc hsc he =>
    refine ⟨mem_answer hok, _, hc, iff_of_true ⟨_, (scan_some hsc).1, ?_⟩
      ⟨exptime_eq_zero_iff.1 he, scan_listed hsc⟩⟩
    rw [used_items, detach_items]
    exact h.nodup.not_mem_erase
  | absent _ hc hsc he =>
    refine ⟨mem_answer hok, _, hc, iff_of_false ?_ fun h0 => scan_not_listed hsc h0.2⟩
    rintro ⟨p, hp, hno⟩
    exact hno hp

theorem default_lt : UInt64.toNat 300 < 9223372036854775808 := by decide

theorem default_ne_zero : (300 : UInt64) ≠ 0 := by decide

theorem plainExpiry_iff (hc : m.sipContact = some c) : m.PlainExpiry s ↔
    m.exptime.toNat < 9223372036854775808 ∧
      (m.exptime = 0 → Listed s c.mUrl.urlHost → m.DenotesZero) := by
  obtain ⟨request, sipTo, _, auth, proxyAuth, expires⟩ := m
  cases hc
  obtain ⟨url, param⟩ := c
  rcases expires with _ | e
  · rcases param with _ | param
    · exact iff_of_true trivial ⟨default_lt, fun h0 => absurd h0 default_ne_zero⟩
    · exact and_congr ofInt_atol_lt_iff.symm
        (imp_congr ofInt_atol_eq_zero_iff.symm Iff.rfl)
  · exact (and_iff_left fun h0 _ => h0).symm

/-- A request is granted the expiry it was handled with, and removes a binding only by a zero,
exactly when its expiry is plain. -/
theorem expiry_agrees_iff (hs : Reachable s)
    (hr : (registerHandler a (some m)).run s = .ok (r, t)) (hok : .ok contact text ∈ r.sent) :
    ExpiryAgrees s m text t ↔ m.PlainExpiry s := by
  obtain ⟨rfl, c, hc, hremoved⟩ := (registerHandler_cases hs.inv hr).granted hs.inv hok
  rw [plainExpiry_iff hc, ← formatLd_eq_iff]
  constructor
  · intro h
    exact ⟨h.answered, fun h0 hl => h.removed (hremoved.2 ⟨h0, hl⟩)⟩
  · rintro ⟨htext, hzero⟩
    exact ⟨htext, fun hgone => hzero (hremoved.1 hgone).1 (hremoved.1 hgone).2⟩

def Sip.requestFor (contact : SipContact) : Sip :=
  { Sip.request contact 300 with sipExpires := none }

def contactWord : SipContact := { contactA with mExpires := some (.ofBytes [97, 98, 99]) }

theorem requestFor_accepted (c : SipContact) : (Sip.requestFor c).Accepted :=
  ⟨rfl, _, rfl, rfl, rfl⟩

def contactHour : SipContact := { contactA with mExpires := some (.ofBytes [51, 54, 48, 48]) }

theorem expiry_agrees_iff_hour : ∃ s t,
    (registerHandler .all (some (.requestFor contactHour))).run Store.init =
      .ok (answer (.requestFor contactHour) contactHour s.dump, s) ∧ s.items = [0] ∧
    (registerHandler .all (some (.request contactA 0))).run s =
      .ok (answer (.request contactA 0) contactA t.dump, t) ∧ t.items = [] ∧
    ExpiryAgrees Store.init (.requestFor contactHour) "3600" s ∧
    ExpiryAgrees s (.request contactA 0) "0" t := by
  have hinv := Inv.init
  have hrun := registerHandler_accepted (a := .all) hinv (requestFor_accepted contactHour) rfl
  have h₁ : registerStep Store.init (.all, some (.requestFor contactHour)) _ := ⟨_, hrun⟩
  have hrun' := registerHandler_accepted (a := .all) (hinv.step h₁)
    (Sip.request_accepted contactA 0) rfl
  have hok : ∀ d, .ok (some contactHour) "3600" ∈ (answer (.requestFor contactHour) contactHour d).sent := by
    intro d
    simp [answer]
    decide
  have hok' : ∀ d, .ok (some contactA) "0" ∈ (answer (.request contactA 0) contactA d).sent := by
    intro d
    simp [answer]
    decide
  refine ⟨(register .all contactHour (Store.init.used 1)).used 1,
    ((((register .all contactHour (Store.init.used 1)).used 1).used 1).detach 0).used 1, hrun, rfl,
    hrun', rfl, ?_, ?_⟩
  · exact (expiry_agrees_iff ⟨[], .nil _⟩ hrun (hok _)).2 ⟨by decide, fun h => by cases h⟩
  · exact (expiry_agrees_iff ⟨_, .cons h₁ (.nil _)⟩ hrun' (hok' _)).2
      (by decide : UInt64.toNat 0 < 9223372036854775808)

theorem not_expiry_agrees_header : ∃ s t,
    (registerHandler .all (some (.request contactA 9223372036854775808))).run Store.init =
      .ok (⟨.success, [.trying, .ok (some contactA) "-9223372036854775808"], some s.dump⟩, s) ∧
    s.items = [0] ∧
    (registerHandler .all (some (.requestFor contactWord))).run s =
      .ok (⟨.success, [.trying, .ok (some contactWord) "0"], some t.dump⟩, t) ∧
    t.items = [] ∧
    ¬ ExpiryAgrees Store.init (.request contactA 9223372036854775808) "-9223372036854775808" s ∧
    ¬ ExpiryAgrees s (.requestFor contactWord) "0" t := by
  have hlong : formatLd 9223372036854775808 = "-9223372036854775808" := by decide
  have hword : numeral (CString.ofBytes [97, 98, 99]).bytes ≠ some 0 := by decide
  have hinv := Inv.init.step contactA_step
  have hitems : (register .all contactA Store.init).items = [0] := rfl
  have hgone : (((register .all contactA Store.init).detach 0).used 1).items = [] := by
    rw [used_items, detach_items, hitems]
    rfl
  refine ⟨register .all contactA Store.init, ((register .all contactA Store.init).detach 0).used 1,
    ?_, hitems, ?_, hgone, fun h => ?_, fun h => ?_⟩
  · rw [registerHandler_accepted Inv.init (Sip.request_accepted _ _) rfl, ← hlong]
    rfl
  · rw [registerHandler_accepted hinv (requestFor_accepted _) rfl]
    rfl
  · have hlt := formatLd_eq_iff.1 (hlong.trans h.answered)
    exact absurd hlt (by decide)
  · exact hword (h.removed ⟨0, by simp [hitems], by simp [hgone]⟩)

end Evsip.Register
