import Evsip.Register.Outcome

/-! The uses of a released list are on record only: what the handler does, it does from any count
of them. -/

namespace Evsip.Register
open CLib Endp Store

variable {a : Allocs} {c : SipContact} {s s' t : Store} {p : EndpPtr} {m : Sip} {r : Handled}
  {i : Allocs × Option Sip}

theorem cleared_refresh : (refresh a c s p).cleared = refresh a c s.cleared p := by
  simp only [refresh, setHost, setContact, setString, strdup, dup]
  cases a.strdupHost <;> cases a.strdupContact <;> cases c.mUrl.urlHost <;>
    cases c.mUrl.urlUser <;> rfl

theorem cleared_add (b b' : Bool) : (s.add b b' p).cleared = s.cleared.add b b' p := by
  have hlist : s.cleared.gpEndpList = s.gpEndpList := rfl
  rw [add, add, hlist]
  split_ifs <;> rfl

theorem cleared_register : (register a c s).cleared = (register a c s.cleared).cleared := by
  rw [register, register, cleared_add, cleared_add, cleared_used, cleared_used, cleared_refresh,
    cleared_refresh]
  rfl

def forget : Except Fault (Handled × Store) → Except Fault (Handled × Store) :=
  Except.map fun r => (r.1, r.2.cleared)

theorem scan_cleared {host : Option CString} {ps : List EndpPtr} :
    scan s.cleared host ps = scan s host ps := by
  induction ps with
  | nil => rfl
  | cons p ps ih =>
    rw [scan_cons, ih]
    rfl

theorem dump_congr (h : s.cleared = t.cleared) : s.dump = t.dump := by
  change s.cleared.dump = t.cleared.dump
  rw [h]

theorem forget_answer (n : ℕ) (h : s.cleared = t.cleared) :
    forget (.ok (answer m c s.dump, s.used n)) = forget (.ok (answer m c t.dump, t.used n)) := by
  rw [dump_congr h]
  change Except.ok (_, (s.used n).cleared) = Except.ok (_, (t.used n).cleared)
  rw [cleared_used, cleared_used, h]

theorem contactEffect_cleared :
    forget (contactEffect a m c s) = forget (contactEffect a m c s.cleared) := by
  rw [contactEffect, contactEffect, scan_cleared]
  rcases hs : scan s c.mUrl.urlHost s.items with e | _ | p
  · have hs' : scan s c.mUrl.urlHost s.cleared.items = .error e := hs
    rw [hs']
    rfl
  · have hs' : scan s c.mUrl.urlHost s.cleared.items = .ok none := hs
    have hreg : (register a c (s.used 1)).cleared = (register a c (s.cleared.used 1)).cleared := by
      rw [cleared_register, cleared_used, cleared_register (s := s.cleared.used 1), cleared_used]
      rfl
    simp only [hs', Except.map]
    split_ifs
    · exact forget_answer 1 hreg
    · rfl
    · exact forget_answer 2 rfl
  · have hs' : scan s c.mUrl.urlHost s.cleared.items = .ok (some p) := hs
    have href : (refresh a c (s.used 1) p).cleared =
        (refresh a c (s.cleared.used 1) p).cleared := by
      rw [cleared_refresh, cleared_used, cleared_refresh, cleared_used]
      rfl
    simp only [hs', Except.map]
    split_ifs
    · exact forget_answer 2 href
    · exact forget_answer 1 rfl

theorem registerHandler_or (a : Allocs) (sip : Option Sip) :
    (∃ m c, sip = some m ∧ m.Accepted ∧ m.sipContact = some c) ∨
      ∃ x : Except Fault Handled, ∀ s, (registerHandler a sip).run s = x.map (·, s) := by
  rcases sip with _ | m
  · exact .inr ⟨.ok _, fun _ => rfl⟩
  rcases hmeth : m.sipRequest.bind (·.rqMethodName) with _ | name
  · exact .inr ⟨.ok ⟨.success, [.internalServerError], none⟩, fun s => by
      simp [registerHandler, hmeth, Except.map]⟩
  rcases hto : m.sipTo with _ | sipTo
  · exact .inr ⟨.error .nullPointer, fun s => by
      simp [registerHandler, hmeth, hto, Except.map]⟩
  by_cases hbad : sipTo.aUrl.urlUser = none ∨ sipTo.aUrl.urlHost = none
  · exact .inr ⟨.ok ⟨.success, [.unauthorized], none⟩, fun s => by
      simp [registerHandler, hmeth, hto, hbad, Except.map]⟩
  rcases hc : m.sipContact with _ | c
  · exact .inr ⟨.error .nullPointer, fun s => by
      simp [registerHandler, hmeth, hto, hbad, hc, Except.map]⟩
  · simp only [not_or, ← ne_eq, ← Option.isSome_iff_ne_none] at hbad
    exact .inl ⟨m, c, rfl, ⟨by rw [hmeth]; rfl, sipTo, hto, hbad⟩, hc⟩

theorem registerHandler_cleared (h : Inv s) (h' : Inv t) (hc : s.cleared = t.cleared) (a : Allocs)
    (sip : Option Sip) : forget ((registerHandler a sip).run s) =
      forget ((registerHandler a sip).run t) := by
  rcases registerHandler_or a sip with ⟨m, c, rfl, hm, hcontact⟩ | ⟨x, hx⟩
  · rw [registerHandler_accepted h hm hcontact, registerHandler_accepted h' hm hcontact,
      contactEffect_cleared, hc, ← contactEffect_cleared]
  · rw [hx, hx]
    rcases x with e | r
    · rfl
    · exact congrArg (fun u => Except.ok (r, u)) hc

/-- A request is answered and changes the end points the same whatever was released before. -/
theorem registerStep_cleared (h : Inv s) (h' : Inv s') (hc : s.cleared = s'.cleared)
    (hs : registerStep s i t) : ∃ t', registerStep s' i t' ∧ t.cleared = t'.cleared := by
  obtain ⟨r, hr⟩ := hs
  have hforget := registerHandler_cleared h h' hc i.1 i.2
  rw [hr] at hforget
  rcases hrun : (registerHandler i.1 i.2).run s' with e | ⟨r', t'⟩
  · rw [hrun] at hforget
    cases hforget
  · rw [hrun] at hforget
    exact ⟨t', ⟨r', hrun⟩, (Prod.mk.inj (Except.ok.inj hforget)).2⟩

end Evsip.Register
