import Mathlib.Data.Set.Basic
import Evsip.Register.Lifetime

/-! Whether the answer to a REGISTER tells what became of the binding. -/

namespace Evsip.Register
open CLib Endp Store Transition

def bindings (s : Store) : Set (Option CString × Option CString) :=
  {b | ∃ p ∈ s.items, (s.hostOf p, s.contactOf p) = b}

/-- A 200 OK to a registration means its binding is listed, a refusal that nothing changed. -/
def AnswerAgrees (a : Allocs) (s : Store) (m : Sip) (host user : CString) : Prop :=
  ∀ r t, (registerHandler a (some m)).run s = .ok (r, t) →
    (m.exptime > 0 → (∃ x ∈ r.sent, x.status = 200) → (some host, some user) ∈ bindings t) ∧
    ((∃ x ∈ r.sent, x.status = 401 ∨ x.status = 500) → bindings t = bindings s)

/-- The same, with nothing released used. -/
def AnswerAgreesLive (a : Allocs) (s : Store) (m : Sip) (host user : CString) : Prop :=
  AnswerAgrees a s m host user ∧
    ∀ r t, (registerHandler a (some m)).run s = .ok (r, t) → Punctual s t

/-- If the request is taken as a registration and its lookup meets no NULL host, then both
strings are copied and the end point it creates is listed. -/
def Stores (a : Allocs) (s : Store) (m : Sip) (host : CString) : Prop :=
  m.Accepted → m.exptime > 0 → none ∉ (s.items.map s.hostOf).takeWhile (· ≠ some host) →
    ((∃ p ∈ s.items, s.hostOf p = some host) → a.strdupHost ∧ a.strdupContact) ∧
    ((∀ p ∈ s.items, s.hostOf p ≠ some host) → a.homeClone →
      a.strdupHost ∧ a.strdupContact ∧ s.listable a.vectorCreate a.vectorAppend)

variable {a : Allocs} {c : SipContact} {s t : Store} {m : Sip} {host user : CString} {p : EndpPtr}

theorem binding_refresh_iff (h : Inv s) (hp : p ∈ s.items) (hph : s.hostOf p = some host)
    (hch : c.mUrl.urlHost = some host) (hcu : c.mUrl.urlUser = some user) :
    (some host, some user) ∈ bindings (refresh a c s p) ↔ a.strdupHost ∧ a.strdupContact := by
  constructor
  · rintro ⟨q, hq, hb⟩
    rw [refresh_items] at hq
    simp only [refresh_hostOf, refresh_contactOf, Prod.mk.injEq] at hb
    have hqp : q = p := by
      by_contra hqp
      simp only [hqp, if_false] at hb
      exact hqp (h.host_inj q hq p hp (by simp [hb.1]) (hb.1.trans hph.symm))
    simpa [hqp, hch, hcu] using hb
  · rintro ⟨h1, h2⟩
    exact ⟨p, by simpa using hp, by simp [h1, h2, hch, hcu]⟩

theorem binding_register_iff (h : Inv s) (hnone : ∀ q ∈ s.items, s.hostOf q ≠ some host)
    (hch : c.mUrl.urlHost = some host) (hcu : c.mUrl.urlUser = some user) :
    (some host, some user) ∈ bindings (register a c s) ↔
      a.strdupHost ∧ a.strdupContact ∧ s.listable a.vectorCreate a.vectorAppend := by
  constructor
  · rintro ⟨q, hq, hb⟩
    simp only [register_hostOf, register_contactOf, Prod.mk.injEq] at hb
    rcases mem_register.1 hq with hq | ⟨rfl, hli⟩
    · rw [if_neg (h.ne_next hq)] at hb
      exact absurd hb.1 (hnone q hq)
    · have hb : a.strdupHost ∧ a.strdupContact := by simpa [hch, hcu] using hb
      exact ⟨hb.1, hb.2, hli⟩
  · rintro ⟨h1, h2, h3⟩
    exact ⟨s.next, mem_register.2 (.inr ⟨rfl, h3⟩),
      by simp [register_hostOf, register_contactOf, h1, h2, hch, hcu]⟩

@[simp] theorem bindings_used (n : ℕ) : bindings (s.used n) = bindings s := rfl

theorem answer_statuses (m : Sip) (c : SipContact)
    (shown : List (Option CString × Option CString)) :
    (∃ r ∈ (answer m c shown).sent, r.status = 200) ∧
      ¬ ∃ r ∈ (answer m c shown).sent, r.status = 401 ∨ r.status = 500 := by
  simp [answer, Response.status]

theorem scan_null_free {x : Option EndpPtr} (hch : c.mUrl.urlHost = some host)
    (hsc : scan s c.mUrl.urlHost s.items = .ok x) :
    none ∉ (s.items.map s.hostOf).takeWhile (· ≠ some host) := by
  rcases scan_ok_iff.1 ⟨_, hsc⟩ with hnil | ⟨k, hk, hnull⟩
  · simp [hnil]
  · cases hch.symm.trans hk
    exact hnull

theorem stores_of_agrees (h : Inv s) (hc : m.sipContact = some c)
    (hch : c.mUrl.urlHost = some host) (hcu : c.mUrl.urlUser = some user)
    (hag : AnswerAgrees a s m host user) : Stores a s m host := by
  intro hm he hnull
  have h₁ := h.used 1
  obtain ⟨x, hx⟩ := scan_ok_iff.2 (Or.inr ⟨host, hch, hnull⟩)
  have hrun := registerHandler_accepted (a := a) h hm hc
  rw [contactEffect, hx] at hrun
  have hlisted : ∀ {shown t}, (registerHandler a (some m)).run s = .ok (answer m c shown, t) →
      (some host, some user) ∈ bindings t := fun hr => (hag _ _ hr).1 he (answer_statuses m c _).1
  rcases x with _ | p
  · have hnone := hch ▸ scan_none hx
    constructor
    · rintro ⟨p, hp, hph⟩
      exact absurd hph (hnone p hp)
    · intro _ ha
      simp only [Except.map, he, ha, if_true] at hrun
      have hmem := hlisted hrun
      rw [bindings_used] at hmem
      exact (binding_register_iff h₁ hnone hch hcu).1 hmem
  · obtain ⟨hp, hph, -⟩ := scan_some hx
    rw [hch] at hph
    refine ⟨fun _ => ?_, fun hall => absurd hph (hall p hp)⟩
    simp only [Except.map, he, if_true] at hrun
    have hmem := hlisted hrun
    rw [bindings_used] at hmem
    exact (binding_refresh_iff h₁ hp hph hch hcu).1 hmem

theorem agrees_of_stores (h : Inv s) (hc : m.sipContact = some c)
    (hch : c.mUrl.urlHost = some host) (hcu : c.mUrl.urlUser = some user)
    (hst : Stores a s m host) : AnswerAgrees a s m host user := by
  intro r t hr
  have h₁ := h.used 1
  cases registerHandler_cases h hr with
  | refused _ hor =>
    exact ⟨fun _ => by rcases hor with rfl | rfl <;> simp [Response.status], fun _ => rfl⟩
  | noMemory _ _ _ _ _ => exact ⟨fun _ => by simp [Response.status], fun _ => rfl⟩
  | registered hm hc' hsc he ha =>
    cases hc.symm.trans hc'
    have hnone := hch ▸ scan_none hsc
    have hok := (hst hm he (scan_null_free hch hsc)).2 hnone ha
    exact ⟨fun _ _ => (binding_register_iff h₁ hnone hch hcu).2 hok,
      fun hx => absurd hx (answer_statuses _ _ _).2⟩
  | refreshed hm hc' hsc he =>
    cases hc.symm.trans hc'
    obtain ⟨hp, hph, -⟩ := scan_some hsc
    rw [hch] at hph
    have hok := (hst hm he (scan_null_free hch hsc)).1 ⟨_, hp, hph⟩
    exact ⟨fun _ _ => (binding_refresh_iff h₁ hp hph hch hcu).2 hok,
      fun hx => absurd hx (answer_statuses _ _ _).2⟩
  | removed _ _ _ he =>
    exact ⟨fun hpos => absurd hpos he, fun hx => absurd hx (answer_statuses _ _ _).2⟩
  | absent _ _ _ he =>
    exact ⟨fun hpos => absurd hpos he, fun hx => absurd hx (answer_statuses _ _ _).2⟩

theorem all_punctual_iff (h : Inv s) (hc : m.sipContact = some c)
    (hch : c.mUrl.urlHost = some host) :
    (∀ r t, (registerHandler a (some m)).run s = .ok (r, t) → Punctual s t) ↔
      (none ∉ (s.items.map s.hostOf).takeWhile (· ≠ some host) → KeepsLive s m) := by
  constructor
  · intro hall hnull hm
    obtain ⟨x, hx⟩ := scan_ok_iff.2 (Or.inr ⟨host, hch, hnull⟩)
    have hrun := registerHandler_accepted (a := a) h hm hc
    rw [contactEffect, hx] at hrun
    exact ((registerHandler_cases h hrun).punctual_iff h).1 (hall _ _ hrun) hm
  · intro hk r t hr
    refine ((registerHandler_cases h hr).punctual_iff h).2 fun hm => hk ?_ hm
    have hrun := registerHandler_accepted (a := a) h hm hc
    rw [hr, contactEffect] at hrun
    rcases hsc : scan s c.mUrl.urlHost s.items with e | x
    · rw [hsc] at hrun
      cases hrun
    · exact scan_null_free hch hsc

/-- The first part takes released memory to keep its contents, the second has none used. -/
theorem answerAgrees_iff (hs : Reachable s) (hc : m.sipContact = some c)
    (hch : c.mUrl.urlHost = some host) (hcu : c.mUrl.urlUser = some user) :
    (AnswerAgrees a s m host user ↔ Stores a s m host) ∧
      (AnswerAgreesLive a s m host user ↔ Stores a s m host ∧
        (none ∉ (s.items.map s.hostOf).takeWhile (· ≠ some host) → KeepsLive s m)) := by
  have hagree : AnswerAgrees a s m host user ↔ Stores a s m host :=
    ⟨stores_of_agrees hs.inv hc hch hcu, agrees_of_stores hs.inv hc hch hcu⟩
  exact ⟨hagree, and_congr hagree (all_punctual_iff hs.inv hc hch)⟩

theorem answerAgrees_iff_second_host :
    AnswerAgrees .all (register .all contactA Store.init) (.request contactB 300)
        (.ofBytes [50]) (.ofBytes [98]) ∧
      AnswerAgreesLive .all (register .all contactA Store.init) (.request contactB 300)
        (.ofBytes [50]) (.ofBytes [98]) := by
  have h₁ := contactA_step
  have hst : Stores .all (register .all contactA Store.init) (.request contactB 300)
      (.ofBytes [50]) := fun _ _ _ => ⟨fun _ => ⟨rfl, rfl⟩, fun _ _ => ⟨rfl, rfl, rfl⟩⟩
  have hiff := answerAgrees_iff (a := .all) (m := .request contactB 300) (c := contactB)
    ⟨_, .cons h₁ (.nil _)⟩ rfl rfl rfl
  exact ⟨hiff.1.2 hst,
    hiff.2.2 ⟨hst, fun _ _ => ⟨by decide, fun h => absurd h (by decide)⟩⟩⟩

theorem not_answerAgrees_append : Reachable Store.init ∧
    ¬ AnswerAgrees { Allocs.all with vectorAppend := false } Store.init (.request contactA 300)
      (.ofBytes [49]) (.ofBytes [97]) := by
  refine ⟨⟨[], .nil _⟩, fun h => ?_⟩
  have hrun := registerHandler_accepted (a := { Allocs.all with vectorAppend := false })
    Inv.init (Sip.request_accepted contactA 300) rfl
  obtain ⟨p, hp, -⟩ := (h _ _ hrun).1 (by decide) (answer_statuses _ _ _).1
  cases hp

end Evsip.Register
