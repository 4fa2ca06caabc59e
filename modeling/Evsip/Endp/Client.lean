import Mathlib.Data.List.Nodup
import Evsip.Endp.Spec
import Evsip.Lib.Run

/-! Any client of the controller: end points are created and used in any order, none of them
after its extraction. -/

namespace Evsip.Endp
open CLib Store Transition

/-- The calls of a client whose allocations all succeed. -/
inductive Op
  | create
  | add (p : EndpPtr)
  | isAttached (p : EndpPtr)
  | extract (p : EndpPtr)
  | setContact (p : EndpPtr) (pContact : Option CString)
  | setHostIpv4 (p : EndpPtr) (pIpv4 : Option CString)
  | findByIpv4 (pIpv4 : Option CString)

def Op.call : Op → Proc (Code × Option EndpPtr)
  | create => endpCreate true
  | add p => return (← endpAdd true true (some p), none)
  | isAttached p => return (← endpIsAttached (some p), none)
  | extract p => return (← endpExtract (some p), none)
  | setContact p pContact => return (← endpSetContact true (some p) pContact, none)
  | setHostIpv4 p pIpv4 => return (← endpSetHostIpv4 true (some p) pIpv4, none)
  | findByIpv4 pIpv4 => endpFindByIpv4 pIpv4

/-- A store with the end points created so far, and those extracted with success. -/
structure Client where
  store : Store
  created : List EndpPtr
  extracted : List EndpPtr

def Client.init : Client := ⟨.init, [], []⟩

def Client.Holds (c : Client) (p : EndpPtr) : Prop := p ∈ c.created ∧ p ∉ c.extracted

def Op.Legal (c : Client) : Op → Prop
  | create | findByIpv4 _ => True
  | add p | isAttached p | extract p | setContact p _ | setHostIpv4 p _ => c.Holds p

def Client.returned (c : Client) (op : Op) (ret : Code × Option EndpPtr) (s : Store) : Client where
  store := s
  created := match op with
    | .create => ret.2.toList ++ c.created
    | _ => c.created
  extracted := match op with
    | .extract p => if ret.1 = .success then p :: c.extracted else c.extracted
    | _ => c.extracted

/-- A call that returns. -/
def clientStep (c : Client) (op : Op) (d : Client) : Prop :=
  op.Legal c ∧ ∃ ret s, op.call.run c.store = .ok (ret, s) ∧ d = c.returned op ret s

/-- Nothing is listed twice, the flag says what is listed, and nothing extracted is. -/
structure Agrees (c : Client) : Prop where
  once : c.store.items.Nodup
  flag : ∀ p, c.store.Added p ↔ p ∈ c.store.items
  gone : ∀ p ∈ c.extracted, p ∉ c.store.items

/-- No end point is added that is listed. -/
def AddsUnlisted (c : Client) (op : Op) : Prop := ∀ p, op = .add p → p ∉ c.store.items

variable {c d : Client} {op : Op} {s t : Store} {p q : EndpPtr} {ret : Code × Option EndpPtr}

theorem and_not_added (f : UInt32) : (f &&& ~~~endpFlagAdded) &&& endpFlagAdded = 0 := by
  rw [UInt32.and_assoc, UInt32.and_comm (~~~endpFlagAdded), UInt32.and_not_self, UInt32.and_zero]

@[simp] theorem Store.taken_items : (s.taken p).items = s.items.erase p := by
  rcases s with ⟨_, _, _, _ | v, _, _⟩ <;> rfl

theorem Store.taken_endp (h : q ≠ p) : (s.taken p).endp q = s.endp q := by
  simp [taken, freed, setItems, h]

theorem Store.taken_live (h : q ≠ p) : (s.taken p).Live q ↔ s.Live q := by
  rw [Live, taken_endp h, Live]

@[simp] theorem Store.taken_added : (s.taken p).Added q ↔ q ≠ p ∧ s.Added q := by
  by_cases h : q = p
  · subst h
    simp [Added, taken, freed, setItems, and_not_added]
  · rw [Added, taken_endp h, Added]
    simp [h]

theorem endpExtract_run_not_added (h : s.Live p) (ha : ¬ s.Added p) :
    (endpExtract (some p)).run s = .ok (.errorNotFound, s) := by
  have hf : (s.endp p).flags &&& endpFlagAdded = 0 := by simpa [Added] using ha
  rw [endpExtract, ctxCheckAndMagic_run h]
  simp [readEndp_run h.not_released, hf]

/-! What a step does -/

structure Client.Inv (c : Client) : Prop where
  agrees : Agrees c
  live : ∀ p, c.Holds p → c.store.Live p
  listed : ∀ p ∈ c.store.items, p ∈ c.created
  old : ∀ p ∈ c.created, p < c.store.next
  extracted : ∀ p ∈ c.extracted, p ∈ c.created

def Client.next (c : Client) : Op → Client
  | .create => { c with store := c.store.create, created := c.store.next :: c.created }
  | .add p => { c with store := (c.store.used 1).add true true p }
  | .extract p =>
    if p ∈ c.store.items then
      { c with store := c.store.taken p, extracted := p :: c.extracted }
    else c
  | .setContact p pContact => { c with store := c.store.setContact true p pContact }
  | .setHostIpv4 p pIpv4 => { c with store := c.store.setHost true p pIpv4 }
  | .isAttached p => { c with store := c.store.used (if p ∈ c.store.items then 1 else 0) }
  | .findByIpv4 _ => { c with store := c.store.used 1 }

theorem Client.Inv.holds (h : c.Inv) (hp : p ∈ c.store.items) : c.Holds p :=
  ⟨h.listed p hp, fun he => h.agrees.gone p he hp⟩

theorem Client.Inv.next_notMem (h : c.Inv) : c.store.next ∉ c.created :=
  fun hn => lt_irrefl _ (h.old _ hn)

theorem clientStep_next (h : c.Inv) (hs : clientStep c op d) : d = c.next op := by
  obtain ⟨hlegal, ret, s, hrun, rfl⟩ := hs
  cases op with
  | create =>
    have hcreate := endpCreate_run (s := c.store) true
    cases hcreate.symm.trans hrun
    rfl
  | add p =>
    obtain ⟨code, hadd⟩ := endpAdd_run (h.live p hlegal) true true
    simp only [Op.call, StateT.run_bind, hadd] at hrun
    cases hrun
    rfl
  | isAttached p =>
    simp only [Op.call, StateT.run_bind,
      endpIsAttached_run (h.live p hlegal) (h.agrees.flag p)] at hrun
    by_cases hp : p ∈ c.store.items
    · rw [if_pos hp] at hrun
      cases hrun
      rw [Client.next, if_pos hp]
      rfl
    · rw [if_neg hp] at hrun
      cases hrun
      rw [Client.next, if_neg hp, used_zero]
      rfl
  | extract p =>
    have hlive := h.live p hlegal
    by_cases hp : p ∈ c.store.items
    · simp only [Op.call, StateT.run_bind,
        endpExtract_run hlive ((h.agrees.flag p).2 hp) hp] at hrun
      cases hrun
      simp only [Client.next, if_pos hp]
      rfl
    · simp only [Op.call, StateT.run_bind,
        endpExtract_run_not_added hlive (mt (h.agrees.flag p).1 hp)] at hrun
      cases hrun
      simp only [Client.next, if_neg hp]
      rfl
  | setContact p pContact =>
    simp only [Op.call, endpSetContact, StateT.run_bind,
      endpSetString_run (h.live p hlegal)] at hrun
    cases hrun
    rfl
  | setHostIpv4 p pIpv4 =>
    simp only [Op.call, endpSetHostIpv4, StateT.run_bind,
      endpSetString_run (h.live p hlegal)] at hrun
    cases hrun
    rfl
  | findByIpv4 pIpv4 =>
    have hall : ∀ q ∈ c.store.items, c.store.Live q := fun q hq => h.live q (h.holds hq)
    simp only [Op.call, endpFindByIpv4_run hall] at hrun
    rcases hscan : scan c.store pIpv4 c.store.items with e | r
    · rw [hscan] at hrun
      cases hrun
    · rw [hscan] at hrun
      cases hrun
      rfl

/-! What it keeps -/

theorem agrees_create (h : c.Inv) : Agrees (c.next .create) := by
  have hnew : c.store.next ∉ c.store.items := fun hn => h.next_notMem (h.listed _ hn)
  refine ⟨h.agrees.once, fun q => ?_, h.agrees.gone⟩
  have hq : q ∈ c.store.items → q ≠ c.store.next := fun hq => ne_of_mem_of_not_mem hq hnew
  simp only [Client.next, create_added, create_items, h.agrees.flag]
  exact ⟨And.right, fun hm => ⟨hq hm, hm⟩⟩

theorem agrees_add_iff (h : c.Inv) (hp : c.Holds p) :
    Agrees (c.next (.add p)) ↔ p ∉ c.store.items := by
  have hitems : (c.next (.add p)).store.items = c.store.items ++ [p] := by
    simp [Client.next, listable]
  constructor
  · intro ha hm
    have honce := ha.once
    rw [hitems] at honce
    exact (List.nodup_append.1 honce).2.2 p hm p (by simp) rfl
  · intro hm
    refine ⟨?_, fun q => ?_, fun q hq => ?_⟩
    · rw [hitems]
      exact h.agrees.once.append (List.nodup_singleton p) (List.disjoint_singleton.2 hm)
    · rw [hitems, List.mem_append, List.mem_singleton, ← h.agrees.flag]
      simp [Client.next, listable]
    · have hne : q ≠ p := fun he => hp.2 (he ▸ hq)
      rw [hitems, List.mem_append, List.mem_singleton, not_or]
      exact ⟨h.agrees.gone q hq, hne⟩

theorem agrees_extract (h : c.Inv) : Agrees (c.next (.extract p)) := by
  simp only [Client.next]
  split_ifs with hp
  · have hmem : ∀ q, q ∈ (c.store.taken p).items ↔ q ≠ p ∧ q ∈ c.store.items := fun q => by
      rw [taken_items, h.agrees.once.mem_erase_iff]
    refine ⟨?_, fun q => ?_, fun q hq => ?_⟩
    · rw [taken_items]
      exact h.agrees.once.erase p
    · rw [hmem, taken_added, h.agrees.flag]
    · rw [hmem]
      rintro ⟨hne, hq'⟩
      exact h.agrees.gone q ((List.mem_cons.1 hq).resolve_left hne) hq'
  · exact h.agrees

theorem agrees_same (h : Agrees c) (hitems : s.items = c.store.items)
    (hadded : ∀ q, s.Added q ↔ c.store.Added q) : Agrees { c with store := s } := by
  refine ⟨?_, fun q => ?_, fun q hq => ?_⟩
  · rw [hitems]
    exact h.once
  · rw [hadded, hitems]
    exact h.flag q
  · rw [hitems]
    exact h.gone q hq

theorem agrees_used (h : Agrees c) (n : ℕ) : Agrees { c with store := c.store.used n } :=
  agrees_same h rfl fun _ => .rfl

theorem agrees_next_iff (h : c.Inv) (hlegal : op.Legal c) :
    Agrees (c.next op) ↔ AddsUnlisted c op := by
  cases op with
  | create => exact iff_of_true (agrees_create h) fun q hq => by cases hq
  | add p =>
    rw [agrees_add_iff h hlegal]
    refine ⟨fun hp q hq => ?_, fun hp => hp p rfl⟩
    cases hq
    exact hp
  | isAttached p => exact iff_of_true (agrees_used h.agrees _) fun q hq => by cases hq
  | extract p => exact iff_of_true (agrees_extract h) fun q hq => by cases hq
  | setContact p pContact =>
    exact iff_of_true (agrees_same h.agrees (setString_items _) fun q => setContact_added)
      fun q hq => by cases hq
  | setHostIpv4 p pIpv4 =>
    exact iff_of_true (agrees_same h.agrees (setString_items _) fun q => setHost_added)
      fun q hq => by cases hq
  | findByIpv4 pIpv4 => exact iff_of_true (agrees_used h.agrees 1) fun q hq => by cases hq

theorem inv_same (h : c.Inv) (ha : Agrees { c with store := s })
    (hlisted : ∀ q ∈ s.items, q ∈ c.created) (hlive : ∀ q, s.Live q ↔ c.store.Live q)
    (hnext : s.next = c.store.next) : Client.Inv { c with store := s } where
  agrees := ha
  live q hq := (hlive q).2 (h.live q hq)
  listed := hlisted
  old q hq := (h.old q hq).trans_eq hnext.symm
  extracted := h.extracted

theorem inv_create (h : c.Inv) : (c.next .create).Inv where
  agrees := agrees_create h
  live q hq := by
    obtain ⟨hcreated, hgone⟩ := hq
    rcases List.mem_cons.1 hcreated with rfl | hcreated
    · exact create_live.2 (.inl rfl)
    · exact create_live.2 (.inr (h.live q ⟨hcreated, hgone⟩))
  listed q hq := List.mem_cons_of_mem _ (h.listed q hq)
  old q hq := by
    rcases List.mem_cons.1 hq with rfl | hq
    · exact Nat.lt_succ_self _
    · exact Nat.lt_succ_of_lt (h.old q hq)
  extracted q hq := List.mem_cons_of_mem _ (h.extracted q hq)

theorem inv_extract (h : c.Inv) (hp : c.Holds p) : (c.next (.extract p)).Inv := by
  have ha := agrees_extract (p := p) h
  simp only [Client.next] at ha ⊢
  split_ifs at ha ⊢ with hm
  · refine ⟨ha, fun q hq => ?_, fun q hq => ?_, h.old, fun q hq => ?_⟩
    · obtain ⟨hne, hgone⟩ := not_or.1 (mt List.mem_cons.2 hq.2)
      exact (taken_live hne).2 (h.live q ⟨hq.1, hgone⟩)
    · rw [taken_items] at hq
      exact h.listed q (List.mem_of_mem_erase hq)
    · rcases List.mem_cons.1 hq with rfl | hq
      · exact hp.1
      · exact h.extracted q hq
  · exact h

theorem inv_next (h : c.Inv) (hlegal : op.Legal c) (ha : Agrees (c.next op)) : (c.next op).Inv := by
  cases op with
  | create => exact inv_create h
  | add p =>
    refine inv_same h ha (fun q hq => ?_) (fun q => add_live) add_next
    rw [add_items] at hq
    split_ifs at hq
    · rcases List.mem_append.1 hq with hq | hq
      · exact h.listed q hq
      · exact List.mem_singleton.1 hq ▸ hlegal.1
    · exact h.listed q hq
  | isAttached p => exact inv_same h ha h.listed (fun _ => .rfl) rfl
  | extract p => exact inv_extract h hlegal
  | setContact p pContact =>
    refine inv_same h ha (fun q hq => ?_) (fun q => setContact_live) (setString_next _)
    exact h.listed q (setString_items (s := c.store) _ ▸ hq)
  | setHostIpv4 p pIpv4 =>
    refine inv_same h ha (fun q hq => ?_) (fun q => setHost_live) (setString_next _)
    exact h.listed q (setString_items (s := c.store) _ ▸ hq)
  | findByIpv4 pIpv4 => exact inv_same h ha h.listed (fun _ => .rfl) rfl

theorem inv_init : Client.init.Inv where
  agrees := ⟨.nil, fun p => by simp [Client.init, Store.init, Added, EndpCtx.zero, items],
    fun _ hp => by cases hp⟩
  live p hp := by cases hp.1
  listed p hp := by cases hp
  old p hp := by cases hp
  extracted p hp := by cases hp

/-- Flag and list agree all through a run exactly when no end point is added that is listed. -/
theorem flag_agrees_iff {ops : List Op} :
    Run (fun c op d => clientStep c op d ∧ Agrees d) .init ops c ↔
      Run (guarded clientStep AddsUnlisted) .init ops c := by
  refine run_good_iff (fun c op d h hs => ?_) (fun c op d h hs ha => ?_) inv_init
  · rw [clientStep_next h hs]
    exact agrees_next_iff h hs.1
  · rw [clientStep_next h hs] at ha ⊢
    exact inv_next h hs.1 ha

theorem not_flag_agrees_added_twice : ∃ c d, Run clientStep .init [.create, .add 0, .add 0] c ∧
    ¬ c.store.items.Nodup ∧ clientStep c (.extract 0) d ∧ 0 ∈ d.extracted ∧ 0 ∈ d.store.items := by
  refine ⟨_, _, .cons ⟨trivial, _, _, rfl, rfl⟩ (.cons ⟨⟨by decide, by decide⟩, _, _, rfl, rfl⟩
    (.cons ⟨⟨by decide, by decide⟩, _, _, rfl, rfl⟩ (.nil _))), by decide,
    ⟨⟨by decide, by decide⟩, _, _, rfl, rfl⟩, by decide, by decide⟩

end Evsip.Endp
