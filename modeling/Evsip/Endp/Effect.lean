import Evsip.Endp.Ops

/-! The effect of each function on a store whose end point is live, as a plain
function on stores, and what the effects leave of each component. -/

namespace Evsip.Endp
open CLib

theorem added_or (f : UInt32) : (f ||| endpFlagAdded) &&& endpFlagAdded ≠ 0 := by
  intro h
  have h0 := congrArg (fun x : UInt32 => x.toBitVec.getLsbD 0) h
  simp [endpFlagAdded] at h0

namespace Store
variable {s : Store} {p q : EndpPtr} {ok : Bool} {str : Option CString} {a b : Bool}

/-- A handle that passes its check, in a home that still has its reference. -/
def Live (s : Store) (p : EndpPtr) : Prop :=
  (s.endp p).magic = endpMagic ∧ (s.endp p).home.refs = 1

def Added (s : Store) (p : EndpPtr) : Prop := (s.endp p).flags &&& endpFlagAdded ≠ 0

theorem Live.not_released (h : s.Live p) : ¬ s.released p := by
  rw [released, h.2]
  decide

/-! The effects. -/

def dup (s : Store) (ok : Bool) (str : Option CString) : Option Dup :=
  if ok then str.map (⟨s.nextStr, ·⟩) else none

def strdup (s : Store) (ok : Bool) (p : EndpPtr) (str : Option CString) : Store :=
  match s.dup ok str with
  | none => s
  | some d =>
    { s.setEndp p (fun c => { c with home := { c.home with strings := d :: c.home.strings } }) with
      nextStr := s.nextStr + 1 }

def setString (s : Store) (put : Option Dup → EndpCtx → EndpCtx) (ok : Bool) (p : EndpPtr)
    (str : Option CString) : Store :=
  (s.strdup ok p str).setEndp p (put (s.dup ok str))

def setHost (s : Store) : Bool → EndpPtr → Option CString → Store :=
  s.setString fun d c => { c with host := d }

def setContact (s : Store) : Bool → EndpPtr → Option CString → Store :=
  s.setString fun d c => { c with contact := d }

def create (s : Store) : Store :=
  { s.setEndp s.next (fun _ => { EndpCtx.zero with magic := endpMagic, home := ⟨1, []⟩ }) with
    next := s.next + 1 }

def withList (s : Store) (p : EndpPtr) : Store :=
  { s with gpEndpList := some (s.gpEndpList.getD ⟨p, []⟩) }

def enlist (s : Store) (p : EndpPtr) : Store :=
  ((s.withList p).setItems (s.items ++ [p])).setEndp p fun c =>
    { c with flags := c.flags ||| endpFlagAdded }

def add (s : Store) (okCreate okAppend : Bool) (p : EndpPtr) : Store :=
  if s.gpEndpList.isNone ∧ okCreate = false then s
  else if okAppend = false then s.withList p
  else s.enlist p

def listable (s : Store) (okCreate okAppend : Bool) : Bool :=
  (s.gpEndpList.isSome || okCreate) && okAppend

def freed (s : Store) (p : EndpPtr) : Store :=
  ((s.setEndp p fun c => { c with home := ⟨0, []⟩ }).record (.homeUnref p)).used 1

/-- The removal of a listed end point: the free function of the list destroys it, its flags
are written afterwards, and the handler destroys it again. -/
def detach (s : Store) (p : EndpPtr) : Store where
  endp := Function.update s.endp p
    { s.endp p with home := ⟨0, []⟩, flags := (s.endp p).flags &&& ~~~endpFlagAdded }
  next := s.next
  nextStr := s.nextStr
  gpEndpList := s.gpEndpList.map fun v => { v with items := s.items.erase p }
  trace := .homeUnref p :: .lateAccess p :: .lateAccess p :: .lateAccess p :: .homeUnref p ::
    s.trace
  lateList := ((s.used 2).freed p).lateList

/-! What they leave. -/

section used
variable {n m : ℕ}

@[simp] theorem used_endp : (s.used n).endp = s.endp := rfl
@[simp] theorem used_next : (s.used n).next = s.next := rfl
@[simp] theorem used_nextStr : (s.used n).nextStr = s.nextStr := rfl
@[simp] theorem used_list : (s.used n).gpEndpList = s.gpEndpList := rfl
@[simp] theorem used_trace : (s.used n).trace = s.trace := rfl
@[simp] theorem used_items : (s.used n).items = s.items := rfl
@[simp] theorem used_listable : (s.used n).listable a b = s.listable a b := rfl
@[simp] theorem used_live : (s.used n).Live q ↔ s.Live q := .rfl
@[simp] theorem used_released : (s.used n).released q ↔ s.released q := .rfl
@[simp] theorem used_added : (s.used n).Added q ↔ s.Added q := .rfl
@[simp] theorem used_hostOf : (s.used n).hostOf q = s.hostOf q := rfl
@[simp] theorem used_contactOf : (s.used n).contactOf q = s.contactOf q := rfl
@[simp] theorem used_listLive : (s.used n).ListLive ↔ s.ListLive := .rfl

theorem used_of_live (h : s.ListLive) : s.used n = s := by simp [used, h]

@[simp] theorem used_zero : s.used 0 = s := by simp [used]

theorem used_used : (s.used m).used n = s.used (m + n) := by
  by_cases h : s.ListLive
  · rw [used_of_live h, used_of_live h, used_of_live h]
  · have h' : ¬ (s.used m).ListLive := h
    rw [used, if_neg h', used, used, if_neg h, if_neg h, Nat.add_assoc]

/-- The store but for the uses of a released list. -/
def cleared (s : Store) : Store := { s with lateList := 0 }

theorem cleared_used : (s.used n).cleared = s.cleared := rfl

theorem listLive_of_none (h : s.gpEndpList = none) : s.ListLive := fun v hv => by
  cases h.symm.trans hv

end used

@[simp] theorem setEndp_endp (f : EndpCtx → EndpCtx) (q : EndpPtr) :
    (s.setEndp p f).endp q = if q = p then f (s.endp p) else s.endp q := by
  by_cases h : q = p
  · subst h
    simp [setEndp]
  · simp [setEndp, h]

@[simp] theorem setEndp_next (f : EndpCtx → EndpCtx) : (s.setEndp p f).next = s.next := rfl
@[simp] theorem setEndp_list (f : EndpCtx → EndpCtx) :
    (s.setEndp p f).gpEndpList = s.gpEndpList := rfl
@[simp] theorem setEndp_trace (f : EndpCtx → EndpCtx) : (s.setEndp p f).trace = s.trace := rfl

@[simp] theorem record_endp (e : Event) : (s.record e).endp = s.endp := rfl
@[simp] theorem record_list (e : Event) : (s.record e).gpEndpList = s.gpEndpList := rfl
@[simp] theorem record_trace (e : Event) : (s.record e).trace = e :: s.trace := rfl

@[simp] theorem dup_map_str : (s.dup ok str).map Dup.str = if ok then str else none := by
  cases ok <;> cases str <;> rfl

@[simp] theorem strdup_next : (s.strdup ok p str).next = s.next := by
  unfold strdup; split <;> rfl
@[simp] theorem strdup_list : (s.strdup ok p str).gpEndpList = s.gpEndpList := by
  unfold strdup; split <;> rfl
@[simp] theorem strdup_trace : (s.strdup ok p str).trace = s.trace := by
  unfold strdup; split <;> rfl

theorem strdup_lateList : (s.strdup ok p str).lateList = s.lateList := by
  unfold strdup; split <;> rfl

theorem strdup_endp (s : Store) (ok : Bool) (p : EndpPtr) (str : Option CString) (q : EndpPtr) :
    ∃ l, (s.strdup ok p str).endp q = { s.endp q with home := ⟨(s.endp q).home.refs, l⟩ } := by
  unfold strdup
  split
  · exact ⟨_, rfl⟩
  · next d _ =>
    by_cases h : q = p
    · subst h
      exact ⟨d :: (s.endp q).home.strings, by simp⟩
    · exact ⟨(s.endp q).home.strings, by simp [h]⟩

@[simp] theorem strdup_magic : ((s.strdup ok p str).endp q).magic = (s.endp q).magic := by
  obtain ⟨l, hl⟩ := s.strdup_endp ok p str q
  rw [hl]

@[simp] theorem strdup_refs : ((s.strdup ok p str).endp q).home.refs = (s.endp q).home.refs := by
  obtain ⟨l, hl⟩ := s.strdup_endp ok p str q
  rw [hl]

@[simp] theorem strdup_flags : ((s.strdup ok p str).endp q).flags = (s.endp q).flags := by
  obtain ⟨l, hl⟩ := s.strdup_endp ok p str q
  rw [hl]

@[simp] theorem strdup_host : ((s.strdup ok p str).endp q).host = (s.endp q).host := by
  obtain ⟨l, hl⟩ := s.strdup_endp ok p str q
  rw [hl]

@[simp] theorem strdup_contact : ((s.strdup ok p str).endp q).contact = (s.endp q).contact := by
  obtain ⟨l, hl⟩ := s.strdup_endp ok p str q
  rw [hl]

theorem dup_addr {d : Dup} (h : s.dup ok str = some d) : d.addr = s.nextStr := by
  unfold dup at h
  split_ifs at h
  obtain ⟨x, -, rfl⟩ := Option.map_eq_some_iff.1 h
  rfl

theorem strdup_strings : ((s.strdup ok p str).endp q).home.strings =
    if q = p then (s.dup ok str).toList ++ (s.endp q).home.strings
    else (s.endp q).home.strings := by
  unfold strdup
  rcases s.dup ok str with _ | d
  · simp
  · by_cases h : q = p
    · subst h
      simp
    · simp [h]

theorem strdup_endp_of_ne (h : q ≠ p) : (s.strdup ok p str).endp q = s.endp q := by
  unfold strdup
  rcases s.dup ok str with _ | d
  · rfl
  · simp [h]

theorem strdup_nextStr :
    (s.strdup ok p str).nextStr = s.nextStr + (s.dup ok str).toList.length := by
  unfold strdup
  rcases s.dup ok str with _ | d <;> rfl

section setters
variable (put : Option Dup → EndpCtx → EndpCtx)

@[simp] theorem setString_next : (s.setString put ok p str).next = s.next := by simp [setString]

@[simp] theorem setString_list : (s.setString put ok p str).gpEndpList = s.gpEndpList := by
  simp [setString]

@[simp] theorem setString_trace : (s.setString put ok p str).trace = s.trace := by
  simp [setString]

theorem setString_endp_of_ne (h : q ≠ p) : (s.setString put ok p str).endp q = s.endp q := by
  rw [setString, setEndp_endp, if_neg h, strdup_endp_of_ne h]

@[simp] theorem setString_items : (s.setString put ok p str).items = s.items := by
  rw [items, setString_list, items]

end setters

@[simp] theorem setHost_live : (s.setHost ok p str).Live q ↔ s.Live q := by
  by_cases h : q = p <;> simp [Live, setHost, setString, h]

@[simp] theorem setHost_released : (s.setHost ok p str).released q ↔ s.released q := by
  by_cases h : q = p <;> simp [released, setHost, setString, h]

@[simp] theorem setHost_added : (s.setHost ok p str).Added q ↔ s.Added q := by
  by_cases h : q = p <;> simp [Added, setHost, setString, h]

@[simp] theorem setHost_hostOf : (s.setHost ok p str).hostOf q =
    if q = p then (if ok then str else none) else s.hostOf q := by
  by_cases h : q = p <;> simp [hostOf, setHost, setString, h]

@[simp] theorem setHost_contactOf : (s.setHost ok p str).contactOf q = s.contactOf q := by
  by_cases h : q = p <;> simp [contactOf, setHost, setString, h]

@[simp] theorem setContact_live : (s.setContact ok p str).Live q ↔ s.Live q := by
  by_cases h : q = p <;> simp [Live, setContact, setString, h]

@[simp] theorem setContact_released : (s.setContact ok p str).released q ↔ s.released q := by
  by_cases h : q = p <;> simp [released, setContact, setString, h]

@[simp] theorem setContact_added : (s.setContact ok p str).Added q ↔ s.Added q := by
  by_cases h : q = p <;> simp [Added, setContact, setString, h]

@[simp] theorem setContact_hostOf : (s.setContact ok p str).hostOf q = s.hostOf q := by
  by_cases h : q = p <;> simp [hostOf, setContact, setString, h]

@[simp] theorem setContact_contactOf : (s.setContact ok p str).contactOf q =
    if q = p then (if ok then str else none) else s.contactOf q := by
  by_cases h : q = p <;> simp [contactOf, setContact, setString, h]

@[simp] theorem create_next : s.create.next = s.next + 1 := rfl
@[simp] theorem create_list : s.create.gpEndpList = s.gpEndpList := rfl
@[simp] theorem create_trace : s.create.trace = s.trace := rfl

@[simp] theorem create_endp : s.create.endp q =
    if q = s.next then { EndpCtx.zero with magic := endpMagic, home := ⟨1, []⟩ }
    else s.endp q := by
  simp only [create, setEndp_endp]

@[simp] theorem create_items : s.create.items = s.items := rfl
@[simp] theorem create_listable : s.create.listable a b = s.listable a b := rfl

@[simp] theorem create_live : s.create.Live q ↔ q = s.next ∨ s.Live q := by
  by_cases h : q = s.next <;> simp [Live, h]

@[simp] theorem create_released : s.create.released q ↔ q ≠ s.next ∧ s.released q := by
  by_cases h : q = s.next <;> simp [released, h]

@[simp] theorem create_added : s.create.Added q ↔ q ≠ s.next ∧ s.Added q := by
  by_cases h : q = s.next <;> simp [Added, EndpCtx.zero, h]

@[simp] theorem create_hostOf : s.create.hostOf q = if q = s.next then none else s.hostOf q := by
  by_cases h : q = s.next <;> simp [hostOf, EndpCtx.zero, h]

@[simp] theorem create_contactOf :
    s.create.contactOf q = if q = s.next then none else s.contactOf q := by
  by_cases h : q = s.next <;> simp [contactOf, EndpCtx.zero, h]

@[simp] theorem add_next : (s.add a b p).next = s.next := by
  unfold add
  split_ifs <;> rfl

theorem add_nextStr : (s.add a b p).nextStr = s.nextStr := by
  unfold add
  split_ifs <;> rfl

theorem add_lateList : (s.add a b p).lateList = s.lateList := by
  unfold add
  split_ifs <;> rfl

@[simp] theorem add_trace : (s.add a b p).trace = s.trace := by
  unfold add
  split_ifs <;> rfl

theorem add_list : (s.add a b p).gpEndpList =
    if s.gpEndpList.isNone ∧ a = false then none
    else some { s.gpEndpList.getD ⟨p, []⟩ with
      items := if b then s.items ++ [p] else s.items } := by
  unfold add
  rcases s with ⟨_, _, _, _ | v, _⟩ <;> cases a <;> cases b <;>
    simp [withList, enlist, setItems, items]

@[simp] theorem add_items : (s.add a b p).items =
    if s.listable a b then s.items ++ [p] else s.items := by
  rw [items, add_list]
  rcases s with ⟨_, _, _, _ | v, _⟩ <;> cases a <;> cases b <;> simp [listable, items]

theorem add_endp (s : Store) (a b : Bool) (p q : EndpPtr) : (s.add a b p).endp q =
    if q = p ∧ s.listable a b then { s.endp q with flags := (s.endp q).flags ||| endpFlagAdded }
    else s.endp q := by
  by_cases h : q = p
  · subst h
    rcases s with ⟨_, _, _, _ | v, _⟩ <;> cases a <;> cases b <;>
      simp [add, withList, enlist, setItems, listable]
  · rcases s with ⟨_, _, _, _ | v, _⟩ <;> cases a <;> cases b <;>
      simp [add, withList, enlist, setItems, h]

@[simp] theorem add_live : (s.add a b p).Live q ↔ s.Live q := by
  rw [Live, add_endp]
  split_ifs <;> rfl

@[simp] theorem add_released : (s.add a b p).released q ↔ s.released q := by
  rw [released, add_endp]
  split_ifs <;> rfl

@[simp] theorem add_added : (s.add a b p).Added q ↔ s.Added q ∨ (q = p ∧ s.listable a b) := by
  rw [Added, add_endp]
  split_ifs with h
  · simp [h, added_or]
  · simp [h, Added]

@[simp] theorem add_hostOf : (s.add a b p).hostOf q = s.hostOf q := by
  rw [hostOf, add_endp]
  split_ifs <;> rfl

@[simp] theorem add_contactOf : (s.add a b p).contactOf q = s.contactOf q := by
  rw [contactOf, add_endp]
  split_ifs <;> rfl

@[simp] theorem detach_next : (s.detach p).next = s.next := rfl

@[simp] theorem detach_items : (s.detach p).items = s.items.erase p := by
  rcases s with ⟨_, _, _, _ | v, _⟩ <;> simp [detach, items]

theorem detach_endp (h : q ≠ p) : (s.detach p).endp q = s.endp q := by simp [detach, h]

theorem detach_live (h : q ≠ p) : (s.detach p).Live q ↔ s.Live q := by
  rw [Live, detach_endp h, Live]

theorem detach_added (h : q ≠ p) : (s.detach p).Added q ↔ s.Added q := by
  rw [Added, detach_endp h, Added]

@[simp] theorem detach_hostOf : (s.detach p).hostOf q = s.hostOf q := by
  by_cases h : q = p
  · subst h
    simp [hostOf, detach]
  · rw [hostOf, detach_endp h, hostOf]

@[simp] theorem detach_contactOf : (s.detach p).contactOf q = s.contactOf q := by
  by_cases h : q = p
  · subst h
    simp [contactOf, detach]
  · rw [contactOf, detach_endp h, contactOf]

@[simp] theorem detach_released : (s.detach p).released q ↔ q = p ∨ s.released q := by
  by_cases h : q = p
  · subst h
    simp [released, detach]
  · simp [released, detach_endp h, h]

end Store
end Evsip.Endp
