import Evsip.Endp.Effect

/-! One lemma for each function of the controller: what a call on a live end point
returns and which effect it has. -/

namespace Evsip.Endp
open CLib Store

variable {s : Store} {p : EndpPtr} {α : Type}

theorem touch_run (h : ¬ s.released p) : (touch p).run s = .ok ((), s) := by
  simp [touch, h]

theorem touch_run_released (h : s.released p) :
    (touch p).run s = .ok ((), s.record (.lateAccess p)) := by
  simp [touch, h]

theorem readEndp_run (h : ¬ s.released p) (f : EndpCtx → α) :
    (readEndp p f).run s = .ok (f (s.endp p), s) := by
  simp [readEndp, touch_run h]

theorem writeEndp_run (h : ¬ s.released p) (f : EndpCtx → EndpCtx) :
    (writeEndp p f).run s = .ok ((), s.setEndp p f) := by
  simp [writeEndp, touch_run h]

theorem touchList_run : touchList.run s = .ok ((), s.used 1) := rfl

theorem suVectorItems_run : suVectorItems.run s = .ok (s.items, s.used 1) := rfl

theorem suVectorAppend_run (ok : Bool) : (suVectorAppend ok p).run s =
    .ok (ok, if ok then (s.used 1).setItems (s.items ++ [p]) else s.used 1) := by
  cases ok <;> simp [suVectorAppend, touchList_run]

theorem ctxCheckAndMagic_run (h : s.Live p) (codeRet : Proc α) (body : EndpPtr → Proc α) :
    (ctxCheckAndMagic (some p) codeRet body).run s = (body p).run s := by
  simp [ctxCheckAndMagic, readEndp_run h.not_released, h.1]

theorem suStrdup_run (h : ¬ s.released p) (ok : Bool) (str : Option CString) :
    (suStrdup ok p str).run s = .ok (s.dup ok str, s.strdup ok p str) := by
  rcases str with _ | str <;> cases ok <;> simp [suStrdup, touch_run h, dup, strdup]

theorem endpSetString_run (h : s.Live p) (put : Option Dup → EndpCtx → EndpCtx) (ok : Bool)
    (str : Option CString) :
    (endpSetString put ok (some p) str).run s = .ok (.success, s.setString put ok p str) := by
  have h' : ¬ (s.strdup ok p str).released p := by simpa [released] using h.not_released
  rw [endpSetString, ctxCheckAndMagic_run h]
  simp [suStrdup_run h.not_released, writeEndp_run h', setString]

theorem endpCreate_run (ok : Bool) : (endpCreate ok).run s =
    .ok (if ok then (.success, some s.next) else (.errorOutOfResources, none),
      if ok then s.create else s) := by
  cases ok
  · simp [endpCreate, suHomeClone]
  · simp [endpCreate, suHomeClone, writeEndp, touch, released, create, setEndp]

theorem endpIsAttached_run (h : s.Live p) (ha : s.Added p ↔ p ∈ s.items) :
    (endpIsAttached (some p)).run s =
      .ok (if p ∈ s.items then (.success, s.used 1) else (.errorNotFound, s)) := by
  rw [endpIsAttached, ctxCheckAndMagic_run h]
  by_cases hp : p ∈ s.items
  · have hf : (s.endp p).flags &&& endpFlagAdded ≠ 0 := ha.2 hp
    simp [readEndp_run h.not_released, suVectorItems_run, hp, hf]
  · have hf : (s.endp p).flags &&& endpFlagAdded = 0 := by
      simpa [Added] using mt ha.1 hp
    simp [readEndp_run h.not_released, hp, hf]

theorem withList_self {v : SuVector} (h : s.gpEndpList = some v) : s.withList p = s := by
  rcases s with ⟨_, _, _, _, _, _⟩
  cases h
  rfl

theorem withList_listLive (h : ¬ s.released p) (hl : s.gpEndpList = none) :
    (s.withList p).ListLive := by
  intro v hv
  have hv : (⟨p, []⟩ : SuVector) = v := by simpa [withList, hl] using hv
  rw [← hv]
  exact h

theorem endpAdd_run (h : s.Live p) (a b : Bool) : ∃ ret,
    (endpAdd a b (some p)).run s = .ok (ret, (s.used 1).add a b p) := by
  have hr := h.not_released
  have hw : ∀ l, ¬ ((s.withList p).setItems l).released p := fun _ => hr
  rw [endpAdd, ctxCheckAndMagic_run h]
  cases hl : s.gpEndpList with
  | none =>
    rw [used_of_live (listLive_of_none hl)]
    cases a
    · refine ⟨.errorOutOfResources, ?_⟩
      rcases s with ⟨_, _, _, _, _, _⟩
      cases hl
      simp [suVectorCreate, touch_run hr, add]
    · have hs : { s with gpEndpList := some ⟨p, []⟩ } = s.withList p := by simp [withList, hl]
      have hi : (s.withList p).items = s.items := by simp [items, withList, hl]
      have hu : (s.withList p).used 1 = s.withList p := used_of_live (withList_listLive hr hl)
      cases b
      · exact ⟨.errorInsufficientBuffer, by
          simp [hl, suVectorCreate, touch_run hr, suVectorAppend_run, add, hs, hu]⟩
      · exact ⟨.success, by
          simp [hl, suVectorCreate, touch_run hr, suVectorAppend_run, add, hs, hi, hu, enlist,
            writeEndp_run (hw _)]⟩
  | some v =>
    have hs : (s.used 1).withList p = s.used 1 := withList_self hl
    cases b
    · exact ⟨.errorInsufficientBuffer, by simp [hl, suVectorAppend_run, add, hs]⟩
    · have hw : ∀ l, ¬ ((s.used 1).setItems l).released p := fun _ => hr
      exact ⟨.success, by simp [hl, suVectorAppend_run, add, hs, enlist, writeEndp_run (hw _)]⟩

def scan (s : Store) (host : Option CString) : List EndpPtr → Except Fault (Option EndpPtr)
  | [] => .ok none
  | p :: ps =>
    match s.hostOf p, host with
    | some h, some h' => if h = h' then .ok (some p) else scan s host ps
    | _, _ => .error .nullString

theorem scan_cons (host : Option CString) (p : EndpPtr) (ps : List EndpPtr) :
    scan s host (p :: ps) = match s.hostOf p, host with
      | some h, some h' => if h = h' then .ok (some p) else scan s host ps
      | _, _ => .error .nullString := rfl

theorem findLoop_run {ps : List EndpPtr} (h : ∀ p ∈ ps, s.Live p) (host : Option CString) :
    (findLoop host ps).run s = (scan s host ps).map (·, s) := by
  induction ps with
  | nil => rfl
  | cons p ps ih =>
    have hr := (h p (by simp)).not_released
    have ih := ih fun q hq => h q (by simp [hq])
    simp only [findLoop, StateT.run_bind, readEndp_run hr, Proc.ok_bind]
    rw [show (s.endp p).host.map Dup.str = s.hostOf p from rfl]
    rcases hk : s.hostOf p with _ | k <;> rcases host with _ | k'
    · simp [strcmpPtr, scan, hk, Except.map]
    · simp [strcmpPtr, scan, hk, Except.map]
    · simp [strcmpPtr, scan, hk, Except.map]
    · simp only [strcmpPtr, StateT.run_bind, Proc.run_deref_some, Proc.ok_bind, StateT.run_pure,
        Proc.pure_eq_ok, strcmp_eq_zero_iff k.noNul k'.noNul, scan, hk]
      by_cases hkk : k = k'
      · simp [hkk, Except.map]
      · have hb : k.bytes ≠ k'.bytes := fun hb => hkk (CString.ext hb)
        simpa [hkk, hb] using ih

theorem scan_used (n : ℕ) (host : Option CString) (ps : List EndpPtr) :
    scan (s.used n) host ps = scan s host ps := by
  induction ps with
  | nil => rfl
  | cons p ps ih =>
    rw [scan_cons, ih]
    rfl

theorem endpFindByIpv4_run (h : ∀ p ∈ s.items, s.Live p) (host : Option CString) :
    (endpFindByIpv4 host).run s = (scan s host s.items).map fun r =>
      ((if r.isSome then .success else .errorNotFound, r), s.used 1) := by
  have hloop := findLoop_run (s := s.used 1) h host
  simp only [endpFindByIpv4, StateT.run_bind, suVectorItems_run, Proc.ok_bind, hloop, scan_used]
  cases scan s host s.items <;> rfl

/-- What the dump shows. -/
def Store.dump (s : Store) : List (Option CString × Option CString) :=
  s.items.map fun p => (s.contactOf p, s.hostOf p)

theorem dumpLoop_run {ps : List EndpPtr} (h : ∀ p ∈ ps, ¬ s.released p) :
    (dumpLoop ps).run s = .ok (ps.map fun p => (s.contactOf p, s.hostOf p), s) := by
  induction ps with
  | nil => rfl
  | cons p ps ih =>
    have hr := h p (by simp)
    simp [dumpLoop, readEndp_run hr, ih fun q hq => h q (by simp [hq]), contactOf, hostOf]

theorem endpDumpList_run (h : ∀ p ∈ s.items, ¬ s.released p) :
    endpDumpList.run s = .ok (s.dump, s.used 1) := by
  have hloop := dumpLoop_run (s := s.used 1) h
  rw [endpDumpList, Proc.run_bind_ok suVectorItems_run, hloop]
  rfl

theorem endpDestroy_run (h : s.Live p) : (endpDestroy (some p)).run s =
    .ok ((), (s.setEndp p fun c => { c with home := ⟨0, []⟩ }).record (.homeUnref p)) := by
  rw [endpDestroy, ctxCheckAndMagic_run h]
  simp [suHomeUnref, touch_run h.not_released, setEndp, h.2]

theorem endpDestroy_run_released (hm : (s.endp p).magic = endpMagic) (hr : s.released p) :
    (endpDestroy (some p)).run s = .ok ((),
      (((s.record (.lateAccess p)).record (.lateAccess p)).setEndp p fun c =>
        { c with home := ⟨0, []⟩ }).record (.homeUnref p)) := by
  have h0 : (s.endp p).home.refs = 0 := hr
  have hr' : (s.record (.lateAccess p)).released p := hr
  simp [endpDestroy, ctxCheckAndMagic, readEndp, touch_run_released hr, hm,
    suHomeUnref, touch_run_released hr', setEndp, h0]

theorem suVectorRemove_run {i : ℕ} (h : s.Live p) (hi : s.items[i]? = some p) :
    (suVectorRemove i).run s =
      .ok ((), ((s.used 1).freed p).setItems (s.items.eraseIdx i)) := by
  have hlive : (s.used 1).Live p := h
  have hitems : ((s.used 1).freed p).items = s.items := rfl
  rw [suVectorRemove, Proc.run_bind_ok suVectorItems_run, hi]
  dsimp only
  rw [Proc.run_bind_ok (endpDestroy_run hlive), Proc.run_bind_ok touchList_run]
  rfl

def Store.taken (s : Store) (p : EndpPtr) : Store :=
  ((((s.used 2).freed p).setItems (s.items.erase p)).record (.lateAccess p)).setEndp p fun c =>
    { c with flags := c.flags &&& ~~~endpFlagAdded }

theorem endpExtract_run (h : s.Live p) (ha : s.Added p) (hp : p ∈ s.items) :
    (endpExtract (some p)).run s = .ok (.success, s.taken p) := by
  have hf : (s.endp p).flags &&& endpFlagAdded ≠ 0 := ha
  obtain ⟨i, hi⟩ := Option.isSome_iff_exists.1 (List.isSome_idxOf?.2 hp)
  have he : s.items.erase p = s.items.eraseIdx i := by rw [List.erase_eq_eraseIdx, hi]
  have hget : (s.used 1).items[i]? = some p := by
    obtain ⟨hlt, heq, -⟩ := List.idxOf?_eq_some_iff.1 hi
    rw [used_items, List.getElem?_eq_getElem hlt, heq]
  have hremove := suVectorRemove_run (s := s.used 1) h hget
  rw [used_used, used_items, ← he] at hremove
  have hrel : (((s.used 2).freed p).setItems (s.items.erase p)).released p := by
    simp [released, setItems, freed, used, record]
  rw [endpExtract, ctxCheckAndMagic_run h, Proc.run_bind_ok (readEndp_run h.not_released _),
    if_neg hf, Proc.run_bind_ok suVectorItems_run, hi]
  dsimp only
  rw [Proc.run_bind_ok hremove]
  simp [writeEndp, touch_run_released hrel, taken]

end Evsip.Endp
