import Evsip.Mem.Clients

/-! Destructors that refer to their own object. What a destructor does may depend on how many
times it was started before. -/

namespace Evsip.Mem
open Heap Proc

/-- The references to its object a destructor has after these calls, having had `n`. -/
def kept : Nat → List Action → Nat
  | n, [] => n
  | n, .refSelf :: rest => kept (n + 1) rest
  | n, .derefSelf :: rest => kept (n - 1) rest
  | n, .deref _ :: rest => kept n rest

def Own : Nat → List Action → Prop
  | _, [] => True
  | n, .refSelf :: rest => Own (n + 1) rest
  | n, .derefSelf :: rest => 0 < n ∧ Own (n - 1) rest
  | _, .deref _ :: _ => False

/-- No reference given back leaves a number of them that the counter holds as zero. -/
def NeverLast : Nat → List Action → Prop
  | _, [] => True
  | n, .refSelf :: rest => NeverLast (n + 1) rest
  | n, .derefSelf :: rest => ¬ UInt32.size ∣ n - 1 ∧ NeverLast (n - 1) rest
  | n, .deref _ :: rest => NeverLast n rest

namespace Heap

def starts (h : Heap) (p : Ptr) : Nat := h.trace.count (.destruct p)
def frees (h : Heap) (p : Ptr) : Nat := h.trace.count (.free p)
def lates (h : Heap) (p : Ptr) : Nat := h.trace.count (.late p)

def armed (h : Heap) (runs : Nat → List Action) (p : Ptr) : Heap :=
  h.setObj p fun m => { m with dh := some (runs (h.starts p)) }

end Heap

/-- `evsip_mem_deref` of an object whose destructor makes the calls `runs k` when it was started
`k` times before. -/
def derefOwn (runs : Nat → List Action) : Nat → Ptr → Proc (Option Ptr)
  | 0, _ => throw .outOfFuel
  | fuel + 1, p => do
    -- the list in the header stands for what the destructor would do now
    modify fun h => h.armed runs p
    let r ← derefBody (derefOwn runs fuel) p
    modify fun h => h.record (.returned p r)
    return r

/-- The deref of the last reference, from `h` to `t`, with `u` where its destructor has finished
and `n` references kept by that. -/
structure Orderly (p : Ptr) (n : Nat) (h u t : Heap) : Prop where
  started_once : t.starts p = h.starts p + 1
  freed_after : u.frees p = h.frees p
  freed_once : t.frees p ≤ h.frees p + 1
  freed_zero : t.frees p ≠ h.frees p → (u.objs p).nbRefs = 0
  kept_alive : 0 < n → t.Alive p
  no_late : t.lates p = h.lates p

def Safe (runs : Nat → List Action) (h : Heap) (p : Ptr) : Prop :=
  ∃ depth, ∀ fuel ≥ depth, ∃ u r t,
    (runDestructor (derefOwn runs fuel) p (runs (h.starts p))).run
      ((h.armed runs p).started p) = .ok ((), u) ∧
    (derefOwn runs (fuel + 1) p).run h = .ok (r, t) ∧
    Orderly p (kept 0 (runs (h.starts p))) h u t

structure Counts (h : Heap) (p : Ptr) (n : Nat) : Prop where
  alive : h.Alive p
  magic : (h.objs p).magic = memMagic
  refs : (h.objs p).nbRefs = UInt32.ofNat n

structure Steady (p : Ptr) (h t : Heap) : Prop where
  starts : t.starts p = h.starts p
  frees : t.frees p = h.frees p
  lates : t.lates p = h.lates p

variable {h t u : Heap} {p q : Ptr} {n fuel : Nat} {calls : List Action}
  {runs : Nat → List Action} {r : Option Ptr} {deref : Ptr → Proc (Option Ptr)}
  {R : Heap → Heap → Prop} {α : Type}

theorem ofNat_eq_zero_iff : UInt32.ofNat n = 0 ↔ UInt32.size ∣ n := by
  rw [← UInt32.toNat_inj, UInt32.toNat_ofNat', Nat.dvd_iff_mod_eq_zero]
  rfl

theorem Steady.refl : Steady p h h := ⟨rfl, rfl, rfl⟩

theorem Steady.trans (h₁ : Steady p h t) (h₂ : Steady p t u) : Steady p h u :=
  ⟨h₂.starts.trans h₁.starts, h₂.frees.trans h₁.frees, h₂.lates.trans h₁.lates⟩

theorem Steady.written (f : MemHeader → MemHeader) : Steady p h (h.setObj q f) := ⟨rfl, rfl, rfl⟩

theorem Steady.returned : Steady p h (h.record (.returned q r)) := by
  constructor <;> simp [Heap.starts, Heap.frees, Heap.lates, Heap.record]

theorem freed_starts : (h.freed p).starts p = h.starts p := by
  simp [Heap.starts, Heap.freed, Heap.record]

theorem freed_frees : (h.freed p).frees p = h.frees p + 1 := by
  simp [Heap.frees, Heap.freed, Heap.record]

theorem freed_lates : (h.freed p).lates p = h.lates p := by
  simp [Heap.lates, Heap.freed, Heap.record]

/-! One call on the own object -/

theorem Counts.addRef (hc : Counts h p n) : Counts (h.setObj p .addRef) p (n + 1) where
  alive := by simpa [Alive, MemHeader.addRef] using hc.alive
  magic := by simpa [MemHeader.addRef] using hc.magic
  refs := by simp [MemHeader.addRef, hc.refs, UInt32.ofNat_add]

theorem Counts.drop (hc : Counts h p (n + 1)) : Counts (h.setObj p .drop) p n where
  alive := alive_drop hc.alive
  magic := by simpa [MemHeader.drop] using hc.magic
  refs := by simp [MemHeader.drop, hc.refs, UInt32.ofNat_add]

theorem Counts.armed (hc : Counts h p n) (runs : Nat → List Action) :
    Counts (h.armed runs p) p n where
  alive := by simpa [Alive, Heap.armed] using hc.alive
  magic := by simpa [Heap.armed] using hc.magic
  refs := by simpa [Heap.armed] using hc.refs

theorem Counts.record (hc : Counts h p n) (e : Event) : Counts (h.record e) p n :=
  ⟨hc.alive, hc.magic, hc.refs⟩

theorem Counts.sub_one (hc : Counts h p (n + 1)) : (h.objs p).nbRefs - 1 = UInt32.ofNat n := by
  rw [hc.refs, UInt32.ofNat_add]
  simp

theorem derefOwn_succ_run : (derefOwn runs (fuel + 1) p).run h =
    (do let r ← derefBody (derefOwn runs fuel) p
        modify fun h => h.record (.returned p r)
        return r : Proc _).run (h.armed runs p) := rfl

theorem derefOwn_kept (runs : Nat → List Action) (fuel : Nat) (hc : Counts h p (n + 1))
    (hn : ¬ UInt32.size ∣ n) : ∃ t,
    (derefOwn runs (fuel + 1) p).run h = .ok (some p, t) ∧ Counts t p n ∧ Steady p h t := by
  have ha := hc.armed runs
  have hpos : ((h.armed runs p).objs p).nbRefs - 1 ≠ 0 := by
    rw [ha.sub_one]
    exact mt ofNat_eq_zero_iff.1 hn
  refine ⟨((h.armed runs p).setObj p .drop).record (.returned p (some p)), ?_,
    ha.drop.record _, ((Steady.written _).trans (.written _)).trans .returned⟩
  rw [derefOwn_succ_run]
  simp [derefBody_kept ha.alive ha.magic hpos]

theorem derefOwn_last (hc : Counts h p (n + 1)) (hn : UInt32.size ∣ n) :
    (derefOwn runs (fuel + 1) p).run h =
      (do let r ← (do runDestructor (derefOwn runs fuel) p (runs (h.starts p))
                      freeUnlessReferenced p)
          modify fun h => h.record (.returned p r)
          return r : Proc _).run ((h.armed runs p).started p) := by
  have ha := hc.armed runs
  have h0 : ((h.armed runs p).objs p).nbRefs - 1 = 0 := by
    rw [ha.sub_one, ofNat_eq_zero_iff]
    exact hn
  have hdh : ((h.armed runs p).objs p).dh.getD [] = runs (h.starts p) := by simp [Heap.armed]
  rw [derefOwn_succ_run, StateT.run_bind, derefBody_last ha.alive ha.magic h0, hdh]
  rfl

theorem freeUnlessReferenced_counts (hc : Counts u p n) :
    (freeUnlessReferenced p).run u =
      .ok (if UInt32.size ∣ n then (none, u.freed p) else (some p, u)) := by
  by_cases hn : UInt32.size ∣ n
  · have hdying : u.Dying p := ⟨hc.alive, hc.refs.trans (ofNat_eq_zero_iff.2 hn)⟩
    rw [freeUnlessReferenced_run hdying, if_pos hn]
  · have hgt : (u.objs p).nbRefs > 0 := by
      rw [hc.refs]
      exact UInt32.pos_iff_ne_zero.2 (mt ofNat_eq_zero_iff.1 hn)
    simp [freeUnlessReferenced, readHeader_run _ hc.alive, hgt, hn]

theorem armed_started_starts : ((h.armed runs p).started p).starts p = h.starts p + 1 := by
  simp [Heap.started, Heap.armed, Heap.starts, Heap.record]

theorem armed_started_frees : ((h.armed runs p).started p).frees p = h.frees p := by
  simp [Heap.started, Heap.armed, Heap.frees, Heap.record]

theorem armed_started_lates : ((h.armed runs p).started p).lates p = h.lates p := by
  simp [Heap.started, Heap.armed, Heap.lates, Heap.record]

/-! What every call keeps -/

structure Frame (R : Heap → Heap → Prop) : Prop where
  refl : ∀ h, R h h
  trans : ∀ h t u, R h t → R t u → R h u
  record : ∀ h e, R h (h.record e)
  write : ∀ h q f, (∀ m, (f m).dh = m.dh) → R h (h.setObj q f)

namespace Frame

theorem touch (hR : Frame R) : Along R (touch q) := by
  refine .modify fun h => ?_
  split
  · exact hR.refl h
  · exact hR.record h _

theorem readHeader (hR : Frame R) (g : MemHeader → α) : Along R (readHeader q g) :=
  .bind hR.trans hR.touch fun _ => .bind hR.trans (.get hR.refl) fun _ => .pure hR.refl _

theorem writeHeader (hR : Frame R) {f : MemHeader → MemHeader} (hf : ∀ m, (f m).dh = m.dh) :
    Along R (writeHeader q f) :=
  .bind hR.trans hR.touch fun _ => .modify fun h => hR.write h q f hf

theorem memRef (hR : Frame R) : Along R (memRef (some q)) := by
  refine .bind hR.trans (hR.readHeader _) fun magic => .ite ?_ ?_
  · exact .pure hR.refl _
  · exact .bind hR.trans (hR.writeHeader fun _ => rfl) fun _ => .pure hR.refl _

theorem freeUnlessReferenced (hR : Frame R) : Along R (freeUnlessReferenced q) := by
  refine .bind hR.trans (hR.readHeader _) fun nbRefs => .ite ?_ ?_
  · exact .pure hR.refl _
  · refine .bind hR.trans ?_ fun _ => .pure hR.refl _
    exact .bind hR.trans (hR.writeHeader fun _ => rfl) fun _ => .modify fun h => hR.record h _

theorem runDestructor (hR : Frame R) (hd : ∀ q, Along R (deref q)) :
    Along R (runDestructor deref q calls) := by
  induction calls with
  | nil => exact .pure hR.refl _
  | cons a calls ih =>
    cases a with
    | refSelf => exact .bind hR.trans hR.memRef fun _ => ih
    | derefSelf => exact .bind hR.trans (hd q) fun _ => ih
    | deref x => exact .bind hR.trans (hd x) fun _ => ih

theorem derefBody (hR : Frame R) (hd : ∀ q, Along R (deref q)) : Along R (derefBody deref q) := by
  refine .bind hR.trans (hR.readHeader _) fun magic => .ite (.pure hR.refl _) ?_
  refine .bind hR.trans (hR.writeHeader fun _ => rfl) fun _ => ?_
  refine .bind hR.trans (hR.readHeader _) fun nbRefs => .ite (.pure hR.refl _) ?_
  refine .bind hR.trans (hR.readHeader _) fun dh => ?_
  cases dh with
  | none => exact hR.freeUnlessReferenced
  | some calls =>
    refine .bind hR.trans (.modify fun h => hR.record h _) fun _ => ?_
    exact .bind hR.trans (hR.runDestructor hd) fun _ => hR.freeUnlessReferenced

theorem returned (hR : Frame R) (r : Option Ptr) : Along R
    (do modify fun h => h.record (.returned q r)
        return r : Proc _) :=
  .bind hR.trans (.modify fun h => hR.record h _) fun _ => .pure hR.refl _

theorem derefObj (hR : Frame R) (fuel : Nat) : ∀ q, Along R (derefObj fuel q) := by
  induction fuel with
  | zero => exact fun q => .throw _
  | succ fuel ih => exact fun q => .bind hR.trans (hR.derefBody ih) fun r => hR.returned r

end Frame

def Grows (p : Ptr) (h t : Heap) : Prop := h.starts p ≤ t.starts p

theorem grows_frame : Frame (Grows p) where
  refl _ := le_rfl
  trans _ _ _ := le_trans
  record _ _ := List.count_le_count_cons
  write _ _ _ _ := le_rfl

theorem derefOwn_grows : ∀ q, Along (Grows p) (derefOwn runs fuel q) := by
  induction fuel with
  | zero => exact fun q => .throw _
  | succ fuel ih =>
    refine fun q => .bind grows_frame.trans (.modify fun _ => le_rfl) fun _ => ?_
    exact .bind grows_frame.trans (grows_frame.derefBody ih) fun r => grows_frame.returned r

theorem derefOwn_restarts (hc : Counts h p (n + 1)) (hn : UInt32.size ∣ n)
    (hrun : (derefOwn runs (fuel + 1) p).run h = .ok (r, t)) : h.starts p < t.starts p := by
  rw [derefOwn_last hc hn] at hrun
  have hrest : Grows p ((h.armed runs p).started p) t := by
    refine Along.bind grows_frame.trans ?_ (fun r => grows_frame.returned r) _ _ _ hrun
    exact .bind grows_frame.trans (grows_frame.runDestructor derefOwn_grows) fun _ =>
      grows_frame.freeUnlessReferenced
  unfold Grows at hrest
  rw [armed_started_starts] at hrest
  exact hrest

/-! The calls of a destructor -/

theorem runDestructor_own (runs : Nat → List Action) (fuel : Nat) (hown : Own n calls)
    (hn : NeverLast n calls) (hc : Counts h p n) :
    ∃ u, (runDestructor (derefOwn runs (fuel + 1)) p calls).run h = .ok ((), u) ∧
      Counts u p (kept n calls) ∧ Steady p h u := by
  induction calls generalizing h n with
  | nil => exact ⟨h, rfl, hc, .refl⟩
  | cons a calls ih =>
    cases a with
    | refSelf =>
      obtain ⟨u, hrun, hu, hsteady⟩ := ih hown hn hc.addRef
      have href := memRef_run hc.alive hc.magic
      exact ⟨u, by simp [runDestructor, href, hrun], hu,
        ⟨hsteady.starts, hsteady.frees, hsteady.lates⟩⟩
    | derefSelf =>
      obtain ⟨hpos, hown⟩ := hown
      obtain ⟨hlast, hn⟩ := hn
      obtain ⟨n, rfl⟩ := Nat.exists_eq_succ_of_ne_zero hpos.ne'
      obtain ⟨t, hderef, ht, hsteady⟩ := derefOwn_kept runs fuel hc hlast
      obtain ⟨u, hrun, hu, hsteady'⟩ := ih hown hn ht
      exact ⟨u, by simp [runDestructor, hderef, hrun], hu, hsteady.trans hsteady'⟩
    | deref q => exact hown.elim

theorem runDestructor_restarts (hown : Own n calls) (hn : ¬ NeverLast n calls) (hc : Counts h p n)
    (hrun : (runDestructor (derefOwn runs fuel) p calls).run h = .ok ((), u)) :
    h.starts p < u.starts p := by
  induction calls generalizing h n with
  | nil => exact absurd trivial hn
  | cons a calls ih =>
    cases a with
    | refSelf =>
      have href := memRef_run hc.alive hc.magic
      simp only [runDestructor, StateT.run_bind, href, Proc.ok_bind] at hrun
      have hlt := ih hown hn hc.addRef hrun
      exact hlt
    | derefSelf =>
      obtain ⟨hpos, hown⟩ := hown
      obtain ⟨n, rfl⟩ := Nat.exists_eq_succ_of_ne_zero hpos.ne'
      cases fuel with
      | zero => cases hrun
      | succ fuel =>
        by_cases hlast : UInt32.size ∣ n
        · simp only [runDestructor, StateT.run_bind] at hrun
          rcases hfirst : (derefOwn runs (fuel + 1) p).run h with e | ⟨r, t⟩
          · rw [hfirst] at hrun
            cases hrun
          · rw [hfirst] at hrun
            have hrest : h.starts p + 1 ≤ t.starts p := derefOwn_restarts hc hlast hfirst
            exact hrest.trans (grows_frame.runDestructor derefOwn_grows t () u hrun)
        · obtain ⟨t, hkept, ht, hsteady⟩ := derefOwn_kept runs fuel hc hlast
          simp only [runDestructor, StateT.run_bind, hkept, Proc.ok_bind] at hrun
          have hn' : ¬ NeverLast n calls := fun h => hn ⟨hlast, h⟩
          exact hsteady.starts ▸ ih hown hn' ht hrun
    | deref q => exact hown.elim

/-! The whole call -/

theorem counts_started (hc : Counts h p (n + 1)) (runs : Nat → List Action) :
    Counts ((h.armed runs p).started p) p n := by
  have hd := (hc.armed runs).drop
  have hobjs := congrFun (started_objs (h := h.armed runs p) (p := p)) p
  refine ⟨(alive_congr hobjs).2 hd.alive, ?_, ?_⟩
  · rw [hobjs]
    exact hd.magic
  · rw [hobjs]
    exact hd.refs

theorem derefOwn_finished (hc : Counts h p 1)
    (hu : (runDestructor (derefOwn runs fuel) p (runs (h.starts p))).run
      ((h.armed runs p).started p) = .ok ((), u)) :
    (derefOwn runs (fuel + 1) p).run h =
      (do let r ← freeUnlessReferenced p
          modify fun h => h.record (.returned p r)
          return r : Proc _).run u := by
  rw [derefOwn_last hc (Nat.dvd_zero _)]
  simp only [StateT.run_bind, hu, Proc.ok_bind]

theorem derefOwn_run (hc : Counts h p 1)
    (hu : (runDestructor (derefOwn runs fuel) p (runs (h.starts p))).run
      ((h.armed runs p).started p) = .ok ((), u)) (hcu : Counts u p n) :
    (derefOwn runs (fuel + 1) p).run h = .ok (
      if UInt32.size ∣ n then (none, (u.freed p).record (.returned p none))
      else (some p, u.record (.returned p (some p)))) := by
  rw [derefOwn_finished hc hu]
  simp only [StateT.run_bind, Proc.ok_bind, freeUnlessReferenced_counts hcu]
  split <;> rfl

theorem orderly_freed (hs : Steady p ((h.armed runs p).started p) u) (hcu : Counts u p 0) :
    Orderly p 0 h u ((u.freed p).record (.returned p none)) where
  started_once := Steady.returned.starts.trans
    (freed_starts.trans (hs.starts.trans armed_started_starts))
  freed_after := hs.frees.trans armed_started_frees
  freed_once := by
    rw [Steady.returned.frees, freed_frees, hs.frees, armed_started_frees]
  freed_zero _ := hcu.refs
  kept_alive hpos := absurd hpos (lt_irrefl _)
  no_late := Steady.returned.lates.trans
    (freed_lates.trans (hs.lates.trans armed_started_lates))

theorem orderly_kept (hs : Steady p ((h.armed runs p).started p) u) (hcu : Counts u p n) :
    Orderly p n h u (u.record (.returned p (some p))) := by
  have ht := hs.trans (.returned (q := p) (r := some p))
  have hfrees := ht.frees.trans armed_started_frees
  exact
    { started_once := ht.starts.trans armed_started_starts
      freed_after := hs.frees.trans armed_started_frees
      freed_once := hfrees.le.trans (Nat.le_succ _)
      freed_zero := fun hne => absurd hfrees hne
      kept_alive := fun _ => hcu.alive
      no_late := ht.lates.trans armed_started_lates }

theorem safe_of (hc : Counts h p 1) (hown : Own 0 (runs (h.starts p)))
    (hn : NeverLast 0 (runs (h.starts p)))
    (hzero : UInt32.size ∣ kept 0 (runs (h.starts p)) → kept 0 (runs (h.starts p)) = 0) :
    Safe runs h p := by
  refine ⟨1, fun fuel hfuel => ?_⟩
  obtain ⟨fuel, rfl⟩ := Nat.exists_eq_add_of_le' hfuel
  obtain ⟨u, hu, hcu, hs⟩ :=
    runDestructor_own runs fuel hown hn (counts_started hc runs)
  have hrun := derefOwn_run hc hu hcu
  by_cases hdvd : UInt32.size ∣ kept 0 (runs (h.starts p))
  · rw [if_pos hdvd] at hrun
    rw [hzero hdvd] at hcu
    refine ⟨u, _, _, hu, hrun, ?_⟩
    rw [hzero hdvd]
    exact orderly_freed hs hcu
  · rw [if_neg hdvd] at hrun
    exact ⟨u, _, _, hu, hrun, orderly_kept hs hcu⟩

theorem Safe.neverLast (hsafe : Safe runs h p) (hc : Counts h p 1)
    (hown : Own 0 (runs (h.starts p))) : NeverLast 0 (runs (h.starts p)) := by
  by_contra hn
  obtain ⟨depth, hsafe⟩ := hsafe
  obtain ⟨u, r, t, hu, ht, horderly⟩ := hsafe depth le_rfl
  have hrestarts := runDestructor_restarts hown hn (counts_started hc runs) hu
  rw [armed_started_starts] at hrestarts
  rw [derefOwn_finished hc hu] at ht
  have hgrows : Grows p u t := Along.bind grows_frame.trans grows_frame.freeUnlessReferenced
    (fun r => grows_frame.returned r) _ _ _ ht
  exact absurd (hrestarts.trans_le hgrows) horderly.started_once.not_gt

theorem Safe.kept_eq_zero (hsafe : Safe runs h p) (hc : Counts h p 1)
    (hown : Own 0 (runs (h.starts p))) (hn : NeverLast 0 (runs (h.starts p)))
    (hdvd : UInt32.size ∣ kept 0 (runs (h.starts p))) : kept 0 (runs (h.starts p)) = 0 := by
  obtain ⟨depth, hsafe⟩ := hsafe
  obtain ⟨u, r, t, hu, ht, horderly⟩ := hsafe (depth + 1) (Nat.le_succ _)
  obtain ⟨u', hu', hcu, -⟩ :=
    runDestructor_own runs depth hown hn (counts_started hc runs)
  cases hu.symm.trans hu'
  have hrun := derefOwn_run hc hu hcu
  rw [if_pos hdvd] at hrun
  cases ht.symm.trans hrun
  by_contra hne
  exact freed_not_alive (horderly.kept_alive (Nat.pos_of_ne_zero hne))

/-- An object whose destructor refers to it is destroyed in order exactly when the destructor
gives back none of the references it takes as the last, and does not wrap the counter. -/
theorem reentrant_safe_iff (hc : Counts h p 1) (hown : Own 0 (runs (h.starts p))) :
    Safe runs h p ↔ NeverLast 0 (runs (h.starts p)) ∧
      (UInt32.size ∣ kept 0 (runs (h.starts p)) → kept 0 (runs (h.starts p)) = 0) := by
  constructor
  · intro hsafe
    have hn := hsafe.neverLast hc hown
    exact ⟨hn, hsafe.kept_eq_zero hc hown hn⟩
  · rintro ⟨hn, hzero⟩
    exact safe_of hc hown hn hzero

/-! A destructor that always makes the same calls -/

def SameDestructors (h t : Heap) : Prop := ∀ q, (t.objs q).dh = (h.objs q).dh

theorem sameDestructors_frame : Frame SameDestructors where
  refl _ _ := rfl
  trans _ _ _ h₁ h₂ q := (h₂ q).trans (h₁ q)
  record _ _ _ := rfl
  write h q f hf x := by
    by_cases hx : x = q
    · rw [hx, setObj_self, hf]
    · rw [setObj_of_ne hx]

theorem readHeader_eq {g : MemHeader → α} {a : α} (hrun : (readHeader p g).run h = .ok (a, t)) :
    a = g (h.objs p) := by
  have hread : ∃ t', (readHeader p g).run h = .ok (g (h.objs p), t') := by
    by_cases ha : h.Alive p
    · exact ⟨h, readHeader_run g ha⟩
    · exact ⟨h.record (.late p), by simp [readHeader, touch, ha]⟩
  obtain ⟨t', hread⟩ := hread
  cases hread.symm.trans hrun
  rfl

theorem runDestructor_congr {deref' : Ptr → Proc (Option Ptr)} {rest : List Action}
    (hd : ∀ h, (h.objs p).dh = some calls → (deref p).run h = (deref' p).run h)
    (hkeep : ∀ q, Along SameDestructors (deref' q)) (hown : Own n rest)
    (hdh : (h.objs p).dh = some calls) :
    (runDestructor deref p rest).run h = (runDestructor deref' p rest).run h := by
  induction rest generalizing h n with
  | nil => rfl
  | cons a rest ih =>
    cases a with
    | refSelf =>
      refine run_bind_congr rfl fun r t hrun => ih hown ?_
      rw [sameDestructors_frame.memRef h r t hrun p, hdh]
    | derefSelf =>
      refine run_bind_congr (hd h hdh) fun r t hrun => ih hown.2 ?_
      rw [hkeep p h r t hrun p, hdh]
    | deref q => exact hown.elim

theorem derefBody_congr {deref' : Ptr → Proc (Option Ptr)}
    (hd : ∀ h, (h.objs p).dh = some calls → (deref p).run h = (deref' p).run h)
    (hkeep : ∀ q, Along SameDestructors (deref' q)) (hown : Own 0 calls)
    (hdh : (h.objs p).dh = some calls) :
    (derefBody deref p).run h = (derefBody deref' p).run h := by
  have hframe := sameDestructors_frame
  refine run_bind_congr rfl fun magic h₁ hr₁ => ?_
  have hdh₁ := (hframe.readHeader _ _ _ _ hr₁ p).trans hdh
  split
  · rfl
  refine run_bind_congr rfl fun _ h₂ hr₂ => ?_
  have hdh₂ := (hframe.writeHeader (f := .drop) (fun _ => rfl) _ _ _ hr₂ p).trans hdh₁
  refine run_bind_congr rfl fun nbRefs h₃ hr₃ => ?_
  have hdh₃ := (hframe.readHeader _ _ _ _ hr₃ p).trans hdh₂
  split
  · rfl
  refine run_bind_congr rfl fun dh h₄ hr₄ => ?_
  have hdh₄ := (hframe.readHeader _ _ _ _ hr₄ p).trans hdh₃
  obtain rfl : dh = some calls := (readHeader_eq hr₄).trans hdh₃
  refine run_bind_congr rfl fun _ h₅ hr₅ => ?_
  cases hr₅
  exact run_bind_congr (runDestructor_congr hd hkeep hown hdh₄) fun _ _ _ => rfl

theorem derefOwn_const (hown : Own 0 calls) (hdh : (h.objs p).dh = some calls) :
    (derefOwn (fun _ => calls) fuel p).run h = (derefObj fuel p).run h := by
  induction fuel generalizing h with
  | zero => rfl
  | succ fuel ih =>
    have harmed : h.armed (fun _ => calls) p = h := by
      unfold Heap.armed Heap.setObj
      simp only [← hdh, Function.update_eq_self]
    rw [derefOwn_succ_run, harmed]
    have hbody := derefBody_congr (fun h hdh => ih hdh)
      (sameDestructors_frame.derefObj fuel) hown hdh
    exact run_bind_congr hbody fun _ _ _ => rfl

theorem runDestructor_endless (hown : Own n calls) (hn : ¬ NeverLast n calls) (hc : Counts h p n)
    (hend : ∀ h m, Counts h p (m + 1) → UInt32.size ∣ m →
      (derefOwn runs fuel p).run h = .error .outOfFuel) :
    (runDestructor (derefOwn runs fuel) p calls).run h = .error .outOfFuel := by
  induction calls generalizing h n with
  | nil => exact absurd trivial hn
  | cons a calls ih =>
    cases a with
    | refSelf =>
      have hrun := ih hown hn hc.addRef
      simp only [runDestructor, StateT.run_bind, memRef_run hc.alive hc.magic, Proc.ok_bind, hrun]
    | derefSelf =>
      obtain ⟨hpos, hown⟩ := hown
      obtain ⟨n, rfl⟩ := Nat.exists_eq_succ_of_ne_zero hpos.ne'
      by_cases hlast : UInt32.size ∣ n
      · simp only [runDestructor, StateT.run_bind, hend h n hc hlast, Proc.error_bind]
      · cases fuel with
        | zero => rfl
        | succ fuel =>
          obtain ⟨t, hkept, ht, -⟩ := derefOwn_kept runs fuel hc hlast
          have hn' : ¬ NeverLast n calls := fun h => hn ⟨hlast, h⟩
          simp only [runDestructor, StateT.run_bind, hkept, Proc.ok_bind, ih hown hn' ht]
    | deref q => exact hown.elim

theorem derefOwn_endless (hown : Own 0 calls) (hn : ¬ NeverLast 0 calls) :
    ∀ h m, Counts h p (m + 1) → UInt32.size ∣ m →
      (derefOwn (fun _ => calls) fuel p).run h = .error .outOfFuel := by
  induction fuel with
  | zero => exact fun _ _ _ _ => rfl
  | succ fuel ih =>
    intro h m hc hm
    have hstarted := counts_started hc fun _ => calls
    have hzero : Counts ((h.armed (fun _ => calls) p).started p) p 0 :=
      ⟨hstarted.alive, hstarted.magic, hstarted.refs.trans (ofNat_eq_zero_iff.2 hm)⟩
    have hrun := runDestructor_endless hown hn hzero ih
    rw [derefOwn_last hc hm]
    simp only [StateT.run_bind, hrun, Proc.error_bind]

theorem derefObj_endless (hown : Own 0 calls) (hn : ¬ NeverLast 0 calls) (hc : Counts h p 1)
    (hdh : (h.objs p).dh = some calls) : (derefObj fuel p).run h = .error .outOfFuel := by
  rw [← derefOwn_const hown hdh]
  exact derefOwn_endless hown hn h 0 hc (Nat.dvd_zero _)

def onceOwn : Nat → List Action
  | 0 => [.refSelf, .derefSelf]
  | _ => []

theorem reentrant_safe_iff_kept :
    Safe (fun _ => [.refSelf]) (Heap.init.allocated 4 (some [])) 0 ↔ NeverLast 0 [.refSelf] ∧
      (UInt32.size ∣ kept 0 [.refSelf] → kept 0 [.refSelf] = 0) :=
  reentrant_safe_iff ⟨rfl, rfl, rfl⟩ trivial

theorem not_reentrant_safe_once : ∃ h t,
    (memAlloc true 4 (some [])).run .init = .ok (some 0, h) ∧
    (derefOwn onceOwn 2 0).run h = .ok (none, t) ∧
    t.trace = [.returned 0 none, .free 0, .late 0, .late 0, .returned 0 none, .free 0,
      .destruct 0, .destruct 0] ∧ ¬ Safe onceOwn h 0 := by
  refine ⟨_, _, rfl, rfl, by decide, fun hsafe => ?_⟩
  have hn := hsafe.neverLast ⟨rfl, rfl, rfl⟩ ⟨Nat.one_pos, trivial⟩
  exact hn.1 (Nat.dvd_zero _)

end Evsip.Mem
