import Evsip.Config.Grammar
import Mathlib.Data.List.GetD

/-! The parser on the buffer does what the grammar says of the string in it. -/

namespace Evsip.Config
open CLib

/-- `parsePair` up to the call of the handler: where the value starts. -/
def pairValue (start sep : Nat) : Proc Nat := do
  store sep 0
  configRstrip start
  let value ← configLstrip (sep + 1)
  cutComment value
  configRstrip value
  return value

/-- `parseLine` up to the call of the handler: where its arguments start. -/
def lineCall : Proc (Option (Nat × Nat)) := do
  configRstrip 0
  let start ← configLstrip 0
  let c ← load start
  if c ≠ 0 ∧ c ≠ 59 then
    let sep ← findSep start
    let c ← load sep
    if c = 61 ∨ c = 58 then
      let value ← pairValue start sep
      return some (start, value)
    else return none
  else return none

def handle (beyond : Nat → UInt8) : Option (Nat × Nat) → Proc Unit
  | none => return ()
  | some (name, value) => do
    let _ ← configKeyvalHandler beyond name value

variable {st st' st'' : Parser} {p m n lo hi : Nat} {s t text name value : List UInt8} {c : UInt8}
  {beyond : Nat → UInt8}

theorem parseLine_eq (beyond : Nat → UInt8) : parseLine beyond = (do handle beyond (← lineCall)) := by
  unfold parseLine lineCall
  simp only [bind_assoc]
  congr 1
  funext _
  congr 1
  funext start
  congr 1
  funext c
  split
  · simp only [bind_assoc]
    congr 1
    funext sep
    congr 1
    funext c
    split
    · simp only [bind_assoc, pure_bind, handle, parsePair, pairValue]
    · rfl
  · rfl

namespace Parser

def touched (st : Parser) (lo hi : Nat) : Parser := { st with trace := (lo, hi) :: st.trace }

def stored (st : Parser) (i : Nat) (c : UInt8) : Parser :=
  { st.touched i i with line := st.line.set i c }

def rstripped (st : Parser) (p : Nat) : Parser :=
  { st.touched p (p + strlen (st.line.drop p)) with
    line := rstripLoop p (strlen (st.line.drop p)) st.line }

def filled (st : Parser) (chunk : List UInt8) : Parser :=
  { st.touched 0 chunk.length with line := chunk ++ 0 :: st.line.drop (chunk.length + 1) }

@[simp] theorem touched_line (lo hi : Nat) : (st.touched lo hi).line = st.line := rfl
@[simp] theorem touched_config (lo hi : Nat) : (st.touched lo hi).config = st.config := rfl
@[simp] theorem stored_config (i : Nat) : (st.stored i c).config = st.config := rfl
@[simp] theorem rstripped_config : (st.rstripped p).config = st.config := rfl
@[simp] theorem filled_config : (st.filled s).config = st.config := rfl

end Parser

theorem fill_run : (fill s).run st = pure ((), st.filled s) := rfl

theorem filled_strAt : StrAt (st.filled s).line 0 (s.takeWhile (· ≠ 0)) := strAt_of_zero _

theorem load_run (i : Nat) : (load i).run st = pure (st.line.getD i 0, st.touched i i) := rfl

theorem store_run (i : Nat) : (store i c).run st = pure ((), st.stored i c) := rfl

theorem configRstrip_run : (configRstrip p).run st = pure ((), st.rstripped p) := rfl

theorem configLstrip_run : (configLstrip p).run st = pure (p + lstripLoop (st.line.drop p),
    st.touched p (p + lstripLoop (st.line.drop p))) := rfl

theorem configFindChar_run : (configFindChar p c).run st =
    pure (p + findCharLoop c false (st.line.drop p),
      st.touched p (p + findCharLoop c false (st.line.drop p))) := rfl

theorem rstripped_strAt (h : StrAt st.line p s) : StrAt (st.rstripped p).line p (stripEnd s) := by
  rw [Parser.rstripped, strlen_eq h]
  exact rstrip_strAt h

theorem stripEnd_length_le : (stripEnd s).length ≤ s.length := (List.rdropWhile_prefix _ _).length_le

/-- Up to the handler nothing is set, and nothing behind index `n` is looked at. -/
structure Quiet (n : Nat) (st st' : Parser) : Prop where
  config_eq : st'.config = st.config
  trace_eq : ∃ new, st'.trace = new ++ st.trace ∧ ∀ a ∈ new, a.2 ≤ n

namespace Quiet

theorem trans (h : Quiet n st st') (h' : Quiet n st' st'') : Quiet n st st'' := by
  obtain ⟨new, hnew, hle⟩ := h.trace_eq
  obtain ⟨new', hnew', hle'⟩ := h'.trace_eq
  refine ⟨h'.config_eq.trans h.config_eq, new' ++ new, ?_, ?_⟩
  · rw [hnew', hnew, List.append_assoc]
  · exact List.forall_mem_append.2 ⟨hle', hle⟩

theorem mono (h : Quiet m st st') (hm : m ≤ n) : Quiet n st st' := by
  obtain ⟨new, hnew, hle⟩ := h.trace_eq
  exact ⟨h.config_eq, new, hnew, fun a ha => (hle a ha).trans hm⟩

theorem touched (hhi : hi ≤ n) : Quiet n st (st.touched lo hi) :=
  ⟨rfl, [(lo, hi)], rfl, by simpa⟩

theorem stored (hp : p ≤ n) : Quiet n st (st.stored p c) := ⟨rfl, [(p, p)], rfl, by simpa⟩

theorem rstripped (h : StrAt st.line p s) (hs : p + s.length ≤ n) : Quiet n st (st.rstripped p) :=
  ⟨rfl, [(p, p + strlen (st.line.drop p))], rfl, by simpa [strlen_eq h]⟩

theorem filled (hs : s.length ≤ n) : Quiet n st (st.filled s) := ⟨rfl, [(0, s.length)], rfl, by simpa⟩

end Quiet

theorem cutComment_run (h : StrAt st.line p s) : ∃ st', (cutComment p).run st = pure ((), st') ∧
    StrAt st'.line p (s.take (findCharLoop 0 false s)) ∧ Quiet (p + s.length) st st' ∧
    ∀ q t, StrAt st.line q t → q + t.length < p → StrAt st'.line q t := by
  have hle : findCharLoop 0 false s ≤ s.length := findCharLoop_le
  have hget : st.line.getD (p + findCharLoop 0 false s) 0 = s.getD (findCharLoop 0 false s) 0 :=
    h.getD_add hle
  have hquiet : Quiet (p + s.length) st ((st.touched p (p + findCharLoop 0 false s)).touched
      (p + findCharLoop 0 false s) (p + findCharLoop 0 false s)) :=
    (Quiet.touched (by omega)).trans (Quiet.touched (by omega))
  simp only [cutComment, StateT.run_bind, configFindChar_run, pure_bind, load_run, findChar_strAt h,
    Parser.touched_line, hget]
  by_cases hc : s.getD (findCharLoop 0 false s) 0 = 59
  · have hlt : findCharLoop 0 false s < s.length := by
      refine hle.lt_of_ne fun heq => ?_
      rw [heq, List.getD_eq_default _ _ le_rfl] at hc
      exact absurd hc (by decide)
    rw [if_pos hc, store_run]
    exact ⟨_, rfl, h.cut_take hlt, hquiet.trans (Quiet.stored (by omega)),
      fun q t hq hlt => hq.set_after (by omega)⟩
  · rw [if_neg hc]
    refine ⟨_, rfl, ?_, hquiet, fun q t hq _ => hq⟩
    rw [findCharLoop_zero h.noNul hc, List.take_length]
    exact h

theorem pairValue_run (h : StrAt st.line p t) {k : Nat} (hk : k < t.length) :
    ∃ st', (pairValue p (p + k)).run st = pure (p + k + 1 + lead (t.drop (k + 1)), st') ∧
      Quiet (p + t.length) st st' ∧ StrAt st'.line p (stripEnd (t.take k)) ∧
      StrAt st'.line (p + k + 1 + lead (t.drop (k + 1))) (valueOf (t.drop (k + 1))) := by
  have hlen : (t.take k).length = k := List.length_take_of_le hk.le
  have hcut : StrAt (st.stored (p + k) 0).line p (t.take k) := h.cut_take hk
  have hname := rstripped_strAt hcut
  have hname_le : (stripEnd (t.take k)).length ≤ k := stripEnd_length_le.trans_eq hlen
  have hquiet : Quiet (p + t.length) st ((st.stored (p + k) 0).rstripped p) :=
    (Quiet.stored (by omega)).trans (Quiet.rstripped hcut (by omega))
  have hvalue : StrAt ((st.stored (p + k) 0).rstripped p).line (p + k + 1) (t.drop (k + 1)) := by
    refine rstrip_after (h.cut_drop hk) ?_
    rw [strlen_eq hcut, hlen]
    exact Nat.le_succ _
  have hlead : lead (t.drop (k + 1)) + (stripStart (t.drop (k + 1))).length = t.length - (k + 1) :=
    lead_add_length.trans List.length_drop
  have hlstrip := lstrip_strAt hvalue
  have hrun : (configLstrip (p + k + 1)).run ((st.stored (p + k) 0).rstripped p) = _ :=
    configLstrip_run
  rw [lstripLoop_strAt hvalue] at hrun
  -- from here on only where the value starts matters, not how far it was moved
  generalize hv : p + k + 1 + lead (t.drop (k + 1)) = v at hlstrip hrun ⊢
  have hstripped : StrAt (((st.stored (p + k) 0).rstripped p).touched (p + k + 1) v).line v
      (stripStart (t.drop (k + 1))) := hlstrip
  obtain ⟨st', hcutrun, hcomment, hcutquiet, hframe⟩ := cutComment_run hstripped
  have hname' : StrAt st'.line p (stripEnd (t.take k)) := hframe p _ hname (by omega)
  have htake : ((stripStart (t.drop (k + 1))).take
      (findCharLoop 0 false (stripStart (t.drop (k + 1))))).length ≤
        (stripStart (t.drop (k + 1))).length := List.length_take_le' _ _
  have hend : v + (stripStart (t.drop (k + 1))).length = p + t.length := by omega
  rw [hend] at hcutquiet
  refine ⟨st'.rstripped v, ?_, ((hquiet.trans (Quiet.touched (by omega))).trans hcutquiet).trans
    (Quiet.rstripped hcomment (by omega)), rstrip_before hname' (by omega),
    rstripped_strAt hcomment⟩
  simp only [pairValue, StateT.run_bind, store_run, pure_bind, configRstrip_run, hrun, hcutrun]
  rfl

theorem sepPos_le : sepPos t ≤ t.length := by
  unfold sepPos
  split <;> exact findCharLoop_le

theorem findSep_run (h : StrAt st.line p t) : ∃ st', (findSep p).run st = pure (p + sepPos t, st') ∧
    st'.line = st.line ∧ Quiet (p + t.length) st st' := by
  have hget : st.line.getD (p + findCharLoop 61 false t) 0 = t.getD (findCharLoop 61 false t) 0 :=
    h.getD_add findCharLoop_le
  have hle : ∀ c, p + findCharLoop c false t ≤ p + t.length := fun c =>
    Nat.add_le_add_left findCharLoop_le p
  simp only [findSep, StateT.run_bind, configFindChar_run, pure_bind, load_run, findChar_strAt h,
    Parser.touched_line, hget]
  by_cases hc : t.getD (findCharLoop 61 false t) 0 = 61
  · rw [if_neg (not_not.2 hc), sepPos, if_pos hc]
    exact ⟨_, rfl, rfl, (Quiet.touched (hle 61)).trans (Quiet.touched (hle 61))⟩
  · rw [if_pos hc, sepPos, if_neg hc, configFindChar_run, Parser.touched_line, Parser.touched_line,
      findChar_strAt h]
    exact ⟨_, rfl, rfl, ((Quiet.touched (hle 61)).trans (Quiet.touched (hle 61))).trans
      (Quiet.touched (hle 58))⟩

theorem head_ordinary_iff (h : 0 ∉ t) :
    (t.getD 0 0 ≠ 0 ∧ t.getD 0 0 ≠ 59) ↔ ¬ (t = [] ∨ t.head? = some 59) := by
  cases t with
  | nil => simp
  | cons c t =>
    have hc : c ≠ 0 := fun h0 => h (by simp [h0])
    simp [hc]

theorem lineCall_run (h : StrAt st.line 0 text) : ∃ st', lineCall.run st = pure
      ((entryOf (stripStart (stripEnd text))).map fun _ => (nameStart text, valueStart text), st') ∧
    Quiet text.length st st' ∧ ∀ name value,
      entryOf (stripStart (stripEnd text)) = some (name, value) →
        StrAt st'.line (nameStart text) name ∧ StrAt st'.line (valueStart text) value := by
  have hstripped := rstripped_strAt h
  have hstart : StrAt (st.rstripped 0).line (nameStart text) (stripStart (stripEnd text)) :=
    Nat.zero_add (nameStart text) ▸ lstrip_strAt hstripped
  have hend : nameStart text + (stripStart (stripEnd text)).length ≤ text.length :=
    lead_add_length.trans_le stripEnd_length_le
  have hrun : (configLstrip 0).run (st.rstripped 0) =
      pure (nameStart text, (st.rstripped 0).touched 0 (nameStart text)) := by
    rw [configLstrip_run, lstripLoop_strAt hstripped, Nat.zero_add, nameStart]
  have hquiet : Quiet text.length st (((st.rstripped 0).touched 0 (nameStart text)).touched
      (nameStart text) (nameStart text)) :=
    ((Quiet.rstripped h (by omega)).trans (Quiet.touched (by omega))).trans
      (Quiet.touched (by omega))
  unfold valueStart
  generalize nameStart text = p at *
  generalize stripStart (stripEnd text) = t at *
  have hhead : (st.rstripped 0).line.getD p 0 = t.getD 0 0 := hstart.getD_add (Nat.zero_le _)
  simp only [lineCall, StateT.run_bind, configRstrip_run, hrun, pure_bind, load_run,
    Parser.touched_line, hhead, head_ordinary_iff hstart.noNul, entryOf]
  by_cases hskip : t = [] ∨ t.head? = some 59
  · rw [if_neg (not_not.2 hskip), if_pos hskip]
    exact ⟨_, rfl, hquiet, by simp⟩
  · have hseen : StrAt (((st.rstripped 0).touched 0 p).touched p p).line p t := hstart
    obtain ⟨st₁, hsep, hline, hsepquiet⟩ := findSep_run hseen
    have hlooked : StrAt (st₁.touched (p + sepPos t) (p + sepPos t)).line p t := hline ▸ hstart
    have hchar : st₁.line.getD (p + sepPos t) 0 = t.getD (sepPos t) 0 := hlooked.getD_add sepPos_le
    have hle : sepPos t ≤ t.length := sepPos_le
    have hquiet₁ : Quiet text.length st (st₁.touched (p + sepPos t) (p + sepPos t)) :=
      (hquiet.trans (hsepquiet.mono hend)).trans (Quiet.touched (by omega))
    rw [if_pos hskip, if_neg hskip]
    simp only [StateT.run_bind, hsep, pure_bind, load_run, hchar]
    by_cases hc : t.getD (sepPos t) 0 = 61 ∨ t.getD (sepPos t) 0 = 58
    · have hlt : sepPos t < t.length := by
        refine hle.lt_of_ne fun heq => ?_
        rw [heq, List.getD_eq_default _ _ le_rfl] at hc
        exact absurd hc (by decide)
      rw [if_pos hc, if_pos hc]
      obtain ⟨st', hpair, hpairquiet, hname, hvalue⟩ := pairValue_run hlooked hlt
      refine ⟨st', ?_, hquiet₁.trans (hpairquiet.mono hend), fun name value he => ?_⟩
      · rw [StateT.run_bind, hpair]
        rfl
      · obtain ⟨rfl, rfl⟩ := Prod.mk.inj (Option.some.inj he)
        exact ⟨hname, hvalue⟩
    · rw [if_neg hc, if_neg hc]
      exact ⟨_, rfl, hquiet₁, by simp⟩

variable (beyond) in
theorem parseLine_run (h : StrAt st.line 0 text) :
    (entryOf (stripStart (stripEnd text)) = none →
      ((parseLine beyond).run st).2.config = st.config) ∧
    (∀ name value, entryOf (stripStart (stripEnd text)) = some (name, value) →
      ∃ st' n v, StrAt st'.line n name ∧ StrAt st'.line v value ∧ st'.config = st.config ∧
        ((parseLine beyond).run st).2 = ((configKeyvalHandler beyond n v).run st').2) := by
  obtain ⟨st', hrun, hquiet, hargs⟩ := lineCall_run h
  rw [parseLine_eq, StateT.run_bind, hrun, pure_bind]
  constructor
  · intro he
    rw [he]
    exact hquiet.config_eq
  · intro name value he
    rw [he]
    exact ⟨st', nameStart text, valueStart text, (hargs name value he).1, (hargs name value he).2,
      hquiet.config_eq, rfl⟩

end Evsip.Config
