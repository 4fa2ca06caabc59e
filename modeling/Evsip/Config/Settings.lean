import Evsip.Config.Parse
import Mathlib.Data.List.Find

/-! What a file sets. Each accepted line is an assignment, a file is the list of them, and a
string option keeps what fits in its array. -/

namespace Evsip.Config
open CLib

/-- The values of the options: strings as they are read, numbers as they are. -/
structure Options where
  string : StringOption → List UInt8
  integer : IntOption → Int

def ConfigCtx.options (c : ConfigCtx) : Options := ⟨fun o => (c.string o).text, c.integer⟩

def slotName : Slot → List UInt8
  | .string64 .localIpAddress => bytes "local_ip_address"
  | .string64 .userAgent => bytes "user_agent"
  | .integer .localPort => bytes "local_port"
  | .integer .maxRegExpires => bytes "max_reg_expire"
  | .integer .minRegExpires => bytes "min_reg_expire"

def Options.put (v : Options) (value : List UInt8) : Slot → Options
  | .string64 o => { v with string := fun o' => if o' = o then value.take 64 else v.string o' }
  | .integer o => { v with integer := fun o' => if o' = o then atoi value else v.integer o' }

def Options.get (v : Options) : Slot → List UInt8 ⊕ Int
  | .string64 o => .inl (v.string o)
  | .integer o => .inr (v.integer o)

/-- What the value of a line becomes as the value of the option. -/
def Slot.read (value : List UInt8) : Slot → List UInt8 ⊕ Int
  | .string64 _ => .inl (value.take 64)
  | .integer _ => .inr (atoi value)

def slotOf (name : List UInt8) : Option Slot :=
  (configMapping.find? fun m => m.1 = name).map Prod.snd

def Options.set (v : Options) (e : List UInt8 × List UInt8) : Options :=
  match slotOf e.1 with
  | none => v
  | some slot => v.put e.2 slot

def entries (content : Option (List UInt8)) : List (List UInt8 × List UInt8) :=
  match content with
  | none => []
  | some content => (fgetsChunks [] content).filterMap lineEntry

def lastValue (name : List UInt8) (es : List (List UInt8 × List UInt8)) : Option (List UInt8) :=
  (es.filter fun e => e.1 = name).getLast?.map Prod.snd

variable {st : Parser} {p n v : Nat} {s name value chunk : List UInt8} {line : List UInt8}
  {beyond : Nat → UInt8} {slot : Slot}

theorem slotOf_slotName : slotOf (slotName slot) = some slot := by
  rcases slot with o | o <;> cases o <;> decide

theorem slotOf_eq_some_iff : slotOf name = some slot ↔ name = slotName slot := by
  constructor
  · intro h
    obtain ⟨m, hm, rfl⟩ := Option.map_eq_some_iff.1 h
    have hname : m.1 = name := by simpa using List.find?_some hm
    have hall : ∀ m ∈ configMapping, m.1 = slotName m.2 := by decide
    rw [← hname, hall m (List.mem_of_find?_eq_some hm)]
  · rintro rfl
    exact slotOf_slotName

theorem slotName_mem (slot : Slot) : slotName slot ∈ configMapping.map Prod.fst := by
  rcases slot with o | o <;> cases o <;> decide

theorem exists_slotName (h : name ∈ configMapping.map Prod.fst) : ∃ slot, slotName slot = name := by
  obtain ⟨m, hm, rfl⟩ := List.mem_map.1 h
  have hall : ∀ m ∈ configMapping, slotName m.2 = m.1 := by decide
  exact ⟨m.2, hall m hm⟩

/-! Strings of 64 bytes -/

theorem Str64.terminated_iff {s : Str64} : s.Terminated ↔ s.text.length < 64 := by
  have hle : s.text.length ≤ s.bytes.length := (List.takeWhile_prefix _).length_le
  constructor
  · intro h
    refine (hle.trans_eq s.length_eq).lt_of_ne fun heq => ?_
    have hall : s.text = s.bytes := (List.takeWhile_prefix _).eq_of_length (heq.trans s.length_eq.symm)
    have h0 : (0 : UInt8) ∈ s.text := hall ▸ h
    simpa using List.mem_takeWhile_imp h0
  · intro h
    by_contra h0
    have hall : s.text = s.bytes := List.takeWhile_eq_self_iff.2 fun x hx =>
      decide_eq_true (ne_of_mem_of_not_mem hx h0)
    rw [hall, s.length_eq] at h
    exact absurd h (by decide)

theorem Str64.strcpy_text {d : Str64} (h : s.length < 64) (h0 : 0 ∉ s) : (d.strcpy s h).text = s :=
  takeWhile_ne_zero h0

theorem memcpy64_text (h : StrAt line p s) : (memcpy64 line beyond p).text = s.take 64 := by
  obtain ⟨rest, hrest⟩ := h.drop_eq
  have h0 : (0 : UInt8) ∉ s.take 64 := fun hm => h.noNul (List.mem_of_mem_take hm)
  have hbytes : (memcpy64 line beyond p).bytes =
      (s ++ 0 :: rest ++ (List.range 64).map beyond).take 64 := by
    rw [← hrest]
    rfl
  rw [Str64.text, hbytes, List.append_assoc, List.take_append]
  rcases Nat.lt_or_ge s.length 64 with hlt | hge
  · obtain ⟨k, hk⟩ : ∃ k, 64 - s.length = k + 1 := ⟨63 - s.length, by omega⟩
    rw [hk, List.cons_append, List.take_succ_cons, takeWhile_ne_zero h0]
  · rw [Nat.sub_eq_zero_of_le hge, List.take_zero, List.append_nil]
    exact List.takeWhile_eq_self_iff.2 fun x hx => decide_eq_true (ne_of_mem_of_not_mem hx h0)

/-! From lines to assignments -/

theorem cstr_run (h : StrAt st.line p s) :
    (cstr p).run st = pure (s, st.touched p (p + s.length)) := by
  rw [← h.takeWhile_eq]
  rfl

theorem find_mapping (h : 0 ∉ name) :
    (configMapping.find? fun m => strcmp name m.1 = 0) =
      configMapping.find? fun m => m.1 = name := by
  refine List.find?_congr fun m hm => ?_
  have h0 : ∀ m ∈ configMapping, 0 ∉ m.1 := by decide
  simp [strcmp_eq_zero_iff h (h0 m hm), eq_comm]

theorem setString_options (c : ConfigCtx) (o : StringOption) (x : Str64)
    (h : x.text = value.take 64) :
    (c.setString o x).options = c.options.put value (.string64 o) := by
  simp only [ConfigCtx.options, ConfigCtx.setString, Options.put, Options.mk.injEq, and_true]
  funext o'
  split <;> simp [*]

def Parser.assigned (st : Parser) (beyond : Nat → UInt8) (v : Nat) (value : List UInt8) :
    Slot → Parser
  | .string64 o => { st.touched v (v + 63) with
      config := st.config.setString o (memcpy64 st.line beyond v) }
  | .integer o => { st.touched v (v + value.length) with
      config := st.config.setInteger o (atoi value) }

theorem configKeyvalHandler_run (hn : StrAt st.line n name) (hv : StrAt st.line v value) :
    (configKeyvalHandler beyond n v).run st =
      match slotOf name with
      | none => pure (.errorUnknown, st.touched n (n + name.length))
      | some slot =>
        pure (.success, (st.touched n (n + name.length)).assigned beyond v value slot) := by
  have hfind := find_mapping hn.noNul
  rw [slotOf, ← hfind, configKeyvalHandler, StateT.run_bind, cstr_run hn, pure_bind]
  dsimp only
  generalize (configMapping.find? fun m => strcmp name m.1 = 0) = found
  rcases found with _ | ⟨_, o | o⟩
  · rfl
  · rfl
  · have hv' : StrAt (st.touched n (n + name.length)).line v value := hv
    dsimp only
    rw [StateT.run_bind, cstr_run hv', pure_bind]
    rfl

theorem assigned_options (hv : StrAt st.line v value) :
    (st.assigned beyond v value slot).config.options = st.config.options.put value slot := by
  cases slot with
  | string64 o => exact setString_options _ _ _ (memcpy64_text hv)
  | integer o => rfl

theorem configKeyvalHandler_options (hn : StrAt st.line n name) (hv : StrAt st.line v value) :
    ((configKeyvalHandler beyond n v).run st).2.config.options =
      st.config.options.set (name, value) := by
  rw [configKeyvalHandler_run hn hv, Options.set]
  cases slotOf name with
  | none => rfl
  | some slot =>
    have hv' : StrAt (st.touched n (n + name.length)).line v value := hv
    exact assigned_options hv'

theorem parseLine_options {text : List UInt8} (h : StrAt st.line 0 text) :
    ((parseLine beyond).run st).2.config.options =
      ((entryOf (stripStart (stripEnd text))).toList).foldl Options.set st.config.options := by
  obtain ⟨hnone, hsome⟩ := parseLine_run beyond h
  rcases he : entryOf (stripStart (stripEnd text)) with _ | ⟨name, value⟩
  · rw [hnone he]
    rfl
  · obtain ⟨st', n, v, hname, hvalue, hconfig, hrun⟩ := hsome name value he
    rw [hrun, configKeyvalHandler_options hname hvalue, hconfig]
    rfl

theorem parseLoop_options (beyond : Nat → Nat → UInt8) (n : Nat) (chunks : List (List UInt8)) :
    ((parseLoop beyond n chunks).run st).2.config.options =
      (chunks.filterMap lineEntry).foldl Options.set st.config.options := by
  induction chunks generalizing st n with
  | nil => rfl
  | cons chunk chunks ih =>
    rw [parseLoop, StateT.run_bind, fill_run, pure_bind, StateT.run_bind]
    refine (ih (n + 1)).trans ?_
    rw [parseLine_options filled_strAt, ← List.foldl_append]
    congr 1
    rw [List.filterMap_cons, lineEntry]
    cases entryOf (stripStart (stripEnd (chunk.takeWhile (· ≠ 0)))) <;> rfl

/-- The file of the configuration opens, with this content. -/
def Opens (fopen : CString → Option (List UInt8)) (c : ConfigCtx) (content : List UInt8) : Prop :=
  ∃ path, c.filePath = some path ∧ path.bytes ≠ [] ∧ fopen path = some content

theorem configStartParse_run {fopen : CString → Option (List UInt8)} {c : ConfigCtx}
    {content : List UInt8} (h : Opens fopen c content) (beyond : Nat → Nat → UInt8) :
    configStartParse fopen beyond c = (.success,
      ((parseLoop beyond 1 (fgetsChunks [] content)).run ⟨.replicate maxLine 0, c, []⟩).2) := by
  obtain ⟨path, hpath, hne, hopen⟩ := h
  rw [configStartParse, hpath]
  dsimp only
  rw [if_neg hne, hopen]

theorem opens_options {fopen : CString → Option (List UInt8)} {c : ConfigCtx}
    {content : List UInt8} (h : Opens fopen c content) (beyond : Nat → Nat → UInt8) :
    (configStartParse fopen beyond c).2.config.options =
      (entries (some content)).foldl Options.set c.options := by
  rw [configStartParse_run h]
  exact parseLoop_options beyond 1 _

theorem options_congr {a b : List UInt8} (h : entries (some a) = entries (some b))
    (beyond beyond' : Nat → Nat → UInt8) (c : ConfigCtx) :
    (configStartParse (fun _ => some a) beyond c).2.config.options =
      (configStartParse (fun _ => some b) beyond' c).2.config.options := by
  rcases hpath : c.filePath with _ | path
  · rw [configStartParse, configStartParse, hpath]
  · by_cases hne : path.bytes = []
    · rw [configStartParse, configStartParse, hpath]
      dsimp only
      rw [if_pos hne, if_pos hne]
    · rw [opens_options ⟨path, hpath, hne, rfl⟩, opens_options ⟨path, hpath, hne, rfl⟩, h]

theorem confPath_ne_nil (path : Option CString) : (confPath path).bytes ≠ [] := by
  rcases path with _ | path
  · decide
  · rw [confPath]
    split
    · decide
    · assumption

theorem opens_init (c : ConfigCtx) (path : Option CString) (content : List UInt8) :
    Opens (fun _ => some content) (configInit c path).2 content :=
  ⟨confPath path, rfl, confPath_ne_nil path, rfl⟩

theorem configStartParse_options (fopen : CString → Option (List UInt8))
    (beyond : Nat → Nat → UInt8) (c : ConfigCtx) (path : Option CString) :
    (configStartParse fopen beyond (configInit c path).2).2.config.options =
      (entries (fopen (confPath path))).foldl Options.set (configInit c path).2.options := by
  rcases hopen : fopen (confPath path) with _ | content
  · have hfile : (configInit c path).2.filePath = some (confPath path) := rfl
    rw [configStartParse, hfile]
    dsimp only
    rw [if_neg (confPath_ne_nil path), hopen]
    rfl
  · exact opens_options ⟨_, rfl, confPath_ne_nil path, hopen⟩ beyond

/-! The last assignment -/

theorem slotName_injective : Function.Injective slotName := fun _ _ h =>
  Option.some.inj (slotOf_slotName.symm.trans ((congrArg slotOf h).trans slotOf_slotName))

theorem put_get (x : Options) (slot slot' : Slot) :
    (x.put value slot').get slot = if slot' = slot then slot.read value else x.get slot := by
  rcases slot' with o' | o' <;> rcases slot with o | o
  · simp only [Options.put, Options.get, Slot.read, Slot.string64.injEq, eq_comm (a := o)]
    split <;> rfl
  · rfl
  · rfl
  · simp only [Options.put, Options.get, Slot.read, Slot.integer.injEq, eq_comm (a := o)]
    split <;> rfl

theorem set_get (x : Options) (e : List UInt8 × List UInt8) (slot : Slot) :
    (x.set e).get slot = if e.1 = slotName slot then slot.read e.2 else x.get slot := by
  unfold Options.set
  rcases hs : slotOf e.1 with _ | slot'
  · have hne : e.1 ≠ slotName slot := fun h => by
      rw [slotOf_eq_some_iff.2 h] at hs
      cases hs
    rw [if_neg hne]
  · have he := slotOf_eq_some_iff.1 hs
    simp only [he, slotName_injective.eq_iff]
    exact put_get x slot slot'

theorem lastValue_append_singleton (es : List (List UInt8 × List UInt8))
    (e : List UInt8 × List UInt8) :
    lastValue name (es ++ [e]) = if e.1 = name then some e.2 else lastValue name es := by
  rw [lastValue, List.filter_append]
  by_cases he : e.1 = name <;> simp [he, lastValue]

theorem foldl_set_get (es : List (List UInt8 × List UInt8)) (x : Options) (slot : Slot) :
    (es.foldl Options.set x).get slot =
      ((lastValue (slotName slot) es).map slot.read).getD (x.get slot) := by
  induction es using List.reverseRecOn with
  | nil => rfl
  | append_singleton es e ih =>
    rw [List.foldl_append, List.foldl_cons, List.foldl_nil, set_get, lastValue_append_singleton, ih]
    split <;> rfl

theorem foldl_set_string (es : List (List UInt8 × List UInt8)) (x : Options) (o : StringOption) :
    (es.foldl Options.set x).string o =
      ((lastValue (slotName (.string64 o)) es).map (·.take 64)).getD (x.string o) := by
  have h := foldl_set_get es x (.string64 o)
  rcases hlast : lastValue (slotName (.string64 o)) es with _ | v
  · rw [hlast] at h
    exact Sum.inl.inj h
  · rw [hlast] at h
    exact Sum.inl.inj h

theorem foldl_set_integer (es : List (List UInt8 × List UInt8)) (x : Options) (o : IntOption) :
    (es.foldl Options.set x).integer o =
      ((lastValue (slotName (.integer o)) es).map atoi).getD (x.integer o) := by
  have h := foldl_set_get es x (.integer o)
  rcases hlast : lastValue (slotName (.integer o)) es with _ | v
  · rw [hlast] at h
    exact Sum.inr.inj h
  · rw [hlast] at h
    exact Sum.inr.inj h

theorem get_injective {x y : Options} (h : ∀ slot, x.get slot = y.get slot) : x = y := by
  obtain ⟨xs, xi⟩ := x
  obtain ⟨ys, yi⟩ := y
  congr 1
  · funext o
    exact Sum.inl.inj (h (.string64 o))
  · funext o
    exact Sum.inr.inj (h (.integer o))

theorem exists_get_ne (slot : Slot) (x : List UInt8 ⊕ Int) :
    ∃ c : ConfigCtx, c.filePath = some defFile ∧ c.options.get slot ≠ x := by
  let other : ConfigCtx := ⟨some defFile, fun _ => ⟨.replicate 64 65, rfl⟩, fun _ => 1⟩
  have hne : (configInit .zero none).2.options.get slot ≠ other.options.get slot := by
    rcases slot with o | o <;> cases o <;> decide
  rcases ne_or_eq ((configInit .zero none).2.options.get slot) x with h | h
  · exact ⟨_, rfl, h⟩
  · exact ⟨other, rfl, h ▸ hne.symm⟩

end Evsip.Config
