import Evsip.Config.Calls

/-! A file of short lines: each option has the value its last line gives it. -/

namespace Evsip.Config
open CLib

/-- At most 126 bytes before the newline, none of them NUL. -/
def ShortLine (l : List UInt8) : Prop := (l.takeWhile (· ≠ 10)).length ≤ 126 ∧ 0 ∉ l

instance (l : List UInt8) : Decidable (ShortLine l) := inferInstanceAs (Decidable (_ ∧ _))

/-- The names the handler is called with when the line is read alone. -/
def handedNames (c : ConfigCtx) (l : List UInt8) : List (List UInt8) :=
  ((passes (fun _ _ => 0) 1 (fgetsChunks [] l)).run ⟨.replicate maxLine 0, c, []⟩).1.filterMap
    (Option.map Call.nameText)

/-- The names and the values. -/
def handed (c : ConfigCtx) (l : List UInt8) : List (List UInt8 × List UInt8) :=
  ((passes (fun _ _ => 0) 1 (fgetsChunks [] l)).run ⟨.replicate maxLine 0, c, []⟩).1.filterMap
    (Option.map Call.strings)

def acceptedFor (c : ConfigCtx) (slot : Slot) (l : List UInt8) : Bool :=
  slotName slot ∈ handedNames c l

/-- White space only, a comment, no separator, or an unknown name. -/
def Idle (c : ConfigCtx) (l : List UInt8) : Prop :=
  stripStart l = [] ∨ (stripStart l).head? = some 59 ∨ 61 ∉ l ∧ 58 ∉ l ∨
    ∀ name ∈ handedNames c l, name ∉ configMapping.map Prod.fst

variable {c : ConfigCtx} {slot slot' : Slot} {l content : List UInt8} {ls : List (List UInt8)}
  {fopen : CString → Option (List UInt8)}

theorem fgetsChunks_short (h : IsLine l) (hshort : ShortLine l) : fgetsChunks [] l = [l] := by
  have hle : l.length ≤ 127 := by
    obtain ⟨hne, hline⟩ := h
    have hbody : ∀ x ∈ l.dropLast, decide (x ≠ 10) = true := fun x hx =>
      decide_eq_true (ne_of_mem_of_not_mem hx hline)
    have htake := hshort.1
    rw [← List.dropLast_concat_getLast hne, List.takeWhile_append_of_pos hbody,
      List.length_append, List.length_dropLast] at htake
    omega
  rw [fgetsChunks_take h (by decide), List.length_nil, Nat.sub_zero, List.take_of_length_le hle,
    List.drop_of_length_le hle]
  rfl

theorem fgetsChunks_mem (h : ∀ l ∈ physicalLines [] content, ShortLine l) :
    ∀ l ∈ physicalLines [] content, fgetsChunks [] l = [l] := fun l hl =>
  fgetsChunks_short (isLine_of_mem List.not_mem_nil hl) (h l hl)

theorem entries_physicalLines (h : ∀ l ∈ physicalLines [] content, fgetsChunks [] l = [l]) :
    entries (some content) = (physicalLines [] content).filterMap lineEntry := by
  have hall : fgetsChunks [] ([] ++ content) =
      (physicalLines [] content).flatMap (fgetsChunks []) :=
    fgetsChunks_physicalLines List.not_mem_nil
  rw [List.nil_append, List.flatMap_congr h, List.flatMap_singleton'] at hall
  exact congrArg (List.filterMap lineEntry) hall

/-! Accepted lines -/

theorem acceptedFor_iff (h : fgetsChunks [] l = [l]) :
    acceptedFor c slot l ↔ ∃ v, lineEntry l = some (slotName slot, v) := by
  unfold acceptedFor handedNames
  rw [passes_calls, h, List.map_singleton, List.filterMap_cons]
  unfold chunkCall
  rcases lineEntry l with _ | ⟨name, v⟩
  · simp
  · simp [eq_comm]

theorem accepted_unique (h : fgetsChunks [] l = [l]) (ha : acceptedFor c slot l)
    (ha' : acceptedFor c slot' l) : slot = slot' := by
  obtain ⟨v, hv⟩ := (acceptedFor_iff h).1 ha
  obtain ⟨v', hv'⟩ := (acceptedFor_iff h).1 ha'
  rw [hv] at hv'
  exact slotName_injective (Prod.mk.inj (Option.some.inj hv')).1

theorem lastValue_filterMap (h : ∀ l ∈ ls, fgetsChunks [] l = [l]) :
    lastValue (slotName slot) (ls.filterMap lineEntry) =
      (ls.filter (acceptedFor c slot)).getLast?.bind fun l => (lineEntry l).map Prod.snd := by
  induction ls using List.reverseRecOn with
  | nil => rfl
  | append_singleton ls l ih =>
    obtain ⟨hls, hl⟩ := List.forall_mem_append.1 h
    have hl : acceptedFor c slot l ↔ ∃ v, lineEntry l = some (slotName slot, v) :=
      acceptedFor_iff (hl l (List.mem_singleton_self l))
    rw [List.filterMap_append, List.filter_append]
    rcases he : lineEntry l with _ | ⟨name, v⟩
    · have hnot : ¬ acceptedFor c slot l := by simp [hl, he]
      rw [List.filter_cons_of_neg hnot, List.filterMap_cons, he]
      simpa using ih hls
    · rw [List.filterMap_cons, he]
      dsimp only
      rw [List.filterMap_nil, lastValue_append_singleton]
      split_ifs with hname
      · have hacc : acceptedFor c slot l := hl.2 ⟨v, by rw [he, ← hname]⟩
        rw [List.filter_cons_of_pos hacc, List.filter_nil, List.getLast?_concat, Option.bind_some, he]
        rfl
      · have hnot : ¬ acceptedFor c slot l := by simp [hl, he, hname]
        rw [List.filter_cons_of_neg hnot, List.filter_nil, List.append_nil]
        exact ih hls

theorem alone_get (hpath : ∃ path, c.filePath = some path ∧ path.bytes ≠ [])
    (h : fgetsChunks [] l = [l]) (hacc : acceptedFor c slot l) (beyond : Nat → Nat → UInt8) :
    ∃ v, handed c l = [(slotName slot, v)] ∧ lineEntry l = some (slotName slot, v) ∧
      (configStartParse (fun _ => some l) beyond c).2.config.options.get slot = slot.read v := by
  obtain ⟨v, hv⟩ := (acceptedFor_iff h).1 hacc
  obtain ⟨path, hpath, hne⟩ := hpath
  have hopen : Opens (fun _ => some l) c l := ⟨path, hpath, hne, rfl⟩
  have hentries : entries (some l) = [(slotName slot, v)] := by
    rw [entries, h, List.filterMap_cons, hv]
    rfl
  refine ⟨v, (passes_strings 1 _).trans hentries, hv, ?_⟩
  rw [opens_options hopen, hentries, List.foldl_cons, List.foldl_nil, set_get, if_pos rfl]

theorem last_get (hopen : Opens fopen c content)
    (h : ∀ l ∈ physicalLines [] content, ShortLine l) (beyond : Nat → Nat → UInt8) (slot : Slot) :
    (configStartParse fopen beyond c).2.config.options.get slot =
      match ((physicalLines [] content).filter (acceptedFor c slot)).getLast? with
      | none => c.options.get slot
      | some l => (configStartParse (fun _ => some l) beyond c).2.config.options.get slot := by
  have hmem := fgetsChunks_mem h
  rw [opens_options hopen, entries_physicalLines hmem, foldl_set_get,
    lastValue_filterMap (c := c) hmem]
  rcases hlast : ((physicalLines [] content).filter (acceptedFor c slot)).getLast? with _ | l
  · rfl
  · obtain ⟨hl, hacc⟩ := List.mem_filter.1 (List.mem_of_getLast? hlast)
    obtain ⟨path, hpath, hne, -⟩ := hopen
    obtain ⟨v, -, hv, hget⟩ := alone_get ⟨path, hpath, hne⟩ (hmem l hl) hacc beyond
    dsimp only
    rw [hget, Option.bind_some, hv]
    rfl

/-! Lines that change nothing -/

theorem lineEntry_eq_none (h0 : 0 ∉ l) (h : stripStart l = [] ∨ (stripStart l).head? = some 59 ∨
    61 ∉ l ∧ 58 ∉ l) : lineEntry l = none := by
  have htext : l.takeWhile (· ≠ 0) = l :=
    List.takeWhile_eq_self_iff.2 fun x hx => decide_eq_true (ne_of_mem_of_not_mem hx h0)
  have hcomm : stripStart (stripEnd l) = stripEnd (stripStart l) := List.dropWhile_rdropWhile
  rw [lineEntry, htext, hcomm]
  unfold entryOf
  rcases h with h | h | ⟨h61, h58⟩
  · rw [h]
    rfl
  · obtain ⟨r, hr⟩ := List.head?_eq_some_iff.1 h
    have hend : stripEnd (59 :: r) = 59 :: stripEnd r :=
      stripEnd_cons rfl
    rw [hr, hend, if_pos (.inr rfl)]
  · have hsub : ∀ x ∈ stripEnd (stripStart l), x ∈ l := fun x hx =>
      (List.dropWhile_suffix _).subset ((List.rdropWhile_prefix _ _).subset hx)
    have hget : ∀ k, (stripEnd (stripStart l)).getD k 0 ∈ l ∨
        (stripEnd (stripStart l)).getD k 0 = 0 := fun k => by
      rcases Nat.lt_or_ge k (stripEnd (stripStart l)).length with hk | hk
      · left
        rw [List.getD_eq_getElem _ _ hk]
        exact hsub _ (List.getElem_mem hk)
      · exact .inr (List.getD_eq_default _ _ hk)
    have hne : ∀ k, ∀ c : UInt8, c ∉ l → c ≠ 0 → (stripEnd (stripStart l)).getD k 0 ≠ c :=
      fun k c hc h0 heq => (hget k).elim (fun hm => hc (heq ▸ hm)) fun hz => h0 (heq.symm.trans hz)
    split_ifs with hskip hsep
    · rfl
    · exact absurd hsep (not_or.2 ⟨hne _ 61 h61 (by decide), hne _ 58 h58 (by decide)⟩)
    · rfl

theorem not_acceptedFor (h : fgetsChunks [] l = [l]) (h0 : 0 ∉ l) (hidle : Idle c l) :
    ¬ acceptedFor c slot l := by
  intro hacc
  rcases or_assoc.2 (hidle.imp_right or_assoc.2) with hnone | hunknown
  · obtain ⟨v, hv⟩ := (acceptedFor_iff h).1 hacc
    rw [lineEntry_eq_none h0 hnone] at hv
    cases hv
  · exact hunknown _ (of_decide_eq_true hacc) (slotName_mem slot)

/-- Short lines are independent of each other: the last line accepted for an option decides its
value, as it does alone, where the option becomes what is read of the value handed over; idle lines
are accepted for no option and no line for two; and files with the same lines accepted for an option
give it the same value. -/
theorem lines_independent (hopen : Opens fopen c content)
    (h : ∀ l ∈ physicalLines [] content, ShortLine l) (beyond : Nat → Nat → UInt8) :
    (∀ slot, (configStartParse fopen beyond c).2.config.options.get slot =
      match ((physicalLines [] content).filter (acceptedFor c slot)).getLast? with
      | none => c.options.get slot
      | some l => (configStartParse (fun _ => some l) beyond c).2.config.options.get slot) ∧
    (∀ l ∈ physicalLines [] content, ∀ slot, acceptedFor c slot l →
      ∃ v, handed c l = [(slotName slot, v)] ∧
        (configStartParse (fun _ => some l) beyond c).2.config.options.get slot = slot.read v) ∧
    (∀ l ∈ physicalLines [] content, Idle c l → ∀ slot, ¬ acceptedFor c slot l) ∧
    (∀ l ∈ physicalLines [] content, ∀ slot slot', acceptedFor c slot l → acceptedFor c slot' l →
      slot = slot') ∧
    ∀ content', (∀ l ∈ physicalLines [] content', ShortLine l) →
      ∀ slot, (physicalLines [] content').filter (acceptedFor c slot) =
          (physicalLines [] content).filter (acceptedFor c slot) →
        (configStartParse (fun _ => some content') beyond c).2.config.options.get slot =
          (configStartParse fopen beyond c).2.config.options.get slot := by
  have hmem := fgetsChunks_mem h
  refine ⟨last_get hopen h beyond, ?_, ?_, fun l hl slot slot' => accepted_unique (hmem l hl), ?_⟩
  · intro l hl slot hacc
    obtain ⟨path, hpath, hne, -⟩ := hopen
    obtain ⟨v, hv, -, hget⟩ := alone_get ⟨path, hpath, hne⟩ (hmem l hl) hacc beyond
    exact ⟨v, hv, hget⟩
  · exact fun l hl hidle slot => not_acceptedFor (hmem l hl) (h l hl).2 hidle
  · intro content' h' slot hfilter
    obtain ⟨path, hpath, hne, hcontent⟩ := hopen
    have hopen' : Opens (fun _ => some content') c content' := ⟨path, hpath, hne, rfl⟩
    rw [last_get hopen' h' beyond slot,
      last_get ⟨path, hpath, hne, hcontent⟩ h beyond slot, hfilter]

theorem lines_independent_port :
    (configStartParse (fun _ => some (bytes "local_port=1\n;x\nlocal_port=2\n")) (fun _ _ => 0)
        (configInit .zero none).2).2.config.options.get (.integer .localPort) =
      (configStartParse (fun _ => some (bytes "local_port=2\n")) (fun _ _ => 0)
        (configInit .zero none).2).2.config.options.get (.integer .localPort) := by
  have hlast : ((physicalLines [] (bytes "local_port=1\n;x\nlocal_port=2\n")).filter
      (acceptedFor (configInit .zero none).2 (.integer .localPort))).getLast? =
        some (bytes "local_port=2\n") := by decide +kernel
  have h := (lines_independent (opens_init .zero none (bytes "local_port=1\n;x\nlocal_port=2\n"))
    (by decide +kernel) (fun _ _ => 0)).1 (.integer .localPort)
  rwa [hlast] at h

end Evsip.Config
