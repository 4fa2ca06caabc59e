import Evsip.Config.Compose
import Evsip.Config.Dump
import Evsip.Config.Reach
import Evsip.Config.Terminated

/-! What the dump prints of a configuration that came out of a file. A value that was once read is
read the same again, also one that starts like a comment. -/

namespace Evsip.Config
open CLib

/-- A value that is read as it was printed. -/
structure Stable (v : List UInt8) : Prop where
  noNul : 0 ∉ v
  noNewline : 10 ∉ v
  fixed : valueOf v = v

variable {fopen : CString → Option (List UInt8)} {beyond : Nat → Nat → UInt8} {c c₀ : ConfigCtx}
  {content s v w name chunk cur : List UInt8} {b : UInt8} {was : Bool} {n : Nat}
  {slot : Slot} {path : Option CString}

/-! Values are stable -/

theorem findCharLoop_take (h : n ≤ findCharLoop b was s) : findCharLoop b was (s.take n) = n := by
  induction s generalizing n was with
  | nil =>
    obtain rfl : n = 0 := Nat.le_zero.1 h
    rfl
  | cons d s ih =>
    rcases n with _ | n
    · rfl
    · rw [findCharLoop] at h
      rw [List.take_succ_cons, findCharLoop]
      split_ifs at h ⊢
      · rw [ih (Nat.le_of_succ_le_succ h)]
      · cases h

theorem valueOf_sublist : (valueOf s).Sublist s :=
  ((List.rdropWhile_prefix _ _).sublist.trans (List.take_sublist _ _)).trans
    (List.dropWhile_sublist _)

theorem valueOf_valueOf : valueOf (valueOf s) = valueOf s := by
  have htake : ∃ n ≤ findCharLoop 0 false (stripStart s), valueOf s = (stripStart s).take n := by
    have hpre : valueOf s <+: (stripStart s).take _ := List.rdropWhile_prefix _ _
    refine ⟨(valueOf s).length, ?_, List.prefix_iff_eq_take.1 (hpre.trans (List.take_prefix _ _))⟩
    exact hpre.length_le.trans (List.length_take_le _ _)
  have hself : stripEnd (valueOf s) = valueOf s := List.rdropWhile_idempotent _ _
  obtain ⟨n, hn, htake⟩ := htake
  have hscan : findCharLoop 0 false (valueOf s) = (valueOf s).length := by
    rw [htake, findCharLoop_take hn, List.length_take, min_eq_left (hn.trans findCharLoop_le)]
  have hstart : stripStart (valueOf s) = valueOf s := by
    rw [htake]
    rcases hs : stripStart s with _ | ⟨x, r⟩
    · rw [List.take_nil]
      rfl
    · have hx : ¬ isspace x := by
        have hhead := List.head?_dropWhile_not isspace s
        rw [show s.dropWhile isspace = x :: r from hs] at hhead
        simpa using hhead
      rcases n with _ | n
      · rfl
      · exact List.dropWhile_cons_of_neg hx
  rw [valueOf, hstart, hscan, List.take_length, hself]

theorem valueOf_append (hw : ∀ x ∈ w, isspace x) : valueOf (w ++ s) = valueOf s := by
  rw [valueOf, stripStart_append hw, valueOf]

theorem chunk_line (h : 10 ∉ cur) (hc : chunk ∈ fgetsChunks cur content) :
    10 ∉ chunk.dropLast := by
  induction content generalizing cur with
  | nil =>
    rcases cur with _ | ⟨x, cur⟩
    · cases hc
    · obtain rfl : chunk = x :: cur := by simpa [fgetsChunks] using hc
      exact fun hm => h (List.dropLast_subset _ hm)
  | cons d content ih =>
    rw [fgetsChunks.eq_3] at hc
    split_ifs at hc with hend
    · rcases List.mem_cons.1 hc with rfl | hc
      · simpa using h
      · exact ih (by simp) hc
    · exact ih (by simp [h, Ne.symm (not_or.1 hend).1]) hc

theorem not_mem_prefix (h : 10 ∉ chunk.dropLast) (hpre : s <+: chunk)
    (hlast : ∀ x ∈ s.getLast?, x ≠ 10) : 10 ∉ s := by
  obtain ⟨r, rfl⟩ := hpre
  rcases List.eq_nil_or_concat' s with rfl | ⟨q, x, rfl⟩
  · exact List.not_mem_nil
  · rw [List.append_assoc, List.dropLast_append_of_ne_nil (by simp)] at h
    have hx : x ≠ 10 := hlast x (by simp)
    simpa [hx.symm] using fun hq => h (List.mem_append_left _ hq)

theorem stripped_last (s : List UInt8) : ∀ x ∈ (stripEnd s).getLast?, x ≠ 10 := by
  intro x hx
  obtain ⟨hne, rfl⟩ := List.mem_getLast?_eq_getLast hx
  intro h10
  have hspace := List.rdropWhile_last_not isspace s hne
  exact hspace (h10 ▸ rfl)

theorem stable_of_lineEntry (h : 10 ∉ chunk.dropLast) (he : lineEntry chunk = some (name, v)) :
    Stable v := by
  obtain ⟨-, -, rfl⟩ := entryOf_eq_some he
  have hsub : ∀ t k, (valueOf ((stripStart t).drop k)).Sublist t := fun t k =>
    (valueOf_sublist.trans (List.drop_sublist _ _)).trans (List.dropWhile_sublist _)
  have hpre : stripEnd (chunk.takeWhile (· ≠ 0)) <+: chunk.takeWhile (· ≠ 0) :=
    List.rdropWhile_prefix _ _
  refine ⟨fun h0 => ?_, fun h10 => ?_, valueOf_valueOf⟩
  · simpa using List.mem_takeWhile_imp (hpre.subset ((hsub _ _).subset h0))
  · exact not_mem_prefix h (hpre.trans (List.takeWhile_prefix _)) (stripped_last _)
      ((hsub _ _).subset h10)

theorem stable_of_lastValue {content : Option (List UInt8)}
    (h : lastValue name (entries content) = some v) : Stable v := by
  obtain ⟨e, he, rfl⟩ := Option.map_eq_some_iff.1 h
  have hmem : e ∈ entries content := List.mem_of_mem_filter (List.mem_of_getLast? he)
  rcases content with _ | content
  · cases hmem
  · obtain ⟨chunk, hchunk, hentry⟩ := List.mem_filterMap.1 hmem
    exact stable_of_lineEntry (chunk_line (by simp) hchunk) hentry

theorem Plain.stable (h : Plain v) : Stable v :=
  ⟨h.noNul, h.noNewline, h.valueOf_eq (w := []) (by simp)⟩

/-! The dump -/

theorem lineEntry_stable (hn : name ∈ configMapping.map Prod.fst) (hv : Stable v) :
    lineEntry (name ++ bytes " = " ++ v ++ [10]) = some (name, v) := by
  have hspace : ∀ x ∈ ([32] : List UInt8), isspace x := by decide +kernel
  have h0 : 0 ∉ name ++ bytes " = " ++ v := by
    refine List.not_mem_append (List.not_mem_append ?_ (by decide)) hv.noNul
    exact fun h => ((name_ordinary hn).2 0 h).2.1 rfl
  have hline : name ++ bytes " = " ++ v = [] ++ name ++ [32] ++ 61 :: ([32] ++ v) := by
    simp [show bytes " = " = [32, 61, 32] from rfl]
  have hstart : ∀ x, (name ++ [32] ++ x).head? ≠ some 59 := fun x => by
    rw [List.append_assoc]
    exact name_head hn _
  have hsep : ∀ x ∈ name ++ [32], x ≠ 0 ∧ x ≠ 61 ∧ x ≠ 59 :=
    List.forall_mem_append.2 ⟨name_unmarked hn, by decide +kernel⟩
  rw [lineEntry_line (.inr rfl) h0, hline, strip_line hn (by simp) rfl,
    entryOf_sep (hstart _) (.inl rfl) (sepPos_equals hsep), stripEnd_append hspace,
    stripEnd_name hn, valueOf_stripEnd, valueOf_append hspace, hv.fixed]

structure Readable (c : ConfigCtx) : Prop where
  terminated : ∀ o, (c.string o).Terminated
  stable : ∀ o, Stable (c.string o).text
  int : ∀ o, IsInt (c.integer o)

namespace Readable

theorem slotText_stable (h : Readable c) (slot : Slot) : Stable (c.slotText slot) := by
  cases slot with
  | string64 o =>
    rw [ConfigCtx.slotText, shown_eq (h.terminated o)]
    exact h.stable o
  | integer o => exact plain_formatD.stable

theorem slotText_length (h : Readable c) (slot : Slot) : (c.slotText slot).length ≤ 63 := by
  cases slot with
  | string64 o =>
    rw [ConfigCtx.slotText, shown_eq (h.terminated o)]
    exact Nat.le_of_lt_succ (Str64.terminated_iff.1 (h.terminated o))
  | integer o => exact (formatD_length (h.int o)).trans (by decide)

theorem read_slotText (h : Readable c) (slot : Slot) :
    slot.read (c.slotText slot) = c.options.get slot := by
  cases slot with
  | string64 o =>
    have hlen : (c.string o).text.length ≤ 64 := (Str64.terminated_iff.1 (h.terminated o)).le
    rw [ConfigCtx.slotText, shown_eq (h.terminated o)]
    exact congrArg Sum.inl (List.take_of_length_le hlen)
  | integer o => exact congrArg Sum.inr (atoi_formatD (h.int o))

theorem line_whole (h : Readable c) {m : List UInt8 × Slot} (hm : m ∈ configMapping) :
    m.1 ++ bytes " = " ++ c.slotText m.2 ≠ [] ∧ 10 ∉ m.1 ++ bytes " = " ++ c.slotText m.2 ∧
      (m.1 ++ bytes " = " ++ c.slotText m.2).length ≤ 126 := by
  have hname : ∀ m ∈ configMapping, 10 ∉ m.1 ++ bytes " = " ∧
      (m.1 ++ bytes " = ").length ≤ 63 ∧ m.1 ≠ [] := by decide
  obtain ⟨h10, hlen, hne⟩ := hname m hm
  refine ⟨by simp [hne], List.not_mem_append h10 (h.slotText_stable m.2).noNewline, ?_⟩
  rw [List.length_append]
  exact Nat.add_le_add hlen (h.slotText_length m.2)

theorem entries_eq (h : Readable c) : entries (some (dumpFile c)) =
    configMapping.map fun m => (m.1, c.slotText m.2) := by
  have hlines : ∀ l ∈ (configCmdDump c).2, l ≠ [] ∧ 10 ∉ l ∧ l.length ≤ 126 := by
    intro l hl
    obtain ⟨m, hm, rfl⟩ := List.mem_map.1 hl
    exact h.line_whole hm
  unfold entries dumpFile
  dsimp only
  rw [fgetsChunks_lines hlines, configCmdDump, List.map_map, List.filterMap_map,
    ← List.filterMap_eq_map]
  refine List.filterMap_congr fun m hm => ?_
  exact lineEntry_stable (List.mem_map_of_mem hm) (h.slotText_stable m.2)

theorem settingOf_eq (h : Readable c) (slot : Slot) :
    settingOf (dumpFile c) slot = some (c.options.get slot) := by
  have hlast : lastValue (slotName slot) (configMapping.map fun m => (m.1, c.slotText m.2)) =
      some (c.slotText slot) := by
    rcases slot with o | o <;> cases o <;> rfl
  rw [settingOf, h.entries_eq, hlast, ← h.read_slotText]
  rfl

theorem options_eq (h : Readable c) (hopen : Opens fopen c₀ (dumpFile c)) :
    (configStartParse fopen beyond c₀).2.config.options = c.options := by
  refine get_injective fun slot => ?_
  have hset := h.settingOf_eq slot
  rw [settingOf] at hset
  rw [opens_options hopen, foldl_set_get, hset]
  rfl

end Readable

/-- A dump is read back, whatever the options were before, exactly when its strings are values that
are read as they are printed. -/
theorem dump_read_iff (ht : ∀ o, (c.string o).Terminated) (hi : ∀ o, IsInt (c.integer o)) :
    (∀ fopen beyond c₀, Opens fopen c₀ (dumpFile c) →
      (configStartParse fopen beyond c₀).2.config.options = c.options) ↔
    ∀ o, Stable (c.string o).text := by
  constructor
  · intro h o
    have hset : settingOf (dumpFile c) (.string64 o) = some (c.options.get (.string64 o)) := by
      refine getD_get_injective (.string64 o) fun c₀ hc₀ => ?_
      have hopens : Opens (fun _ => some (dumpFile c)) c₀ (dumpFile c) :=
        ⟨defFile, hc₀, by decide, rfl⟩
      have hget : (afterFile (dumpFile c) (fun _ _ => 0) c₀).options.get (.string64 o) = _ :=
        afterFile_get hopens
      rw [← hget, afterFile, h _ _ _ hopens]
      rfl
    obtain ⟨v, hv, hread⟩ := Option.map_eq_some_iff.1 hset
    have htext : v.take 64 = (c.string o).text := Sum.inl.inj hread
    have hlen := Str64.terminated_iff.1 (ht o)
    rw [← htext, List.length_take] at hlen
    rw [← htext, List.take_of_length_le (by omega)]
    exact stable_of_lastValue hv
  · exact fun h _ _ _ hopen => Readable.options_eq ⟨ht, h, hi⟩ hopen

def marked : ConfigCtx :=
  (configInit .zero none).2.setString .userAgent (Str64.zero.strcpy (bytes ";x") (by decide))

theorem dump_read_iff_marked :
    (∀ fopen beyond c₀, Opens fopen c₀ (dumpFile marked) →
      (configStartParse fopen beyond c₀).2.config.options = marked.options) ↔
    ∀ o, Stable (marked.string o).text :=
  dump_read_iff (fun o => by cases o <;> decide +kernel) (fun o => by cases o <;> decide +kernel)

/-! What came out of a file -/

theorem stable_default (o : StringOption) :
    Stable ((configInit .zero path).2.options.string o) := by
  rw [configInit_string]
  cases o <;> exact Plain.stable (.of_not_mem (by decide +kernel) (by decide +kernel)
    (by decide +kernel) (by decide +kernel) (by decide +kernel))

theorem readable_of_fits (h : ∀ o, Fits (fopen (confPath path)) o) :
    Readable (configStartParse fopen beyond (configInit .zero path).2).2.config where
  terminated o := (string_terminated_iff o).2 (h o)
  stable o := by
    have htext := congrArg (Options.string · o) (configStartParse_options fopen beyond .zero path)
    rw [foldl_set_string] at htext
    refine (congrArg Stable htext).mpr ?_
    rcases hlast : lastValue (slotName (.string64 o)) (entries (fopen (confPath path))) with _ | v
    · exact stable_default o
    · have hlen : v.length ≤ 64 := (h o v hlast).trans (by decide)
      rw [Option.map_some, Option.getD_some, List.take_of_length_le hlen]
      exact stable_of_lastValue hlast
  int o := by
    have hint := congrArg (Options.integer · o) (configStartParse_options fopen beyond .zero path)
    rw [foldl_set_integer] at hint
    refine (congrArg IsInt hint).mpr ?_
    rcases lastValue (slotName (.integer o)) (entries (fopen (confPath path))) with _ | v
    · cases o <;> exact of_decide_eq_true rfl
    · exact isInt_atoi v

/-- Whatever file a configuration came from, if its strings fit, its dump is read back from any
other. -/
theorem file_dump_read (hfits : ∀ o, Fits (fopen (confPath path)) o)
    {fopen' : CString → Option (List UInt8)} {beyond' : Nat → Nat → UInt8}
    (hopen : Opens fopen' c₀
      (dumpFile (configStartParse fopen beyond (configInit .zero path).2).2.config)) :
    (configStartParse fopen' beyond' c₀).2.config.options =
      (configStartParse fopen beyond (configInit .zero path).2).2.config.options :=
  (readable_of_fits hfits).options_eq hopen

theorem file_dump_read_marked :
    let c₀ := (configInit .zero none).2
    let c := (configStartParse (fun _ => some (bytes "user_agent=;x")) (fun _ _ => 0) c₀).2.config
    (configStartParse (fun _ => some (dumpFile c)) (fun _ _ => 0) c₀).2.config.options =
      c.options := by
  refine file_dump_read (fun o v hv => ?_) (opens_init .zero none _)
  cases o
  · rw [show lastValue _ _ = none by decide +kernel] at hv
    cases hv
  · rw [show lastValue _ _ = some (bytes ";x") by decide +kernel] at hv
    cases hv
    decide

end Evsip.Config
