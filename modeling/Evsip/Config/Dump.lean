import Evsip.Config.Layout
import Evsip.Lib.Decimal

/-! The configuration as the dump command prints it, read back as a file. -/

namespace Evsip.Config
open CLib

/-- The value of an option as the dump prints it. -/
def ConfigCtx.slotText (c : ConfigCtx) : Slot → List UInt8
  | .string64 o => c.shown o
  | .integer o => formatD (c.integer o)

def configCmdDump (c : ConfigCtx) : Code × List (List UInt8) :=
  (.success, configMapping.map fun m => m.1 ++ bytes " = " ++ c.slotText m.2)

def dumpFile (c : ConfigCtx) : List UInt8 := (configCmdDump c).2.flatMap (· ++ [10])

/-- The values survive printing and parsing. -/
structure Printable (c : ConfigCtx) : Prop where
  terminated : ∀ o, (c.string o).Terminated
  plain : ∀ o, Plain (c.string o).text
  int : ∀ o, IsInt (c.integer o)

variable {c : ConfigCtx} {n : Int} {x : UInt8} {slot : Slot} {value : List UInt8}

theorem shown_eq {o : StringOption} (h : (c.string o).Terminated) :
    c.shown o = (c.string o).text := by
  obtain ⟨before, after, hb⟩ := List.append_of_mem h
  have hcut : ∀ rest : List UInt8, (before ++ 0 :: rest).takeWhile (· ≠ 0) =
      before.takeWhile (· ≠ 0) := fun rest =>
    congrArg CString.bytes (CString.ofBytes_append_zero before rest)
  rw [ConfigCtx.shown, Str64.text, hb, List.append_assoc, List.cons_append, hcut, hcut]

theorem shown_append {o : StringOption} (h : ¬ (c.string o).Terminated) :
    c.shown o = (c.string o).bytes ++ (c.behind o).takeWhile (· ≠ 0) :=
  List.takeWhile_append_of_pos fun _ hx => decide_eq_true (ne_of_mem_of_not_mem hx h)

theorem formatD_ordinary (hx : x ∈ formatD n) : x = 45 ∨ isdigit x := by
  unfold formatD at hx
  split_ifs at hx
  · exact (List.mem_cons.1 hx).imp_right (formatNat_isdigit x)
  · exact .inr (formatNat_isdigit x hx)

theorem plain_formatD : Plain (formatD n) := by
  have hne : ∀ y, y ≠ 45 → ¬ isdigit y → y ∉ formatD n := fun y hy hd hm =>
    (formatD_ordinary hm).elim hy hd
  have hspace : ∀ y ∈ formatD n, isspace y = false := fun y hy => by
    rcases formatD_ordinary hy with rfl | hd
    · rfl
    · exact isspace_of_isdigit hd
  exact .of_not_mem (hne 0 (by decide) (by decide)) (hne 10 (by decide) (by decide))
    (fun y hy => hspace y (List.mem_of_head? hy)) (fun y hy => hspace y (List.mem_of_getLast? hy))
    (hne 59 (by decide) (by decide))

namespace Printable

theorem slotText_plain (h : Printable c) (slot : Slot) : Plain (c.slotText slot) := by
  cases slot with
  | string64 o =>
    rw [ConfigCtx.slotText, shown_eq (h.terminated o)]
    exact h.plain o
  | integer o => exact plain_formatD

theorem slotText_length (h : Printable c) (slot : Slot) : (c.slotText slot).length ≤ 63 := by
  cases slot with
  | string64 o =>
    rw [ConfigCtx.slotText, shown_eq (h.terminated o)]
    exact Nat.le_of_lt_succ (Str64.terminated_iff.1 (h.terminated o))
  | integer o => exact (formatD_length (h.int o)).trans (by decide)

theorem read_slotText (h : Printable c) (slot : Slot) :
    slot.read (c.slotText slot) = c.options.get slot := by
  cases slot with
  | string64 o =>
    have hlen : (c.string o).text.length ≤ 64 := (Str64.terminated_iff.1 (h.terminated o)).le
    rw [ConfigCtx.slotText, shown_eq (h.terminated o)]
    exact congrArg Sum.inl (List.take_of_length_le hlen)
  | integer o => exact congrArg Sum.inr (atoi_formatD (h.int o))

end Printable

theorem fgetsChunks_lines {ls : List (List UInt8)}
    (h : ∀ l ∈ ls, l ≠ [] ∧ 10 ∉ l ∧ l.length ≤ 126) :
    fgetsChunks [] (ls.flatMap (· ++ [10])) = ls.map (· ++ [10]) := by
  induction ls with
  | nil => rfl
  | cons l ls ih =>
    obtain ⟨⟨hne, h10, hlen⟩, hls⟩ := List.forall_mem_cons.1 h
    rw [List.flatMap_cons, List.append_assoc, List.singleton_append, fgetsChunks_append,
      fgetsChunks_line (.inr rfl) hne h10 hlen, ih hls, List.map_cons, List.singleton_append]

theorem lineEntry_dump {name : List UInt8} (hn : name ∈ configMapping.map Prod.fst)
    (hv : Plain value) : lineEntry (name ++ bytes " = " ++ value ++ [10]) = some (name, value) := by
  let s : Setting :=
    { name, value, w0 := [], w1 := [32], w2 := [32], w3 := [], comment := [],
      isOption := hn, plain := hv, blank := by decide, trailer := .inl rfl }
  have hline : s.line = name ++ bytes " = " ++ value := by
    simp [Setting.line, s, show bytes " = " = [32, 61, 32] from rfl]
  have hentry : lineEntry (s.line ++ [10]) = some (name, valueOf ([32] ++ value ++ [] ++ [])) :=
    s.lineEntry_eq (.inr rfl)
  rwa [hline, s.valueOf_iff.2 (.inr rfl)] at hentry

theorem dump_line (h : Printable c) {m : List UInt8 × Slot} (hm : m ∈ configMapping) :
    m.1 ++ bytes " = " ++ c.slotText m.2 ≠ [] ∧ 10 ∉ m.1 ++ bytes " = " ++ c.slotText m.2 ∧
      (m.1 ++ bytes " = " ++ c.slotText m.2).length ≤ 126 := by
  have hname : ∀ m ∈ configMapping, 10 ∉ m.1 ++ bytes " = " ∧
      (m.1 ++ bytes " = ").length ≤ 63 ∧ m.1 ≠ [] := by decide
  obtain ⟨h10, hlen, hne⟩ := hname m hm
  refine ⟨by simp [hne], List.not_mem_append h10 (h.slotText_plain m.2).noNewline, ?_⟩
  rw [List.length_append]
  exact Nat.add_le_add hlen (h.slotText_length m.2)

theorem entries_dumpFile (h : Printable c) : entries (some (dumpFile c)) =
    configMapping.map fun m => (m.1, c.slotText m.2) := by
  have hlines : ∀ l ∈ (configCmdDump c).2, l ≠ [] ∧ 10 ∉ l ∧ l.length ≤ 126 := by
    intro l hl
    obtain ⟨m, hm, rfl⟩ := List.mem_map.1 hl
    exact dump_line h hm
  unfold entries dumpFile
  dsimp only
  rw [fgetsChunks_lines hlines, configCmdDump, List.map_map, List.filterMap_map,
    ← List.filterMap_eq_map]
  refine List.filterMap_congr fun m hm => ?_
  exact lineEntry_dump (List.mem_map_of_mem hm) (h.slotText_plain m.2)

/-- The dump of a configuration, read back from any other one, gives its options. -/
theorem dump_parse {fopen : CString → Option (List UInt8)} {c₀ : ConfigCtx} (h : Printable c)
    (hopen : Opens fopen c₀ (dumpFile c)) (beyond : Nat → Nat → UInt8) :
    (configStartParse fopen beyond c₀).2.config.options = c.options := by
  refine get_injective fun slot => ?_
  rw [opens_options hopen, entries_dumpFile h, foldl_set_get, ← h.read_slotText]
  have hlast : lastValue (slotName slot) (configMapping.map fun m => (m.1, c.slotText m.2)) =
      some (c.slotText slot) := by
    rcases slot with o | o <;> cases o <;> rfl
  rw [hlast]
  rfl

def timed : ConfigCtx := (configInit .zero none).2.setInteger .maxRegExpires 3600

theorem printable_timed : Printable timed where
  terminated o := by cases o <;> decide +kernel
  plain o := by
    cases o <;> exact .of_not_mem (by decide +kernel) (by decide +kernel) (by decide +kernel)
      (by decide +kernel) (by decide +kernel)
  int o := by cases o <;> decide +kernel

theorem dump_parse_timed :
    (configStartParse (fun _ => some (dumpFile timed)) (fun _ _ => 0)
      (configInit .zero none).2).2.config.options = timed.options :=
  dump_parse printable_timed (opens_init .zero none _) _

end Evsip.Config
