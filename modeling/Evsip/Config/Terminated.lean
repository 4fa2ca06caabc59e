import Evsip.Config.Scan

/-! Whether the string options end inside their arrays after a file was read. -/

namespace Evsip.Config
open CLib

/-- The value the file assigns last to the option, if any, leaves room for its terminator. -/
def Fits (content : Option (List UInt8)) (o : StringOption) : Prop :=
  ∀ v, lastValue (slotName (.string64 o)) (entries content) = some v → v.length ≤ 63

/-- The value a line assigns to the option of this name. -/
def valueFor (name chunk : List UInt8) : Option (List UInt8) :=
  (lineEntry chunk).bind fun e => if e.1 = name then some e.2 else none

variable {fopen : CString → Option (List UInt8)} {beyond : Nat → Nat → UInt8} {c : ConfigCtx}
  {path : Option CString} {name v chunk : List UInt8} {chunks : List (List UInt8)}

theorem valueFor_eq_some_iff : valueFor name chunk = some v ↔ lineEntry chunk = some (name, v) := by
  unfold valueFor
  rcases lineEntry chunk with _ | ⟨n, w⟩ <;> simp

theorem lastValue_lines :
    lastValue name (chunks.filterMap lineEntry) = (chunks.filterMap (valueFor name)).getLast? := by
  rw [lastValue, ← List.getLast?_map]
  congr 1
  induction chunks with
  | nil => rfl
  | cons chunk chunks ih =>
    rcases he : lineEntry chunk with _ | ⟨n, w⟩
    · simpa [valueFor, he] using ih
    · by_cases hn : n = name <;> simpa [valueFor, he, hn] using ih

theorem lastValue_lines_iff : lastValue name (chunks.filterMap lineEntry) = some v ↔
    ∃ before chunk after, chunks = before ++ chunk :: after ∧ lineEntry chunk = some (name, v) ∧
      ∀ x ∈ after, ∀ w, lineEntry x ≠ some (name, w) := by
  have hnone : ∀ after : List (List UInt8), after.filterMap (valueFor name) = [] ↔
      ∀ x ∈ after, ∀ w, lineEntry x ≠ some (name, w) := fun after => by
    simp only [List.filterMap_eq_nil_iff, Option.eq_none_iff_forall_ne_some, ne_eq,
      valueFor_eq_some_iff]
  rw [lastValue_lines, List.getLast?_eq_some_iff]
  constructor
  · rintro ⟨values, hvalues⟩
    obtain ⟨before, rest, rfl, -, hrest⟩ := List.filterMap_eq_append_iff.1 hvalues
    obtain ⟨idle, chunk, after, rfl, -, hchunk, hafter⟩ := List.filterMap_eq_cons_iff.1 hrest
    exact ⟨before ++ idle, chunk, after, (List.append_assoc ..).symm,
      valueFor_eq_some_iff.1 hchunk, (hnone after).1 hafter⟩
  · rintro ⟨before, chunk, after, rfl, hchunk, hafter⟩
    refine ⟨before.filterMap (valueFor name), ?_⟩
    rw [List.filterMap_append, List.filterMap_cons_some (valueFor_eq_some_iff.2 hchunk),
      (hnone after).2 hafter]

/-- The option fits if the value of the last line that sets it does. -/
theorem fits_some_iff {content : List UInt8} {o : StringOption} :
    Fits (some content) o ↔ ∀ before chunk after v,
      fgetsChunks [] content = before ++ chunk :: after →
      Reads chunk (slotName (.string64 o)) v →
      (∀ x ∈ after, ∀ w, ¬ Reads x (slotName (.string64 o)) w) → v.length ≤ 63 := by
  simp only [Fits, entries, lastValue_lines_iff, lineEntry_option_iff (slotName_mem _), ne_eq]
  constructor
  · intro h before chunk after v hsplit hv hafter
    exact h v ⟨before, chunk, after, hsplit, hv, hafter⟩
  · rintro h v ⟨before, chunk, after, hsplit, hv, hafter⟩
    exact h before chunk after v hsplit hv hafter

theorem configInit_string (o : StringOption) :
    (configInit c path).2.options.string o =
      match o with
      | .localIpAddress => defLocalAddr
      | .userAgent => defUsrAgent := by
  cases o
  · exact Str64.strcpy_text (by decide) (by decide)
  · exact Str64.strcpy_text (by decide) (by decide)

theorem configInit_string_length (o : StringOption) :
    ((configInit c path).2.options.string o).length < 64 := by
  rw [configInit_string]
  cases o <;> decide

theorem string_terminated_iff (o : StringOption) :
    ((configStartParse fopen beyond (configInit c path).2).2.config.string o).Terminated ↔
      Fits (fopen (confPath path)) o := by
  have hoptions := congrArg (Options.string · o) (configStartParse_options fopen beyond c path)
  rw [foldl_set_string] at hoptions
  rw [Str64.terminated_iff, Fits]
  rw [show ((configStartParse fopen beyond (configInit c path).2).2.config.string o).text = _ from
    hoptions]
  rcases lastValue (slotName (.string64 o)) (entries (fopen (confPath path))) with _ | v
  · simpa using configInit_string_length o
  · simp
    omega

theorem strings_terminated_iff (fopen : CString → Option (List UInt8))
    (beyond : Nat → Nat → UInt8) (c : ConfigCtx) (path : Option CString) :
    (∀ o, ((configStartParse fopen beyond (configInit c path).2).2.config.string o).Terminated) ↔
      ∀ o, Fits (fopen (confPath path)) o :=
  forall_congr' string_terminated_iff

theorem not_terminated_user_agent :
    ¬ ((configStartParse (fun _ => some (bytes "user_agent=" ++ .replicate 64 97)) (fun _ _ => 0)
      (configInit .zero none).2).2.config.string .userAgent).Terminated := by
  rw [string_terminated_iff]
  intro hfits
  have hlast : lastValue (slotName (.string64 .userAgent))
      (entries (some (bytes "user_agent=" ++ .replicate 64 97))) = some (.replicate 64 97) := by
    decide +kernel
  exact absurd (hfits _ hlast) (by decide)

end Evsip.Config
