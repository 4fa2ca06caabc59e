import Evsip.Config.Layout

/-! A colon in place of the equals sign between a name and a value. -/

namespace Evsip.Config
open CLib

variable {name v x nl : List UInt8} {c : UInt8}

/-- An equals sign comes before any comment in the value. -/
def EqualsIn (v : List UInt8) : Prop := v.getD (findCharLoop 61 false v) 0 = 61

theorem equalsIn_stripEnd : EqualsIn (stripEnd v) ↔ EqualsIn v := by
  unfold EqualsIn
  obtain ⟨rest, hrest⟩ : stripEnd v <+: v := List.rdropWhile_prefix _ _
  rcases findCharLoop_stripEnd (c := 61) rfl false v with ⟨hlt, heq⟩ | ⟨hfull, hfull'⟩
  · have hget : v.getD (findCharLoop 61 false (stripEnd v)) 0 =
        (stripEnd v).getD (findCharLoop 61 false (stripEnd v)) 0 := by
      rw [← List.getD_append _ rest _ _ hlt, hrest]
    rw [heq, hget]
  · rw [hfull, hfull', List.getD_eq_default _ _ le_rfl, List.getD_eq_default _ _ le_rfl]

theorem lineEntry_sep (hn : name ∈ configMapping.map Prod.fst) (h0 : 0 ∉ v) (h : Ending nl)
    (hc : c = 61 ∨ c = 58) :
    lineEntry (name ++ c :: v ++ nl) = entryOf (name ++ c :: stripEnd v) := by
  have hname : (0 : UInt8) ∉ name := fun hm => ((name_ordinary hn).2 0 hm).2.1 rfl
  have hc0 : (0 : UInt8) ≠ c := by rcases hc with rfl | rfl <;> decide
  have hspace : isspace c = false := by rcases hc with rfl | rfl <;> rfl
  have hstrip : stripStart (stripEnd ([] ++ name ++ [] ++ c :: v)) =
      name ++ [] ++ c :: stripEnd v := strip_line hn (by simp) hspace
  rw [List.nil_append, List.append_nil] at hstrip
  rw [lineEntry_line h (List.not_mem_append hname (by simp [hc0, h0])), hstrip]

theorem lineEntry_equals (hn : name ∈ configMapping.map Prod.fst) (h0 : 0 ∉ v) (h : Ending nl) :
    lineEntry (name ++ 61 :: v ++ nl) = some (name, valueOf v) := by
  rw [lineEntry_sep hn h0 h (.inl rfl), entryOf_sep (name_head hn _) (.inl rfl)
    (sepPos_equals (name_unmarked hn)), stripEnd_name hn, valueOf_stripEnd]

theorem findCharLoop_colon (h : ∀ y ∈ name, y ≠ 0 ∧ y ≠ 61 ∧ y ≠ 59) :
    findCharLoop 61 false (name ++ 58 :: x) = name.length + 1 + findCharLoop 61 false x := by
  have hall : ∀ y ∈ name ++ [58], y ≠ 0 ∧ y ≠ 61 ∧ y ≠ 59 :=
    List.forall_mem_append.2 ⟨h, List.forall_mem_singleton.2 (by decide)⟩
  have hends : endsBlank false (name ++ [58]) = false := by simp [endsBlank, isspace]
  have hfirst : findCharLoop 61 false (name ++ [58]) = (name ++ [58]).length :=
    findCharLoop_ordinary hall
  have happend := findCharLoop_append_of_eq (b := x) hfirst
  rw [hends, List.append_assoc] at happend
  simpa using happend

theorem getD_colon (k : Nat) : (name ++ 58 :: x).getD (name.length + 1 + k) 0 = x.getD k 0 := by
  rw [List.getD_append_right _ _ _ _ (by omega), show name.length + 1 + k - name.length = k + 1 by omega]
  rfl

theorem lineEntry_colon (hn : name ∈ configMapping.map Prod.fst) (h0 : 0 ∉ v) (h : Ending nl)
    (hv : ¬ EqualsIn v) : lineEntry (name ++ 58 :: v ++ nl) = some (name, valueOf v) := by
  have hall : ∀ y ∈ name, y ≠ 0 ∧ y ≠ 58 ∧ y ≠ 59 := fun y hy =>
    have h := ((name_ordinary hn).2 y hy).2
    ⟨h.1, h.2.2.1, h.2.2.2.1⟩
  have hsep : sepPos (name ++ 58 :: stripEnd v) = name.length := by
    have hnone : (stripEnd v).getD (findCharLoop 61 false (stripEnd v)) 0 ≠ 61 :=
      mt equalsIn_stripEnd.1 hv
    unfold sepPos
    rw [findCharLoop_colon (name_unmarked hn), getD_colon, if_neg hnone,
      findCharLoop_append_of_eq (findCharLoop_ordinary hall)]
    rfl
  rw [lineEntry_sep hn h0 h (.inr rfl), entryOf_sep (name_head hn _) (.inr rfl)
    hsep, stripEnd_name hn, valueOf_stripEnd]

theorem lineEntry_colon_equals (hn : name ∈ configMapping.map Prod.fst) (h0 : 0 ∉ v)
    (h : Ending nl) (hv : EqualsIn v) :
    ∃ e, lineEntry (name ++ 58 :: v ++ nl) = some e ∧ slotOf e.1 = none := by
  have hequals : (stripEnd v).getD (findCharLoop 61 false (stripEnd v)) 0 = 61 :=
    equalsIn_stripEnd.2 hv
  rw [lineEntry_sep hn h0 h (.inr rfl)]
  generalize stripEnd v = x at *
  have hsep : sepPos (name ++ 58 :: x) = name.length + 1 + findCharLoop 61 false x := by
    unfold sepPos
    rw [findCharLoop_colon (name_unmarked hn), getD_colon, if_pos hequals]
  have hskip : ¬ (name ++ 58 :: x = [] ∨ (name ++ 58 :: x).head? = some 59) :=
    not_or.2 ⟨by simp, name_head hn _⟩
  have htake : (name ++ 58 :: x).take (name.length + 1 + findCharLoop 61 false x) =
      name ++ 58 :: x.take (findCharLoop 61 false x) := by
    rw [Nat.add_assoc, List.take_length_add_append, Nat.add_comm 1, List.take_succ_cons]
  have hend : stripEnd (name ++ 58 :: x.take (findCharLoop 61 false x)) =
      name ++ 58 :: stripEnd (x.take (findCharLoop 61 false x)) :=
    List.rdropWhile_append_cons (by decide)
  have hentry : entryOf (name ++ 58 :: x) = some
      (stripEnd ((name ++ 58 :: x).take (sepPos (name ++ 58 :: x))),
        valueOf ((name ++ 58 :: x).drop (sepPos (name ++ 58 :: x) + 1))) := by
    unfold entryOf
    rw [if_neg hskip, hsep, getD_colon, if_pos (.inl hequals)]
  have hcolon : ∀ slot, 58 ∉ slotName slot := by
    rintro (o | o) <;> cases o <;> decide
  refine ⟨_, hentry, Option.eq_none_iff_forall_ne_some.2 fun slot hslot => hcolon slot ?_⟩
  rw [← slotOf_eq_some_iff.1 hslot, hsep, htake, hend]
  simp

theorem entries_line {line : List UInt8} (h : Ending nl) (hne : line ≠ []) (h10 : 10 ∉ line)
    (hlen : line.length ≤ 126) {e : List UInt8 × List UInt8} (he : lineEntry (line ++ nl) = some e) :
    entries (some (line ++ nl)) = [e] := by
  rw [entries, fgetsChunks_line h hne h10 hlen, List.filterMap_cons, he]
  rfl

theorem separators_agree_iff (hn : name ∈ configMapping.map Prod.fst) (h0 : 0 ∉ v) (h10 : 10 ∉ v)
    (hlen : name.length + 1 + v.length ≤ 126) (h : Ending nl) :
    (∀ beyond beyond' c,
      (configStartParse (fun _ => some (name ++ 58 :: v ++ nl)) beyond c).2.config.options =
        (configStartParse (fun _ => some (name ++ 61 :: v ++ nl)) beyond' c).2.config.options) ↔
      ¬ EqualsIn v := by
  have hname : (10 : UInt8) ∉ name := fun hm => ((name_ordinary hn).2 10 hm).2.2.1 rfl
  have hentries : ∀ c : UInt8, c ≠ 10 → ∀ e, lineEntry (name ++ c :: v ++ nl) = some e →
      entries (some (name ++ c :: v ++ nl)) = [e] := fun c hc e he =>
    entries_line h (by simp) (by simp [hname, hc.symm, h10]) (by simp; omega) he
  have hequals := hentries 61 (by decide) _ (lineEntry_equals hn h0 h)
  constructor
  · intro hagree hv
    obtain ⟨e, he, hslot⟩ := lineEntry_colon_equals hn h0 h hv
    have hcolon := hentries 58 (by decide) e he
    obtain ⟨slot, rfl⟩ := exists_slotName hn
    obtain ⟨c, hpath, hne⟩ := exists_get_ne slot (slot.read (valueOf v))
    have hopens : ∀ content, Opens (fun _ => some content) c content := fun content =>
      ⟨defFile, hpath, by decide, rfl⟩
    have hagree := hagree (fun _ _ => 0) (fun _ _ => 0) c
    rw [opens_options (hopens _), opens_options (hopens _), hcolon, hequals] at hagree
    have hget := congrArg (Options.get · slot) hagree
    dsimp only [List.foldl_cons, List.foldl_nil] at hget
    rw [set_get, set_get, if_pos rfl, if_neg (fun h => by simp [h, slotOf_slotName] at hslot)] at hget
    exact hne hget
  · intro hv beyond beyond' c
    have hcolon := hentries 58 (by decide) _ (lineEntry_colon hn h0 h hv)
    exact options_congr (hcolon.trans hequals.symm) beyond beyond' c

theorem separators_agree_iff_agent :
    (∀ beyond beyond' c,
      (configStartParse (fun _ => some (bytes "user_agent" ++ 58 :: bytes "x y" ++ [10]))
          beyond c).2.config.options =
        (configStartParse (fun _ => some (bytes "user_agent" ++ 61 :: bytes "x y" ++ [10]))
          beyond' c).2.config.options) ↔ ¬ EqualsIn (bytes "x y") :=
  separators_agree_iff (by decide) (by decide) (by decide) (by decide) (.inr rfl)

theorem not_separators_agree :
    (configStartParse (fun _ => some (bytes "user_agent" ++ 58 :: bytes "a=b")) (fun _ _ => 0)
        (configInit .zero none).2).2.config.options ≠
      (configStartParse (fun _ => some (bytes "user_agent" ++ 61 :: bytes "a=b")) (fun _ _ => 0)
        (configInit .zero none).2).2.config.options := by
  intro h
  have hagent := congrArg (Options.string · .userAgent) h
  rw [opens_options (opens_init _ _ _), opens_options (opens_init _ _ _)] at hagent
  revert hagent
  decide +kernel

end Evsip.Config
