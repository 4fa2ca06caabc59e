import Evsip.Config.Separator

/-! What a scan of the parser passes and where it stops, and how an accepted line reads, without
the loop. -/

namespace Evsip.Config
open CLib

/-- No comment starts in these bytes, given whether white space comes before them. -/
structure Uncommented (was : Bool) (a : List UInt8) : Prop where
  start : was → a.head? ≠ some 59
  inner : ∀ w, isspace w → ¬ [w, 59] <:+: a

/-- What a scan for `c` does not get past: the end of the string, `c` itself, a comment. -/
def Stops (c : UInt8) (was : Bool) (b : List UInt8) : Prop :=
  ∀ d ∈ b.head?, d = 0 ∨ d = c ∨ was ∧ d = 59

/-- The separator of a line: an equals sign if one comes before any comment, else a colon. -/
def Separates (a : List UInt8) (c : UInt8) (b : List UInt8) : Prop :=
  0 ∉ a ∧ c ∉ a ∧ Uncommented false a ∧ (c = 61 ∨ c = 58 ∧ ¬ EqualsIn (a ++ c :: b))

/-- How a line reads that sets an option. -/
def Reads (chunk name value : List UInt8) : Prop := ∃ w0 w1 c b,
  stripEnd (chunk.takeWhile (· ≠ 0)) = w0 ++ name ++ w1 ++ c :: b ∧
  (∀ x ∈ w0 ++ w1, isspace x) ∧ (c = 61 ∨ c = 58 ∧ ¬ EqualsIn b) ∧ value = valueOf b

variable {a b s t v name value : List UInt8} {c d : UInt8} {was : Bool}

theorem Uncommented.nil : Uncommented was [] := ⟨by simp, by simp⟩

theorem uncommented_cons :
    Uncommented was (d :: a) ↔ ¬ (was ∧ d = 59) ∧ Uncommented (isspace d) a := by
  constructor
  · rintro ⟨hstart, hinner⟩
    refine ⟨fun h => hstart h.1 (by simp [h.2]), fun hs h => ?_, fun w hw h =>
      hinner w hw (h.trans (List.suffix_cons d a).isInfix)⟩
    obtain ⟨a', rfl⟩ := List.head?_eq_some_iff.1 h
    exact hinner d hs ⟨[], a', rfl⟩
  · rintro ⟨hd, hstart, hinner⟩
    refine ⟨fun hw h => hd ⟨hw, by simpa using h⟩, fun w hw h => ?_⟩
    rcases List.infix_cons_iff.1 h with hp | hi
    · obtain ⟨rfl, hnext⟩ := List.cons_prefix_cons.1 hp
      exact hstart hw (List.singleton_prefix_iff_head?_eq_some.1 hnext)
    · exact hinner w hw hi

theorem findCharLoop_eq_length_iff : findCharLoop c was (a ++ b) = a.length ↔
    0 ∉ a ∧ c ∉ a ∧ Uncommented was a ∧ Stops c (endsBlank was a) b := by
  induction a generalizing was with
  | nil =>
    cases b with
    | nil => simp [findCharLoop, Uncommented.nil, Stops]
    | cons d b =>
      have hstops : Stops c (endsBlank was []) (d :: b) ↔ d = 0 ∨ d = c ∨ was ∧ d = 59 := by
        simp [Stops, endsBlank]
      rw [hstops, List.nil_append, findCharLoop]
      split_ifs with hd
      · refine iff_of_false (by simp) ?_
        rintro ⟨-, -, -, h0 | hc | h59⟩
        exacts [hd.1 h0, hd.2.1 hc, hd.2.2 h59]
      · refine iff_of_true rfl ⟨List.not_mem_nil, List.not_mem_nil, .nil, ?_⟩
        tauto
  | cons d a ih =>
    rw [List.cons_append, findCharLoop, endsBlank_cons, uncommented_cons]
    split_ifs with hd
    · rw [List.length_cons, Nat.add_right_cancel_iff, ih]
      simp only [List.mem_cons, not_or, ne_comm.1 hd.1, ne_comm.1 hd.2.1, hd.2.2]
      tauto
    · refine iff_of_false (by simp) ?_
      rintro ⟨h0, hc, ⟨h59, -⟩, -⟩
      exact hd ⟨fun h => h0 (by simp [h]), fun h => hc (by simp [h]), h59⟩

theorem exists_split (hd : d ≠ 0) (h : s.getD (findCharLoop c was s) 0 = d) :
    ∃ a b, s = a ++ d :: b ∧ a.length = findCharLoop c was s := by
  have hlt : findCharLoop c was s < s.length := by
    by_contra hge
    rw [List.getD_eq_default _ _ (not_lt.1 hge)] at h
    exact hd h.symm
  rw [List.getD_eq_getElem _ _ hlt] at h
  refine ⟨s.take (findCharLoop c was s), s.drop (findCharLoop c was s + 1), ?_,
    List.length_take_of_le hlt.le⟩
  rw [← h, ← List.drop_eq_getElem_cons hlt, List.take_append_drop]

theorem getD_findCharLoop_iff (hc : c ≠ 0) : s.getD (findCharLoop c was s) 0 = c ↔
    ∃ a b, s = a ++ c :: b ∧ 0 ∉ a ∧ c ∉ a ∧ Uncommented was a := by
  constructor
  · intro h
    obtain ⟨a, b, rfl, hlen⟩ := exists_split hc h
    obtain ⟨h0, hca, hu, -⟩ := findCharLoop_eq_length_iff.1 hlen.symm
    exact ⟨a, b, rfl, h0, hca, hu⟩
  · rintro ⟨a, b, rfl, h0, hca, hu⟩
    have hlen : findCharLoop c was (a ++ c :: b) = a.length :=
      findCharLoop_eq_length_iff.2 ⟨h0, hca, hu, by simp [Stops]⟩
    rw [hlen]
    simp [List.getD_eq_getElem?_getD]

/-- An equals sign comes before the first semicolon that follows white space. -/
theorem equalsIn_iff :
    EqualsIn v ↔ ∃ a b, v = a ++ 61 :: b ∧ 0 ∉ a ∧ 61 ∉ a ∧ Uncommented false a :=
  getD_findCharLoop_iff (by decide)

theorem sepPos_eq (h : Separates a c b) : sepPos (a ++ c :: b) = a.length := by
  obtain ⟨h0, hca, hu, hc⟩ := h
  have hscan : findCharLoop c false (a ++ c :: b) = a.length :=
    findCharLoop_eq_length_iff.2 ⟨h0, hca, hu, by simp [Stops]⟩
  rcases hc with rfl | ⟨rfl, hno⟩
  · exact (if_pos (equalsIn_iff.2 ⟨a, b, rfl, h0, hca, hu⟩)).trans hscan
  · exact (if_neg hno).trans hscan

theorem exists_separates (h : t.getD (sepPos t) 0 = 61 ∨ t.getD (sepPos t) 0 = 58) :
    ∃ a c b, t = a ++ c :: b ∧ Separates a c b := by
  by_cases hequals : EqualsIn t
  · obtain ⟨a, b, rfl, h0, hca, hu⟩ := equalsIn_iff.1 hequals
    exact ⟨a, 61, b, rfl, h0, hca, hu, .inl rfl⟩
  · have hpos : sepPos t = findCharLoop 58 false t := if_neg hequals
    rw [hpos] at h
    -- a scan for a colon that stops at an equals sign would have stopped at a comment
    obtain ⟨d, hd, h⟩ : ∃ d, (d = 61 ∨ d = 58) ∧ t.getD (findCharLoop 58 false t) 0 = d :=
      ⟨_, h, rfl⟩
    obtain ⟨a, b, rfl, hlen⟩ := exists_split (by rcases hd with rfl | rfl <;> decide) h
    obtain ⟨h0, hca, hu, hstops⟩ := findCharLoop_eq_length_iff.1 hlen.symm
    rcases hd with rfl | rfl
    · simp [Stops] at hstops
    · exact ⟨a, 58, b, rfl, h0, hca, hu, .inr ⟨rfl, hequals⟩⟩

/-- A stripped line is accepted if it is no comment and has a separator. -/
theorem entryOf_eq_some_iff : entryOf t = some (name, value) ↔ t.head? ≠ some 59 ∧
    ∃ a c b, t = a ++ c :: b ∧ Separates a c b ∧ name = stripEnd a ∧ value = valueOf b := by
  constructor
  · intro h
    unfold entryOf at h
    split_ifs at h with hskip hsep
    obtain ⟨a, c, b, rfl, hs⟩ := exists_separates hsep
    rw [sepPos_eq hs, List.take_left, drop_sep] at h
    cases h
    exact ⟨fun h => hskip (.inr h), a, c, b, rfl, hs, rfl, rfl⟩
  · rintro ⟨hhead, a, c, b, rfl, hs, rfl, rfl⟩
    have hc : c = 61 ∨ c = 58 := hs.2.2.2.imp_right And.left
    exact entryOf_sep hhead hc (sepPos_eq hs)

theorem separates_name {w : List UInt8} (hn : name ∈ configMapping.map Prod.fst)
    (hw : ∀ x ∈ w, isspace x) :
    Separates (name ++ w) c b ↔ c = 61 ∨ c = 58 ∧ ¬ EqualsIn b := by
  have hall : ∀ x ∈ name ++ w, x ≠ 0 ∧ x ≠ 61 ∧ x ≠ 59 ∧ x ≠ 58 := by
    refine List.forall_mem_append.2 ⟨fun x hx => ?_, fun x hx => ?_⟩
    · have h := ((name_ordinary hn).2 x hx).2
      exact ⟨h.1, h.2.2.2.2, h.2.2.2.1, h.2.2.1⟩
    · exact ⟨isspace_ne (hw x hx) rfl, isspace_ne (hw x hx) rfl, isspace_ne (hw x hx) rfl,
        isspace_ne (hw x hx) rfl⟩
  have hscan : ∀ x ∈ name ++ w, x ≠ 0 ∧ x ≠ 61 ∧ x ≠ 59 := fun x hx =>
    ⟨(hall x hx).1, (hall x hx).2.1, (hall x hx).2.2.1⟩
  have hequals : EqualsIn (name ++ w ++ 58 :: b) ↔ EqualsIn b := by
    unfold EqualsIn
    rw [findCharLoop_colon hscan, getD_colon]
  constructor
  · rintro ⟨-, -, -, rfl | ⟨rfl, hno⟩⟩
    · exact .inl rfl
    · exact .inr ⟨rfl, mt hequals.2 hno⟩
  · intro hc
    refine ⟨fun h => (hall 0 h).1 rfl, fun h => ?_, ⟨nofun, fun x _ h => ?_⟩, ?_⟩
    · rcases hc with rfl | ⟨rfl, -⟩
      exacts [(hall _ h).2.1 rfl, (hall _ h).2.2.2 rfl]
    · exact (hall 59 (h.subset (by simp))).2.2.1 rfl
    · rcases hc with rfl | ⟨rfl, hno⟩
      exacts [.inl rfl, .inr ⟨rfl, mt hequals.1 hno⟩]

section
variable {line chunk w0 w1 : List UInt8}

theorem stripStart_option (hn : name ∈ configMapping.map Prod.fst)
    (hline : line = w0 ++ name ++ w1 ++ c :: b) (hw : ∀ x ∈ w0 ++ w1, isspace x) :
    stripStart line = name ++ w1 ++ c :: b := by
  rw [hline, List.append_assoc (w0 ++ name), stripStart_name hn (List.forall_mem_append.1 hw).1,
    List.append_assoc]

theorem lineEntry_option_iff (hn : name ∈ configMapping.map Prod.fst) :
    lineEntry chunk = some (name, value) ↔ Reads chunk name value := by
  unfold lineEntry Reads
  generalize stripEnd (chunk.takeWhile (· ≠ 0)) = line
  rw [entryOf_eq_some_iff]
  constructor
  · rintro ⟨-, a, c, b, ht, hs, hname, rfl⟩
    have ha : name ++ a.rtakeWhile isspace = a := hname ▸ List.rdropWhile_append_rtakeWhile
    have hw1 : ∀ x ∈ a.rtakeWhile isspace, isspace x := fun x => List.mem_rtakeWhile_imp
    rw [← ha, separates_name hn hw1] at hs
    refine ⟨line.takeWhile isspace, a.rtakeWhile isspace, c, b, ?_,
      List.forall_mem_append.2 ⟨fun x => List.mem_takeWhile_imp, hw1⟩, hs, rfl⟩
    rw [List.append_assoc _ name, ha, List.append_assoc, ← ht]
    exact List.takeWhile_append_dropWhile.symm
  · rintro ⟨w0, w1, c, b, hline, hw, hc, rfl⟩
    have ht := stripStart_option hn hline hw
    have hw1 := (List.forall_mem_append.1 hw).2
    refine ⟨?_, name ++ w1, c, b, ht, (separates_name hn hw1).2 hc, ?_, rfl⟩
    · rw [ht, List.append_assoc]
      exact name_head hn _
    · rw [stripEnd_append hw1, stripEnd_name hn]

theorem valueStart_option (hn : name ∈ configMapping.map Prod.fst)
    (hline : stripEnd s = w0 ++ name ++ w1 ++ c :: b) (hw : ∀ x ∈ w0 ++ w1, isspace x)
    (hc : c = 61 ∨ c = 58 ∧ ¬ EqualsIn b) :
    valueStart s = (w0 ++ name ++ w1).length + 1 + lead b := by
  obtain ⟨hw0, hw1⟩ := List.forall_mem_append.1 hw
  have hlead := lead_add_length (s := stripEnd s)
  have ht := stripStart_option hn hline hw
  have hlen := congrArg List.length hline
  unfold valueStart nameStart
  rw [ht] at hlead ⊢
  dsimp only
  rw [sepPos_eq ((separates_name hn hw1).2 hc), drop_sep]
  simp only [List.length_append, List.length_cons] at hlead hlen ⊢
  omega

end

/-- A value ends at the first comment behind its white space. -/
theorem valueOf_eq_iff : valueOf b = value ↔ ∃ x y, stripStart b = x ++ y ∧ 0 ∉ x ∧
    Uncommented false x ∧ Stops 0 (endsBlank false x) y ∧ value = stripEnd x := by
  have hsplit := List.take_append_drop (findCharLoop 0 false (stripStart b)) (stripStart b)
  have hlen : ((stripStart b).take (findCharLoop 0 false (stripStart b))).length =
      findCharLoop 0 false (stripStart b) := List.length_take_of_le findCharLoop_le
  unfold valueOf
  constructor
  · rintro rfl
    obtain ⟨h0, -, hu, hstops⟩ := findCharLoop_eq_length_iff.1
      ((congrArg (findCharLoop 0 false) hsplit).trans hlen.symm)
    exact ⟨_, _, hsplit.symm, h0, hu, hstops, rfl⟩
  · rintro ⟨x, y, hxy, h0, hu, hstops, rfl⟩
    have hx : findCharLoop 0 false (x ++ y) = x.length :=
      findCharLoop_eq_length_iff.2 ⟨h0, h0, hu, hstops⟩
    rw [hxy, hx, List.take_left]

end Evsip.Config
