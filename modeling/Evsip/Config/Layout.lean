import Evsip.Config.Calls

/-! White space, comments and the two separators of a line, against what the handler is
given. -/

namespace Evsip.Config
open CLib

/-- A value that stays as it is: nothing to strip at its ends, nothing that starts a comment. -/
structure Plain (v : List UInt8) : Prop where
  noNul : 0 ∉ v
  noNewline : 10 ∉ v
  head : ∀ c ∈ v.head?, isspace c = false
  last : ∀ c ∈ v.getLast?, isspace c = false
  start : v.head? ≠ some 59
  inner : ∀ w, isspace w → ¬ [w, 59] <:+: v

def Blank (w : List UInt8) : Prop := (∀ c ∈ w, isspace c) ∧ 10 ∉ w

instance (w : List UInt8) : Decidable (Blank w) :=
  decidable_of_iff (w.all isspace ∧ 10 ∉ w) (and_congr_left' List.all_eq_true)

def Trailer (s : List UInt8) : Prop :=
  s = [] ∨ ∃ w text, w ≠ [] ∧ Blank w ∧ 0 ∉ text ∧ 10 ∉ text ∧ s = w ++ 59 :: text

variable {a b v w s t r name : List UInt8} {c x : UInt8} {was : Bool}

theorem isspace_ne (h : isspace x) (hc : isspace c = false) : x ≠ c := by
  rintro rfl
  rw [hc] at h
  cases h

/-! The scan -/

def endsBlank (was : Bool) (s : List UInt8) : Bool := (s.getLast?.map isspace).getD was

theorem endsBlank_cons (b : UInt8) : endsBlank was (b :: s) = endsBlank (isspace b) s := by
  cases s with
  | nil => rfl
  | cons d s =>
    unfold endsBlank
    rw [List.getLast?_cons_cons]
    cases h : (d :: s).getLast? with
    | none => simp at h
    | some => rfl

theorem findCharLoop_append_of_lt (h : findCharLoop c was a < a.length) :
    findCharLoop c was (a ++ b) = findCharLoop c was a := by
  induction a generalizing was with
  | nil => cases h
  | cons d a ih =>
    rw [findCharLoop] at h
    rw [List.cons_append, findCharLoop, findCharLoop]
    split_ifs at h ⊢
    · rw [ih (Nat.lt_of_succ_lt_succ h)]
    · rfl

theorem findCharLoop_append_of_eq (h : findCharLoop c was a = a.length) :
    findCharLoop c was (a ++ b) = a.length + findCharLoop c (endsBlank was a) b := by
  induction a generalizing was with
  | nil => simp [endsBlank]
  | cons d a ih =>
    rw [findCharLoop] at h
    rw [List.cons_append, findCharLoop, endsBlank_cons]
    split_ifs at h ⊢
    rw [ih (Nat.succ.inj h), List.length_cons, Nat.add_right_comm]

theorem findCharLoop_ordinary (h : ∀ x ∈ a, x ≠ 0 ∧ x ≠ c ∧ x ≠ 59) :
    findCharLoop c was a = a.length := by
  induction a generalizing was with
  | nil => rfl
  | cons d a ih =>
    obtain ⟨⟨h0, hc, h59⟩, ha⟩ := List.forall_mem_cons.1 h
    rw [findCharLoop, if_pos ⟨h0, hc, fun h => h59 h.2⟩, ih ha, List.length_cons]

theorem findCharLoop_blank (h : ∀ x ∈ a, isspace x) (hc : isspace c = false) :
    findCharLoop c was a = a.length :=
  findCharLoop_ordinary fun x hx =>
    ⟨isspace_ne (h x hx) rfl, isspace_ne (h x hx) hc, isspace_ne (h x hx) rfl⟩

theorem findCharLoop_uncommented (h0 : 0 ∉ v) (hstart : was → v.head? ≠ some 59)
    (hinner : ∀ w, isspace w → ¬ [w, 59] <:+: v) : findCharLoop 0 was v = v.length := by
  induction v generalizing was with
  | nil => rfl
  | cons d v ih =>
    have hd : d ≠ 0 := fun h => h0 (by simp [h])
    have hcomment : ¬ (was ∧ d = 59) := fun h => hstart h.1 (by simp [h.2])
    have hnext : isspace d → v.head? ≠ some 59 := fun hs h => hinner d hs (by
      obtain ⟨v', rfl⟩ := List.head?_eq_some_iff.1 h
      exact ⟨[], v', rfl⟩)
    rw [findCharLoop, if_pos ⟨hd, hd, hcomment⟩, List.length_cons,
      ih (fun h => h0 (List.mem_cons_of_mem d h)) hnext fun w hw h => hinner w hw (h.trans
        (List.suffix_cons d v).isInfix)]

theorem findCharLoop_stripEnd (hc : isspace c = false) (was : Bool) (s : List UInt8) :
    (findCharLoop c was (stripEnd s) < (stripEnd s).length ∧
      findCharLoop c was s = findCharLoop c was (stripEnd s)) ∨
    (findCharLoop c was (stripEnd s) = (stripEnd s).length ∧ findCharLoop c was s = s.length) := by
  have hs : stripEnd s ++ s.rtakeWhile isspace = s := List.rdropWhile_append_rtakeWhile
  have hblank : ∀ x ∈ s.rtakeWhile isspace, isspace x := fun x => List.mem_rtakeWhile_imp
  have hle : findCharLoop c was (stripEnd s) ≤ (stripEnd s).length := findCharLoop_le
  rcases hle.lt_or_eq with hlt | heq
  · left
    refine ⟨hlt, ?_⟩
    rw [← findCharLoop_append_of_lt hlt, hs]
  · right
    have hall := findCharLoop_append_of_eq (b := s.rtakeWhile isspace) heq
    rw [hs, findCharLoop_blank hblank hc, ← List.length_append, hs] at hall
    exact ⟨heq, hall⟩

theorem valueOf_stripEnd : valueOf (stripEnd s) = valueOf s := by
  have hcomm : stripStart (stripEnd s) = stripEnd (stripStart s) := List.dropWhile_rdropWhile
  have hself : ∀ y, stripEnd (stripEnd y) = stripEnd y := fun y => List.rdropWhile_idempotent _ _
  unfold valueOf
  rw [hcomm]
  generalize stripStart s = y
  rcases findCharLoop_stripEnd (c := 0) rfl false y with ⟨hlt, heq⟩ | ⟨hfull, hfull'⟩
  · obtain ⟨rest, hrest⟩ : stripEnd y <+: y := List.rdropWhile_prefix _ _
    have htake : (stripEnd y).take (findCharLoop 0 false (stripEnd y)) =
        y.take (findCharLoop 0 false (stripEnd y)) :=
      (List.take_append_of_le_length hlt.le).symm.trans (congrArg (List.take _) hrest)
    rw [heq, htake]
  · rw [hfull, hfull', List.take_length, List.take_length, hself]

/-! Values -/

theorem stripEnd_append (h : ∀ x ∈ w, isspace x) : stripEnd (s ++ w) = stripEnd s :=
  List.rdropWhile_append_of_pos h

theorem stripStart_append (h : ∀ x ∈ w, isspace x) : stripStart (w ++ s) = stripStart s :=
  List.dropWhile_append_of_pos h

namespace Plain

theorem stripEnd_eq (hv : Plain v) : stripEnd v = v := by
  refine List.rdropWhile_eq_self_iff.2 fun hne => ?_
  simpa using hv.last (v.getLast hne) (List.getLast?_eq_getLast_of_ne_nil hne)

theorem stripStart_eq (hv : Plain v) (hne : v ≠ []) : stripStart (v ++ s) = v ++ s := by
  cases v with
  | nil => exact absurd rfl hne
  | cons x v => exact List.dropWhile_cons_of_neg (by simpa using hv.head x rfl)

theorem of_not_mem (h0 : 0 ∉ v) (h10 : 10 ∉ v) (hhead : ∀ c ∈ v.head?, isspace c = false)
    (hlast : ∀ c ∈ v.getLast?, isspace c = false) (h59 : 59 ∉ v) : Plain v :=
  ⟨h0, h10, hhead, hlast, fun h => h59 (List.mem_of_head? h), fun w _ h => h59 (h.subset (by simp))⟩

theorem scan_eq (hv : Plain v) : findCharLoop 0 false v = v.length :=
  findCharLoop_uncommented hv.noNul (by simp) hv.inner

theorem valueOf_eq (hv : Plain v) (hw : ∀ x ∈ w, isspace x) : valueOf (w ++ v) = v := by
  unfold valueOf
  rw [stripStart_append hw]
  by_cases hne : v = []
  · subst hne
    rfl
  · have hstart : stripStart v = v := by simpa using hv.stripStart_eq (s := []) hne
    rw [hstart, hv.scan_eq, List.take_length, hv.stripEnd_eq]

theorem valueOf_comment (hv : Plain v) (hne : v ≠ []) (hw : ∀ x ∈ w, isspace x)
    (ha : ∀ x ∈ a, isspace x) (hane : a ≠ []) : valueOf (w ++ v ++ a ++ 59 :: t) = v := by
  have hfull : findCharLoop 0 false (v ++ a) = (v ++ a).length := by
    rw [findCharLoop_append_of_eq hv.scan_eq, findCharLoop_blank ha rfl, List.length_append]
  have hends : endsBlank false (v ++ a) = true := by
    rw [endsBlank, List.getLast?_append_of_ne_nil v hane, List.getLast?_eq_getLast_of_ne_nil hane]
    exact ha _ (List.getLast_mem hane)
  unfold valueOf
  rw [List.append_assoc, List.append_assoc, stripStart_append hw, hv.stripStart_eq hne,
    ← List.append_assoc, findCharLoop_append_of_eq hfull, hends]
  have hstop : findCharLoop 0 true (59 :: t) = 0 := rfl
  rw [hstop, Nat.add_zero, List.take_left, stripEnd_append ha, hv.stripEnd_eq]

end Plain

theorem valueOf_comment_ne_nil (hw : ∀ x ∈ w, isspace x) : valueOf (w ++ 59 :: t) ≠ [] := by
  have hstart : stripStart (59 :: t) = 59 :: t := rfl
  have hscan : findCharLoop 0 false (59 :: t) = findCharLoop 0 false t + 1 := rfl
  have hend : ∀ y, stripEnd (59 :: y) = 59 :: stripEnd y := fun y => stripEnd_cons rfl
  unfold valueOf
  rw [stripStart_append hw, hstart, hscan, List.take_succ_cons, hend]
  exact List.cons_ne_nil _ _

/-! Names and separators -/

theorem name_ordinary (h : name ∈ configMapping.map Prod.fst) : name ≠ [] ∧ ∀ x ∈ name,
    isspace x = false ∧ x ≠ 0 ∧ x ≠ 10 ∧ x ≠ 58 ∧ x ≠ 59 ∧ x ≠ 61 := by
  revert name
  decide +kernel

theorem name_head (h : name ∈ configMapping.map Prod.fst) (s : List UInt8) :
    (name ++ s).head? ≠ some 59 := by
  obtain ⟨hne, hhead⟩ : name ≠ [] ∧ name.head? ≠ some 59 := by
    revert name
    decide
  rwa [List.head?_append_of_ne_nil _ hne]

theorem name_unmarked (h : name ∈ configMapping.map Prod.fst) :
    ∀ x ∈ name, x ≠ 0 ∧ x ≠ 61 ∧ x ≠ 59 := fun x hx =>
  have hx := ((name_ordinary h).2 x hx).2
  ⟨hx.1, hx.2.2.2.2, hx.2.2.2.1⟩

theorem stripEnd_name (h : name ∈ configMapping.map Prod.fst) : stripEnd name = name := by
  obtain ⟨hne, hall⟩ := name_ordinary h
  refine List.rdropWhile_eq_self_iff.2 fun hne => ?_
  simpa using (hall _ (List.getLast_mem hne)).1

theorem drop_sep : (a ++ c :: s).drop (a.length + 1) = s := by
  rw [← List.drop_drop, List.drop_left]
  rfl

theorem entryOf_sep (hstart : (a ++ c :: s).head? ≠ some 59) (hc : c = 61 ∨ c = 58)
    (hsep : sepPos (a ++ c :: s) = a.length) :
    entryOf (a ++ c :: s) = some (stripEnd a, valueOf s) := by
  have hskip : ¬ (a ++ c :: s = [] ∨ (a ++ c :: s).head? = some 59) :=
    not_or.2 ⟨by simp, hstart⟩
  have hget : (a ++ c :: s).getD a.length 0 = c := by simp [List.getD_eq_getElem?_getD]
  unfold entryOf
  rw [if_neg hskip, hsep, hget, if_pos hc, List.take_left, drop_sep]

theorem sepPos_equals (h : ∀ x ∈ a, x ≠ 0 ∧ x ≠ 61 ∧ x ≠ 59) : sepPos (a ++ 61 :: s) = a.length := by
  have hscan : findCharLoop 61 false (a ++ 61 :: s) = a.length := by
    rw [findCharLoop_append_of_eq (findCharLoop_ordinary h)]
    rfl
  have hget : (a ++ 61 :: s).getD a.length 0 = 61 := by simp [List.getD_eq_getElem?_getD]
  unfold sepPos
  rw [hscan, if_pos hget]

theorem stripStart_name (hn : name ∈ configMapping.map Prod.fst) (hw : ∀ x ∈ w, isspace x) :
    stripStart (w ++ name ++ s) = name ++ s := by
  obtain ⟨hne, hname⟩ := name_ordinary hn
  rw [List.append_assoc, stripStart_append hw]
  cases name with
  | nil => exact absurd rfl hne
  | cons x name => exact List.dropWhile_cons_of_neg (by simpa using (hname x (by simp)).1)

theorem strip_line {w0 w1 : List UInt8} (hn : name ∈ configMapping.map Prod.fst)
    (hw0 : ∀ x ∈ w0, isspace x) (hc : isspace c = false) :
    stripStart (stripEnd (w0 ++ name ++ w1 ++ c :: s)) = name ++ w1 ++ c :: stripEnd s := by
  have hend : stripEnd (w0 ++ name ++ w1 ++ c :: s) = w0 ++ name ++ w1 ++ c :: stripEnd s :=
    List.rdropWhile_append_cons (by simpa using hc)
  rw [hend, List.append_assoc, stripStart_name hn hw0, List.append_assoc]

/-- An option and a value with white space around them, and a comment behind, if any. -/
structure Setting where
  name : List UInt8
  value : List UInt8
  w0 : List UInt8
  w1 : List UInt8
  w2 : List UInt8
  w3 : List UInt8
  comment : List UInt8
  isOption : name ∈ configMapping.map Prod.fst
  plain : Plain value
  blank : ∀ w ∈ [w0, w1, w2, w3], Blank w
  trailer : Trailer comment

namespace Setting

def line (s : Setting) : List UInt8 :=
  s.w0 ++ s.name ++ s.w1 ++ 61 :: (s.w2 ++ s.value ++ s.w3 ++ s.comment)

variable (s : Setting) {nl : List UInt8}

theorem blank_w (hw : w ∈ [s.w0, s.w1, s.w2, s.w3]) : ∀ x ∈ w, isspace x := (s.blank w hw).1

theorem line_ordinary : ∀ x ∈ s.line, x ≠ 0 ∧ x ≠ 10 := by
  have hblank : ∀ w ∈ [s.w0, s.w1, s.w2, s.w3], ∀ x ∈ w, x ≠ 0 ∧ x ≠ 10 := fun w hw x hx =>
    ⟨isspace_ne (s.blank_w hw x hx) rfl, ne_of_mem_of_not_mem hx (s.blank w hw).2⟩
  have hname : ∀ x ∈ s.name, x ≠ 0 ∧ x ≠ 10 := fun x hx =>
    have h := (name_ordinary s.isOption).2 x hx
    ⟨h.2.1, h.2.2.1⟩
  have hvalue : ∀ x ∈ s.value, x ≠ 0 ∧ x ≠ 10 := fun x hx =>
    ⟨ne_of_mem_of_not_mem hx s.plain.noNul, ne_of_mem_of_not_mem hx s.plain.noNewline⟩
  have hcomment : ∀ x ∈ s.comment, x ≠ 0 ∧ x ≠ 10 := by
    rcases s.trailer with h | ⟨w, text, -, hw, h0, h10, h⟩
    · simp [h]
    · rw [h]
      simp only [List.forall_mem_append, List.forall_mem_cons]
      exact ⟨fun x hx => ⟨isspace_ne (hw.1 x hx) rfl, ne_of_mem_of_not_mem hx hw.2⟩, by decide,
        fun x hx => ⟨ne_of_mem_of_not_mem hx h0, ne_of_mem_of_not_mem hx h10⟩⟩
  unfold line
  simp only [List.forall_mem_append, List.forall_mem_cons]
  exact ⟨⟨⟨hblank _ (by simp), hname⟩, hblank _ (by simp)⟩, by decide,
    ⟨⟨hblank _ (by simp), hvalue⟩, hblank _ (by simp)⟩, hcomment⟩

theorem lineEntry_eq (h : Ending nl) : lineEntry (s.line ++ nl) =
    some (s.name, valueOf (s.w2 ++ s.value ++ s.w3 ++ s.comment)) := by
  have hw1 := s.blank_w (w := s.w1) (by simp)
  have hstart : ∀ x, (s.name ++ s.w1 ++ x).head? ≠ some 59 := fun x => by
    rw [List.append_assoc]
    exact name_head s.isOption _
  have hsep : ∀ x ∈ s.name ++ s.w1, x ≠ 0 ∧ x ≠ 61 ∧ x ≠ 59 := by
    refine List.forall_mem_append.2 ⟨name_unmarked s.isOption, fun x hx => ?_⟩
    exact ⟨isspace_ne (hw1 x hx) rfl, isspace_ne (hw1 x hx) rfl, isspace_ne (hw1 x hx) rfl⟩
  rw [lineEntry_line h fun h0 => (s.line_ordinary 0 h0).1 rfl, line,
    strip_line s.isOption (s.blank_w (by simp)) rfl,
    entryOf_sep (hstart _) (.inl rfl) (sepPos_equals hsep), stripEnd_append hw1,
    stripEnd_name s.isOption, valueOf_stripEnd]

theorem valueOf_iff : valueOf (s.w2 ++ s.value ++ s.w3 ++ s.comment) = s.value ↔
    s.value ≠ [] ∨ s.comment = [] := by
  have hw2 := s.blank_w (w := s.w2) (by simp)
  have hw3 := s.blank_w (w := s.w3) (by simp)
  rcases s.trailer with hnone | ⟨w, text, hw, hblank, -, -, hcomment⟩
  · have hvalue : valueOf (s.w2 ++ s.value ++ s.w3) = s.value := by
      rw [← valueOf_stripEnd, stripEnd_append hw3, valueOf_stripEnd, s.plain.valueOf_eq hw2]
    rw [hnone, List.append_nil]
    exact iff_of_true hvalue (.inr rfl)
  · have hspace : ∀ x ∈ s.w3 ++ w, isspace x := List.forall_mem_append.2 ⟨hw3, hblank.1⟩
    have hline : s.w2 ++ s.value ++ s.w3 ++ s.comment =
        s.w2 ++ s.value ++ (s.w3 ++ w) ++ 59 :: text := by simp [hcomment]
    rw [hline]
    by_cases hv : s.value = []
    · have hlead : ∀ x ∈ s.w2 ++ (s.w3 ++ w), isspace x := List.forall_mem_append.2 ⟨hw2, hspace⟩
      simpa [hv, hcomment] using valueOf_comment_ne_nil (t := text) hlead
    · simpa [hv] using s.plain.valueOf_comment (t := text) hv hw2 hspace (by simp [hw])

/-- The handler is given the name and the value, unless a comment takes the place of a value. -/
theorem handed_over_iff (h : Ending nl) (hlen : s.line.length ≤ 126)
    (beyond : Nat → Nat → UInt8) (n : Nat) (st : Parser) :
    ((passes beyond n (fgetsChunks [] (s.line ++ nl))).run st).1.filterMap
        (Option.map Call.strings) = [(s.name, s.value)] ↔ s.value ≠ [] ∨ s.comment = [] := by
  have hne : s.line ≠ [] := by simp [line]
  have h10 : 10 ∉ s.line := fun hm => (s.line_ordinary 10 hm).2 rfl
  rw [passes_strings, fgetsChunks_line h hne h10 hlen, ← s.valueOf_iff]
  simp [s.lineEntry_eq h]

def port : Setting where
  name := bytes "local_port"
  value := bytes "5061"
  w0 := []
  w1 := [32]
  w2 := [32]
  w3 := []
  comment := bytes " ; not the usual one"
  isOption := by decide
  plain := .of_not_mem (by decide) (by decide) (by decide +kernel) (by decide +kernel) (by decide)
  blank := by decide
  trailer := .inr ⟨[32], bytes " not the usual one", by decide⟩

theorem handed_over_iff_port : ((passes (fun _ _ => 0) 1 (fgetsChunks [] (port.line ++ [10]))).run
      ⟨.replicate maxLine 0, .zero, []⟩).1.filterMap (Option.map Call.strings) =
    [(port.name, port.value)] ↔ port.value ≠ [] ∨ port.comment = [] :=
  port.handed_over_iff (.inr rfl) (by decide) _ _ _

def empty : Setting where
  name := bytes "user_agent"
  value := []
  w0 := []
  w1 := []
  w2 := []
  w3 := []
  comment := bytes " ;x"
  isOption := by decide
  plain := .of_not_mem (by decide) (by decide) (by decide +kernel) (by decide +kernel) (by decide)
  blank := by decide
  trailer := .inr ⟨[32], bytes "x", by decide⟩

theorem not_handed_over_empty : ((passes (fun _ _ => 0) 1 (fgetsChunks [] empty.line)).run
      ⟨.replicate maxLine 0, .zero, []⟩).1.filterMap (Option.map Call.strings) =
        [(bytes "user_agent", bytes ";x")] ∧
    ((passes (fun _ _ => 0) 1 (fgetsChunks [] empty.line)).run
      ⟨.replicate maxLine 0, .zero, []⟩).1.filterMap (Option.map Call.strings) ≠
        [(empty.name, empty.value)] := by
  rw [passes_strings]
  decide +kernel

end Setting

end Evsip.Config
