import Evsip.Config.Scan

/-! Long lines: `fgets` cuts them, and each piece is parsed as if it were a line. -/

namespace Evsip.Config
open CLib

def IsComment (l : List UInt8) : Prop := (stripStart l).head? = some 59

/-- A comment changes no option; from any other line the handler is called once at most, with the
name its first characters make. -/
def ActsOnce (l : List UInt8) : Prop :=
  ∀ (beyond : Nat → Nat → UInt8) (n : Nat) (st : Parser),
    (IsComment l → ((parseLoop beyond n (fgetsChunks [] l)).run st).2.config.options =
      st.config.options) ∧
    (¬ IsComment l → ∀ k call,
      ((passes beyond n (fgetsChunks [] l)).run st).1[k]? = some (some call) →
        ((fgetsChunks [] l).take k).flatten.length + call.name = lead l ∧
        ∀ k' call', ((passes beyond n (fgetsChunks [] l)).run st).1[k']? = some (some call') →
          k' = k)

def piece (l : List UInt8) (k : Nat) : List UInt8 := (l.drop (127 * k)).take 127

/-- Behind the piece a line's first character lies in, no piece is a line of configuration. -/
def Whole (l : List UInt8) : Prop :=
  ∀ k, lead l < 127 * k → ∀ e, lineEntry (piece l k) = some e → IsComment l ∧ slotOf e.1 = none

variable {l a b : List UInt8} {k n : Nat} {e : List UInt8 × List UInt8} {call : Call} {st : Parser}
  {beyond : Nat → Nat → UInt8}

/-- In a comment no later piece sets an option, elsewhere each is blank, a comment, or without a
separator. -/
theorem whole_iff : Whole l ↔ ∀ k, lead l < 127 * k →
    (IsComment l → ∀ slot v, ¬ Reads (piece l k) (slotName slot) v) ∧
    (¬ IsComment l → ∀ a c b,
      stripStart (stripEnd ((piece l k).takeWhile (· ≠ 0))) = a ++ c :: b → Separates a c b →
      (a ++ c :: b).head? = some 59) := by
  refine forall₂_congr fun k _ => ?_
  by_cases hcomment : IsComment l
  · simp only [hcomment, true_and, not_true, false_implies, and_true, true_implies,
      ← lineEntry_option_iff (slotName_mem _)]
    constructor
    · intro h slot v he
      simpa [slotOf_slotName] using h _ he
    · intro h e he
      exact Option.eq_none_iff_forall_ne_some.2 fun slot hs =>
        h slot e.2 (slotOf_eq_some_iff.1 hs ▸ he)
  · simp only [hcomment, false_and, not_false_eq_true, false_implies, true_and, true_implies]
    constructor
    · intro h a c b ht hs
      by_contra hhead
      exact h _ (entryOf_eq_some_iff.2 ⟨ht ▸ hhead, a, c, b, ht, hs, rfl, rfl⟩)
    · rintro h ⟨name, v⟩ he
      obtain ⟨hhead, a, c, b, ht, hs, -, -⟩ := entryOf_eq_some_iff.1 he
      exact hhead (ht ▸ h a c b ht hs)

/-! Pieces -/

theorem IsLine.drop (h : IsLine l) (hne : l.drop k ≠ []) : IsLine (l.drop k) := by
  refine ⟨hne, fun hm => h.2 ?_⟩
  rw [← List.take_append_drop k l, List.dropLast_append_of_ne_nil hne]
  exact List.mem_append_right _ hm

theorem fgetsChunks_get (h : IsLine l) (k : Nat) :
    (fgetsChunks [] l)[k]? = if 127 * k < l.length then some (piece l k) else none := by
  induction k generalizing l with
  | zero =>
    rw [fgetsChunks_take h (by decide)]
    simp [piece, List.length_pos_iff.2 h.1]
  | succ k ih =>
    rw [fgetsChunks_take h (by decide), List.getElem?_cons_succ, List.length_nil, Nat.sub_zero]
    by_cases hne : l.drop 127 = []
    · have hle : l.length ≤ 127 := List.drop_eq_nil_iff.1 hne
      rw [hne, if_neg (by omega)]
      rfl
    · rw [ih (h.drop hne), piece, piece, List.drop_drop, List.length_drop]
      congr 1
      · exact propext (by omega)
      · rw [Nat.mul_succ, Nat.add_comm]

theorem flatten_take (h : IsLine l) (hk : 127 * k ≤ l.length) :
    ((fgetsChunks [] l).take k).flatten.length = 127 * k := by
  induction k with
  | zero => rfl
  | succ k ih =>
    have hget := fgetsChunks_get h k
    rw [if_pos (by omega)] at hget
    rw [List.take_add_one, hget, List.flatten_append, List.length_append, ih (by omega)]
    simp [piece]
    omega

/-! The first character -/

theorem stripStart_append_of_ne (h : stripStart a ≠ []) : stripStart (a ++ b) = stripStart a ++ b := by
  unfold stripStart at *
  rw [List.dropWhile_append, if_neg (by simpa using h)]

theorem lead_append_of_ne (h : stripStart a ≠ []) : lead (a ++ b) = lead a := by
  have ha := lead_add_length (s := a)
  have hab := lead_add_length (s := a ++ b)
  rw [stripStart_append_of_ne h, List.length_append, List.length_append] at hab
  omega

theorem stripStart_drop (h : k ≤ lead l) : stripStart (l.drop k) = stripStart l := by
  induction k generalizing l with
  | zero => rfl
  | succ k ih =>
    cases l with
    | nil => rfl
    | cons c l =>
      unfold lead at h
      by_cases hc : isspace c
      · rw [List.takeWhile_cons_of_pos hc, List.length_cons] at h
        rw [List.drop_succ_cons, ih (Nat.le_of_succ_le_succ h)]
        exact (List.dropWhile_cons_of_pos hc).symm
      · rw [List.takeWhile_cons_of_neg hc] at h
        cases h

theorem lead_drop (h : k ≤ lead l) : lead (l.drop k) = lead l - k := by
  have hl := lead_add_length (s := l)
  have hdrop := lead_add_length (s := l.drop k)
  rw [stripStart_drop h, List.length_drop] at hdrop
  omega

theorem lineEntry_start (h : lineEntry (piece l k) = some e) :
    nameStart ((piece l k).takeWhile (· ≠ 0)) = lead (l.drop (127 * k)) ∧
      (stripStart (l.drop (127 * k))).head? ≠ some 59 ∧ lead (l.drop (127 * k)) < 127 := by
  have hlen : (piece l k).length ≤ 127 := List.length_take_le _ _
  obtain ⟨r₁, hr₁⟩ : (piece l k).takeWhile (· ≠ 0) <+: l.drop (127 * k) :=
    (List.takeWhile_prefix _).trans (List.take_prefix _ _)
  have htext : ((piece l k).takeWhile (· ≠ 0)).length ≤ 127 :=
    (List.takeWhile_prefix _).length_le.trans hlen
  unfold lineEntry at h
  generalize (piece l k).takeWhile (· ≠ 0) = text at *
  obtain ⟨r₂, hr₂⟩ : stripEnd text <+: text := List.rdropWhile_prefix _ _
  rw [← hr₁, ← hr₂, List.append_assoc]
  have hskip : ¬ (stripStart (stripEnd text) = [] ∨ (stripStart (stripEnd text)).head? = some 59) :=
    fun hs => by rw [entryOf, if_pos hs] at h; cases h
  obtain ⟨hne, hhead⟩ := not_or.1 hskip
  have hlead := lead_add_length (s := stripEnd text)
  have hpos := List.length_pos_iff.2 hne
  have hend : (stripEnd text).length ≤ text.length := stripEnd_length_le
  rw [stripStart_append_of_ne hne, lead_append_of_ne hne, List.head?_append_of_ne_nil _ hne]
  exact ⟨hr₂.symm ▸ rfl, hhead, by omega⟩

theorem lt_of_lineEntry (h : lineEntry (piece l k) = some e) : 127 * k < l.length := by
  by_contra hk
  have hnil : piece l k = [] := by rw [piece, List.drop_of_length_le (not_lt.1 hk), List.take_nil]
  rw [hnil] at h
  cases h

/-! The calls -/

theorem calls_get (h : IsLine l) :
    ((passes beyond n (fgetsChunks [] l)).run st).1[k]? = some (some call) ↔
      chunkCall (piece l k) = some call := by
  rw [passes_calls, List.getElem?_map, fgetsChunks_get h]
  split_ifs with hk
  · simp
  · refine iff_of_false (by simp) fun hcall => hk ?_
    obtain ⟨e, he, -⟩ := Option.map_eq_some_iff.1 hcall
    exact lt_of_lineEntry he

theorem chunkCall_start (h : chunkCall (piece l k) = some call) : ∃ e,
    lineEntry (piece l k) = some e ∧ call.name = lead (l.drop (127 * k)) := by
  obtain ⟨e, he, rfl⟩ := Option.map_eq_some_iff.1 h
  exact ⟨e, he, (lineEntry_start he).1⟩

theorem mem_entries (h : IsLine l) :
    e ∈ (fgetsChunks [] l).filterMap lineEntry ↔ ∃ k, lineEntry (piece l k) = some e := by
  rw [List.mem_filterMap]
  constructor
  · rintro ⟨chunk, hchunk, he⟩
    obtain ⟨k, hk⟩ := List.mem_iff_getElem?.1 hchunk
    rw [fgetsChunks_get h] at hk
    split_ifs at hk
    cases hk
    exact ⟨k, he⟩
  · rintro ⟨k, he⟩
    have hget := fgetsChunks_get h k
    rw [if_pos (lt_of_lineEntry he)] at hget
    exact ⟨piece l k, List.mem_of_getElem? hget, he⟩

theorem foldl_set_none {es : List (List UInt8 × List UInt8)} (h : ∀ e ∈ es, slotOf e.1 = none)
    (x : Options) : es.foldl Options.set x = x := by
  induction es with
  | nil => rfl
  | cons e es ih =>
    obtain ⟨he, hes⟩ := List.forall_mem_cons.1 h
    rw [List.foldl_cons, Options.set, he]
    exact ih hes

theorem exists_lastValue {es : List (List UInt8 × List UInt8)} (he : e ∈ es) :
    ∃ v, lastValue e.1 es = some v := by
  have hmem : e ∈ es.filter fun e' => e'.1 = e.1 := List.mem_filter.2 ⟨he, by simp⟩
  unfold lastValue
  rw [List.getLast?_eq_getLast_of_ne_nil (List.ne_nil_of_mem hmem)]
  exact ⟨_, rfl⟩

theorem lineEntry_comment (h : IsComment l) (hk : 127 * k ≤ lead l) :
    lineEntry (piece l k) = none := by
  rcases he : lineEntry (piece l k) with _ | e
  · rfl
  · have hhead := (lineEntry_start he).2.1
    rw [stripStart_drop hk] at hhead
    exact absurd h hhead

theorem actsOnce_of_whole (h : IsLine l) (hwhole : Whole l) : ActsOnce l := by
  intro beyond n st
  constructor
  · intro hcomment
    rw [parseLoop_options]
    refine foldl_set_none (fun e he => ?_) _
    obtain ⟨k, hk⟩ := (mem_entries h).1 he
    rcases Nat.lt_or_ge (lead l) (127 * k) with hlt | hge
    · exact (hwhole k hlt e hk).2
    · rw [lineEntry_comment hcomment hge] at hk
      cases hk
  · intro hcomment
    have hstart : ∀ k call, ((passes beyond n (fgetsChunks [] l)).run st).1[k]? = some (some call) →
        127 * k ≤ lead l ∧ lead l < 127 * k + 127 ∧ 127 * k < l.length ∧
          call.name = lead l - 127 * k := by
      intro k call hcall
      obtain ⟨e, he, hname⟩ := chunkCall_start ((calls_get h).1 hcall)
      have hle : 127 * k ≤ lead l := not_lt.1 fun hlt => hcomment (hwhole k hlt e he).1
      have hlt := (lineEntry_start he).2.2
      rw [lead_drop hle] at hname hlt
      exact ⟨hle, by omega, lt_of_lineEntry he, hname⟩
    intro k call hcall
    obtain ⟨hle, hlt, hlen, hname⟩ := hstart k call hcall
    refine ⟨?_, fun k' call' hcall' => ?_⟩
    · rw [flatten_take h hlen.le, hname]
      omega
    · obtain ⟨hle', hlt', -⟩ := hstart k' call' hcall'
      omega

theorem whole_of_actsOnce (h : IsLine l) (hacts : ActsOnce l) : Whole l := by
  intro k hlt e he
  by_cases hcomment : IsComment l
  · refine ⟨hcomment, Option.eq_none_iff_forall_ne_some.2 fun slot hslot => ?_⟩
    obtain ⟨v, hv⟩ := exists_lastValue ((mem_entries h).2 ⟨k, he⟩)
    obtain ⟨c, -, hne⟩ := exists_get_ne slot (slot.read v)
    have hkept := (hacts (fun _ _ => 0) 1 ⟨.replicate maxLine 0, c, []⟩).1 hcomment
    have hget := congrArg (Options.get · slot) hkept
    dsimp only at hget
    rw [parseLoop_options, foldl_set_get, ← slotOf_eq_some_iff.1 hslot, hv] at hget
    exact hne hget.symm
  · obtain ⟨call, hcall⟩ : ∃ call, chunkCall (piece l k) = some call := by
      rw [chunkCall, he]
      exact ⟨_, rfl⟩
    have hstart := ((hacts (fun _ _ => 0) 1 ⟨.replicate maxLine 0, .zero, []⟩).2 hcomment k _
      ((calls_get h).2 hcall)).1
    rw [flatten_take h (lt_of_lineEntry he).le] at hstart
    omega

/-- The lines of a file act once each exactly when no later piece of one is a line of
configuration. -/
theorem lines_act_once_iff (content : List UInt8) :
    (∀ l ∈ physicalLines [] content, ActsOnce l) ↔ ∀ l ∈ physicalLines [] content, Whole l :=
  forall₂_congr fun _ hl =>
    have h := isLine_of_mem List.not_mem_nil hl
    ⟨whole_of_actsOnce h, actsOnce_of_whole h⟩

def longComment : List UInt8 := 59 :: .replicate 126 120 ++ bytes "local_port=1"

theorem not_lines_act_once : ¬ ∀ l ∈ physicalLines [] longComment, ActsOnce l := by
  have hlines : physicalLines [] longComment = [longComment] := by decide +kernel
  have hentry : lineEntry (piece longComment 1) = some (bytes "local_port", bytes "1") := by
    decide +kernel
  have hline : IsLine longComment := ⟨by decide, by decide +kernel⟩
  rw [hlines, List.forall_mem_singleton]
  intro hacts
  have hslot := (whole_of_actsOnce hline hacts 1 (by decide +kernel) _ hentry).2
  exact absurd hslot (by decide)

end Evsip.Config
