import Evsip.Config.Settings
import Evsip.Lib.Strip

/-! The calls of the handler while a file is read, and the lines of the file against what the
calls of `fgets` make of them. -/

namespace Evsip.Config
open CLib

/-- A call of the handler: where its arguments start in the buffer, and the strings there. -/
structure Call where
  name : Nat
  value : Nat
  nameText : List UInt8
  valueText : List UInt8
  deriving DecidableEq

def Call.read (line : List UInt8) (args : Nat × Nat) : Call where
  name := args.1
  value := args.2
  nameText := (line.drop args.1).takeWhile (· ≠ 0)
  valueText := (line.drop args.2).takeWhile (· ≠ 0)

def Call.strings (c : Call) : List UInt8 × List UInt8 := (c.nameText, c.valueText)

/-- `parseLoop` with the call each pass makes, if it makes one. -/
def passes (beyond : Nat → Nat → UInt8) : Nat → List (List UInt8) → Proc (List (Option Call))
  | _, [] => return []
  | n, chunk :: chunks => do
    fill chunk
    let args ← lineCall
    let line := (← get).line
    handle (beyond n) args
    let calls ← passes beyond (n + 1) chunks
    return args.map (Call.read line) :: calls

def chunkCall (chunk : List UInt8) : Option Call :=
  let text := chunk.takeWhile (· ≠ 0)
  (lineEntry chunk).map fun e => ⟨nameStart text, valueStart text, e.1, e.2⟩

/-- The lines of a file, each with its newline; the first argument is the line so far. -/
def physicalLines : List UInt8 → List UInt8 → List (List UInt8)
  | [], [] => []
  | line, [] => [line]
  | line, c :: cs =>
    if c = 10 then (line ++ [c]) :: physicalLines [] cs else physicalLines (line ++ [c]) cs

variable {st : Parser} {chunk l a b cur : List UInt8} {n k : Nat} {beyond : Nat → Nat → UInt8}

/-! The calls -/

theorem passes_state (n : Nat) (chunks : List (List UInt8)) :
    ((passes beyond n chunks).run st).2 = ((parseLoop beyond n chunks).run st).2 := by
  induction chunks generalizing st n with
  | nil => rfl
  | cons chunk chunks ih =>
    unfold passes parseLoop
    rw [parseLine_eq]
    exact ih (n + 1)

theorem Call.read_eq {line name value : List UInt8} {p q : Nat} (hname : StrAt line p name)
    (hvalue : StrAt line q value) : Call.read line (p, q) = ⟨p, q, name, value⟩ := by
  rw [Call.read, hname.takeWhile_eq, hvalue.takeWhile_eq]

theorem lineCall_read (st : Parser) (chunk : List UInt8) : ∃ args st',
    lineCall.run (st.filled chunk) = pure (args, st') ∧
      args.map (Call.read st'.line) = chunkCall chunk := by
  have hline : StrAt (st.filled chunk).line 0 (chunk.takeWhile (· ≠ 0)) := filled_strAt
  obtain ⟨st', hrun, -, hargs⟩ := lineCall_run hline
  refine ⟨_, st', hrun, ?_⟩
  unfold chunkCall lineEntry
  rcases he : entryOf (stripStart (stripEnd (chunk.takeWhile (· ≠ 0)))) with _ | ⟨name, value⟩
  · rfl
  · obtain ⟨hname, hvalue⟩ := hargs name value he
    exact congrArg some (Call.read_eq hname hvalue)

theorem passes_calls (n : Nat) (chunks : List (List UInt8)) :
    ((passes beyond n chunks).run st).1 = chunks.map chunkCall := by
  induction chunks generalizing st n with
  | nil => rfl
  | cons chunk chunks ih =>
    obtain ⟨args, st', hrun, hread⟩ := lineCall_read st chunk
    rw [passes, StateT.run_bind, fill_run, pure_bind, StateT.run_bind, hrun, pure_bind,
      List.map_cons, ← hread]
    exact congrArg (args.map (Call.read st'.line) :: ·) (ih (n + 1))

theorem passes_strings (n : Nat) (chunks : List (List UInt8)) :
    ((passes beyond n chunks).run st).1.filterMap (Option.map Call.strings) =
      chunks.filterMap lineEntry := by
  rw [passes_calls, List.filterMap_map]
  congr 1
  funext chunk
  change (chunkCall chunk).map Call.strings = lineEntry chunk
  unfold chunkCall
  cases lineEntry chunk <;> rfl

/-! Lines and chunks -/

theorem stripEnd_cons {c : UInt8} (hc : isspace c = false) :
    stripEnd (c :: l) = c :: stripEnd l := by
  have hcons : ([] ++ c :: l).rdropWhile isspace = [] ++ c :: l.rdropWhile isspace :=
    List.rdropWhile_append_cons (by simpa using hc)
  exact hcons

def IsLine (l : List UInt8) : Prop := l ≠ [] ∧ 10 ∉ l.dropLast

theorem fgetsChunks_append (cur a b : List UInt8) :
    fgetsChunks cur (a ++ 10 :: b) = fgetsChunks cur (a ++ [10]) ++ fgetsChunks [] b := by
  induction a generalizing cur with
  | nil => simp [fgetsChunks]
  | cons c a ih =>
    rw [List.cons_append, List.cons_append, fgetsChunks.eq_3, fgetsChunks.eq_3]
    split_ifs
    · rw [ih, List.cons_append]
    · rw [ih]

theorem fgetsChunks_physicalLines (h : 10 ∉ cur) :
    fgetsChunks [] (cur ++ a) = (physicalLines cur a).flatMap (fgetsChunks []) := by
  induction a generalizing cur with
  | nil =>
    cases cur with
    | nil => rfl
    | cons c cur => simp [physicalLines]
  | cons c a ih =>
    rw [physicalLines.eq_3]
    split_ifs with hc
    · subst hc
      have hrest : fgetsChunks [] ([] ++ a) = (physicalLines [] a).flatMap (fgetsChunks []) :=
        ih List.not_mem_nil
      rw [fgetsChunks_append, List.flatMap_cons, ← hrest, List.nil_append]
    · rw [← ih (by simp [h, Ne.symm hc]), List.append_assoc, List.singleton_append]

theorem parseLoop_append (n : Nat) (chunks rest : List (List UInt8)) :
    parseLoop beyond n (chunks ++ rest) = (do
      parseLoop beyond n chunks
      parseLoop beyond (n + chunks.length) rest) := by
  induction chunks generalizing n with
  | nil => rfl
  | cons chunk chunks ih =>
    have hn : n + 1 + chunks.length = n + (chunk :: chunks).length := by
      rw [List.length_cons]
      omega
    simp only [List.cons_append, parseLoop, ih, bind_assoc, hn]

theorem parseLoop_line {content : List UInt8} {before after : List (List UInt8)} (n : Nat)
    (h : physicalLines [] content = before ++ l :: after) : ∃ m k,
    parseLoop beyond n (fgetsChunks [] content) = (do
      parseLoop beyond n (before.flatMap (fgetsChunks []))
      parseLoop beyond m (fgetsChunks [] l)
      parseLoop beyond k (after.flatMap (fgetsChunks []))) := by
  have hall : fgetsChunks [] ([] ++ content) = _ := fgetsChunks_physicalLines List.not_mem_nil
  rw [List.nil_append, h, List.flatMap_append, List.flatMap_cons] at hall
  have hsplit := congrArg (parseLoop beyond n) hall
  rw [parseLoop_append, parseLoop_append] at hsplit
  exact ⟨_, _, hsplit⟩

theorem isLine_of_mem (h : 10 ∉ cur) (hl : l ∈ physicalLines cur a) : IsLine l := by
  induction a generalizing cur with
  | nil =>
    cases cur with
    | nil => cases hl
    | cons c cur =>
      obtain rfl : l = c :: cur := by simpa [physicalLines] using hl
      exact ⟨List.cons_ne_nil c cur, fun hm => h (List.dropLast_subset _ hm)⟩
  | cons c a ih =>
    rw [physicalLines.eq_3] at hl
    split_ifs at hl with hc
    · rcases List.mem_cons.1 hl with rfl | hl
      · exact ⟨by simp, by simpa using h⟩
      · exact ih (by simp) hl
    · exact ih (by simp [h, Ne.symm hc]) hl

theorem fgetsChunks_take (h : IsLine l) (hcur : cur.length < 127) :
    fgetsChunks cur l =
      (cur ++ l.take (127 - cur.length)) :: fgetsChunks [] (l.drop (127 - cur.length)) := by
  obtain ⟨hne, hline⟩ := h
  induction l generalizing cur with
  | nil => exact absurd rfl hne
  | cons c l ih =>
    obtain ⟨k, hk⟩ : ∃ k, 127 - cur.length = k + 1 := ⟨126 - cur.length, by omega⟩
    rw [hk, fgetsChunks.eq_3, List.take_succ_cons, List.drop_succ_cons]
    cases l with
    | nil =>
      split_ifs
      · simp [fgetsChunks]
      · simp [fgetsChunks]
    | cons d l =>
      have hc : c ≠ 10 := fun hc => hline (by simp [hc])
      have hl : 10 ∉ (d :: l).dropLast := fun hm => hline (List.mem_cons_of_mem c hm)
      split_ifs with hfull
      · have hlen : (cur ++ [c]).length = 127 := hfull.resolve_left hc
        obtain rfl : k = 0 := by simp at hlen; omega
        rfl
      · have hlen : (cur ++ [c]).length = cur.length + 1 := List.length_append
        have hfull : (cur ++ [c]).length ≠ 127 := fun h => hfull (.inr h)
        rw [ih (by omega) (List.cons_ne_nil d l) hl, hlen, List.append_assoc, List.singleton_append,
          show 127 - (cur.length + 1) = k by omega]

def Ending (nl : List UInt8) : Prop := nl = [] ∨ nl = [10]

theorem Ending.isLine {nl : List UInt8} (h : Ending nl) (hne : l ≠ []) (hl : 10 ∉ l) :
    IsLine (l ++ nl) := by
  rcases h with rfl | rfl
  · rw [List.append_nil]
    exact ⟨hne, fun hm => hl (List.dropLast_subset _ hm)⟩
  · exact ⟨by simp, by simpa using hl⟩

theorem fgetsChunks_line {nl : List UInt8} (h : Ending nl) (hne : l ≠ []) (hl : 10 ∉ l)
    (hlen : l.length ≤ 126) : fgetsChunks [] (l ++ nl) = [l ++ nl] := by
  have hnl : nl.length ≤ 1 := by rcases h with rfl | rfl <;> simp
  have hle : (l ++ nl).length ≤ 127 := by rw [List.length_append]; omega
  rw [fgetsChunks_take (h.isLine hne hl) (by decide), List.length_nil, Nat.sub_zero,
    List.take_of_length_le hle, List.drop_of_length_le hle]
  rfl

theorem lineEntry_line {nl : List UInt8} (h : Ending nl) (hl : 0 ∉ l) :
    lineEntry (l ++ nl) = entryOf (stripStart (stripEnd l)) := by
  have hnl : (0 ∉ nl) ∧ ∀ x ∈ nl, isspace x := by
    rcases h with rfl | rfl <;> simp [isspace]
  have hall : (l ++ nl).takeWhile (· ≠ 0) = l ++ nl :=
    List.takeWhile_eq_self_iff.2 fun x hx => decide_eq_true (ne_of_mem_of_not_mem hx
      (List.not_mem_append hl hnl.1))
  rw [lineEntry, hall, stripEnd, List.rdropWhile_append_of_pos hnl.2]
  rfl

end Evsip.Config
