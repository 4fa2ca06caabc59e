import Evsip.Config.Line
import Mathlib.Data.List.DropRight

/-! The grammar of a line, on lists: the name and the value it hands on, if it does. -/

namespace Evsip.Config
open CLib

def stripEnd (s : List UInt8) : List UInt8 := s.rdropWhile isspace

def stripStart (s : List UInt8) : List UInt8 := s.dropWhile isspace

/-- Where the separator of a stripped line is, or where the search for one ended. -/
def sepPos (t : List UInt8) : Nat :=
  if t.getD (findCharLoop 61 false t) 0 = 61 then findCharLoop 61 false t
  else findCharLoop 58 false t

def valueOf (v : List UInt8) : List UInt8 :=
  stripEnd ((stripStart v).take (findCharLoop 0 false (stripStart v)))

def entryOf (t : List UInt8) : Option (List UInt8 × List UInt8) :=
  if t = [] ∨ t.head? = some 59 then none
  else if t.getD (sepPos t) 0 = 61 ∨ t.getD (sepPos t) 0 = 58 then
    some (stripEnd (t.take (sepPos t)), valueOf (t.drop (sepPos t + 1)))
  else none

/-- The line as a string begins what `fgets` read. -/
def lineEntry (chunk : List UInt8) : Option (List UInt8 × List UInt8) :=
  entryOf (stripStart (stripEnd (chunk.takeWhile (· ≠ 0))))

def lead (s : List UInt8) : Nat := (s.takeWhile isspace).length

def nameStart (text : List UInt8) : Nat := lead (stripEnd text)

/-- Where the value of an accepted line starts, as an index of the line. -/
def valueStart (text : List UInt8) : Nat :=
  let t := stripStart (stripEnd text)
  nameStart text + sepPos t + 1 + lead (t.drop (sepPos t + 1))

variable {line : List UInt8} {p q n : Nat} {s t rest : List UInt8} {c : UInt8} {was : Bool}

theorem lead_add_length : lead s + (stripStart s).length = s.length := by
  rw [lead, stripStart, ← List.length_append, List.takeWhile_append_dropWhile]

/-! The loops on strings -/

theorem strlen_eq (h : StrAt line p s) : strlen (line.drop p) = s.length := by
  rw [strlen, h.takeWhile_eq]

theorem lstripLoop_append (h : 0 ∉ s) : lstripLoop (s ++ 0 :: rest) = lead s := by
  unfold lead
  induction s with
  | nil => simp [lstripLoop]
  | cons c s ih =>
    have hc : c ≠ 0 := fun h0 => h (by simp [h0])
    have ih := ih fun h0 => h (List.mem_cons_of_mem c h0)
    cases hs : isspace c <;> simp [lstripLoop, hc, hs, ih]

theorem lstripLoop_strAt (h : StrAt line p s) : lstripLoop (line.drop p) = lead s := by
  obtain ⟨rest, hrest⟩ := h.drop_eq
  rw [hrest, lstripLoop_append h.noNul]

theorem lstrip_strAt (h : StrAt line p s) : StrAt line (p + lead s) (stripStart s) :=
  StrAt.advance (by
    rw [stripStart, List.takeWhile_append_dropWhile]
    exact h)

theorem findCharLoop_le : findCharLoop c was s ≤ s.length := by
  induction s generalizing was with
  | nil => exact le_rfl
  | cons b s ih =>
    unfold findCharLoop
    split
    · exact Nat.succ_le_succ ih
    · exact Nat.zero_le _

theorem findCharLoop_append (h : 0 ∉ s) :
    findCharLoop c was (s ++ 0 :: rest) = findCharLoop c was s := by
  induction s generalizing was with
  | nil => simp [findCharLoop]
  | cons b s ih =>
    rw [List.cons_append, findCharLoop, findCharLoop, ih fun h0 => h (List.mem_cons_of_mem b h0)]

theorem findChar_strAt (h : StrAt line p s) :
    findCharLoop c was (line.drop p) = findCharLoop c was s := by
  obtain ⟨rest, hrest⟩ := h.drop_eq
  rw [hrest, findCharLoop_append h.noNul]

theorem findCharLoop_zero (h : 0 ∉ s) (hne : s.getD (findCharLoop 0 was s) 0 ≠ 59) :
    findCharLoop 0 was s = s.length := by
  induction s generalizing was with
  | nil => rfl
  | cons b s ih =>
    have hb : b ≠ 0 := fun h0 => h (by simp [h0])
    rw [findCharLoop] at hne ⊢
    split
    · next hcond =>
      rw [if_pos hcond] at hne
      rw [ih (fun h0 => h (List.mem_cons_of_mem b h0)) (by simpa using hne), List.length_cons]
    · next hcond =>
      rw [if_neg hcond] at hne
      simp_all

theorem rstrip_strAt (h : StrAt line p s) :
    StrAt (rstripLoop p s.length line) p (stripEnd s) := by
  induction s using List.reverseRecOn generalizing line with
  | nil => exact h
  | append_singleton s c ih =>
    rw [List.length_append, List.length_singleton, rstripLoop, h.getD, stripEnd,
      List.rdropWhile_concat]
    split
    · exact ih h.cut
    · exact h

theorem rstrip_before (h : StrAt line q t) (hq : q + t.length < p) :
    StrAt (rstripLoop p n line) q t := by
  induction n generalizing line with
  | zero => exact h
  | succ n ih =>
    unfold rstripLoop
    split
    · exact ih (h.set_after (by omega))
    · exact h

theorem rstrip_after (h : StrAt line q t) (hq : p + n ≤ q) : StrAt (rstripLoop p n line) q t := by
  induction n generalizing line with
  | zero => exact h
  | succ n ih =>
    unfold rstripLoop
    split
    · exact ih (h.set_before (by omega)) (by omega)
    · exact h

end Evsip.Config
