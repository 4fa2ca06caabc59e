import Mathlib.Algebra.Ring.Int.Defs
import Mathlib.Algebra.Ring.Nat
import Mathlib.Data.List.TakeWhile
import Mathlib.Tactic.Common

/-! The part of the C library the server rests on: terminated byte strings, their
comparison, and the decimal conversions, all on the bytes before the terminator. -/

namespace CLib

/-- A terminated string: the bytes before its NUL. -/
structure CString where
  bytes : List UInt8
  noNul : 0 ∉ bytes
  deriving DecidableEq

def bytes (s : String) : List UInt8 := s.toUTF8.data.toList

def CString.ofBytes (bs : List UInt8) : CString where
  bytes := bs.takeWhile (· ≠ 0)
  noNul h := by simpa using List.mem_takeWhile_imp h

theorem CString.ext {a b : CString} (h : a.bytes = b.bytes) : a = b := by
  cases a
  cases b
  cases h
  rfl

theorem CString.ofBytes_append_zero (bs cs : List UInt8) :
    CString.ofBytes (bs ++ 0 :: cs) = CString.ofBytes bs := by
  apply CString.ext
  induction bs with
  | nil => rfl
  | cons b bs ih =>
    by_cases hb : b = 0
    · simp [ofBytes, hb]
    · simpa [ofBytes, hb] using ih

def strcmp : List UInt8 → List UInt8 → Int
  | [], [] => 0
  | [], b :: _ => -(b.toNat : Int)
  | a :: _, [] => a.toNat
  | a :: as, b :: bs => if a = b then strcmp as bs else (a.toNat : Int) - b.toNat

def strncmp : List UInt8 → List UInt8 → Nat → Int
  | _, _, 0 => 0
  | [], [], _ + 1 => 0
  | [], b :: _, _ + 1 => -(b.toNat : Int)
  | a :: _, [], _ + 1 => a.toNat
  | a :: as, b :: bs, n + 1 => if a = b then strncmp as bs n else (a.toNat : Int) - b.toNat

theorem toNat_ne_zero {a : UInt8} (h : a ≠ 0) : (a.toNat : Int) ≠ 0 := fun h0 =>
  h (UInt8.toNat_inj.1 (by simpa using h0))

theorem toNat_sub_ne_zero {a b : UInt8} (h : a ≠ b) : (a.toNat : Int) - b.toNat ≠ 0 := fun h0 =>
  h (UInt8.toNat_inj.1 (by omega))

theorem strcmp_eq_zero_iff {as bs : List UInt8} (ha : 0 ∉ as) (hb : 0 ∉ bs) :
    strcmp as bs = 0 ↔ as = bs := by
  induction as generalizing bs with
  | nil =>
    cases bs with
    | nil => simp [strcmp]
    | cons b bs =>
      have := toNat_ne_zero (a := b) (fun h => hb (by simp [h]))
      simpa [strcmp] using this
  | cons a as ih =>
    cases bs with
    | nil =>
      have := toNat_ne_zero (a := a) (fun h => ha (by simp [h]))
      simpa [strcmp] using this
    | cons b bs =>
      unfold strcmp
      split
      · next h =>
        subst h
        rw [ih (fun h => ha (by simp [h])) (fun h => hb (by simp [h]))]
        simp
      · next h => simp [h, toNat_sub_ne_zero h]

theorem strncmp_eq_zero_iff {as bs : List UInt8} (ha : 0 ∉ as) (hb : 0 ∉ bs) (n : Nat) :
    strncmp as bs n = 0 ↔ as.take n = bs.take n := by
  induction n generalizing as bs with
  | zero => simp [strncmp]
  | succ n ih =>
    rcases as with _ | ⟨a, as⟩ <;> rcases bs with _ | ⟨b, bs⟩
    · simp [strncmp]
    · have := toNat_ne_zero (a := b) (fun h => hb (by simp [h]))
      simpa [strncmp] using this
    · have := toNat_ne_zero (a := a) (fun h => ha (by simp [h]))
      simpa [strncmp] using this
    · rw [strncmp]
      split
      · next h =>
        subst h
        rw [ih (fun h => ha (by simp [h])) (fun h => hb (by simp [h]))]
        simp
      · next h => simp [h, toNat_sub_ne_zero h]

theorem strncmp_length_eq_zero_iff {as bs : List UInt8} (ha : 0 ∉ as) (hb : 0 ∉ bs) :
    strncmp as bs as.length = 0 ↔ as <+: bs := by
  rw [strncmp_eq_zero_iff ha hb, List.take_length, List.prefix_iff_eq_take]

def isspace (c : UInt8) : Bool := c = 32 || (9 ≤ c && c ≤ 13)

def isdigit (c : UInt8) : Bool := 48 ≤ c && c ≤ 57

def digits (bs : List UInt8) : Nat :=
  (bs.takeWhile isdigit).foldl (fun n c => 10 * n + (c.toNat - 48)) 0

def decimal (bs : List UInt8) : Int :=
  match bs.dropWhile isspace with
  | 45 :: ds => -(digits ds : Int)
  | 43 :: ds => digits ds
  | ds => digits ds

/-- `strtol(bs, NULL, 10)`, saturating at the ends of a 64-bit `long`. -/
def strtol (bs : List UInt8) : Int := max (-2 ^ 63) (min (decimal bs) (2 ^ 63 - 1))

def atol (bs : List UInt8) : Int := strtol bs

/-- `atoi`: the 64-bit `long` cut to 32 bits. -/
def atoi (bs : List UInt8) : Int := (strtol bs).bmod (2 ^ 32)

/-- The `%ld` rendering of a 64-bit pattern. -/
def formatLd (n : UInt64) : String := toString n.toInt64.toInt

end CLib
