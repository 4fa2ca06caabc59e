import Evsip.Lib.CString
import Mathlib.Data.List.Basic
import Mathlib.Data.Nat.Digits.Lemmas

/-! Decimal numerals: what they denote, what `atoi` makes of them, and what `%d` prints. -/

namespace CLib

def natural (ds : List UInt8) : Option Nat :=
  if ds ≠ [] ∧ ds.all isdigit then some (digits ds) else none

/-- The integer an optionally signed decimal numeral denotes. -/
def numeral : List UInt8 → Option Int
  | 45 :: ds => (natural ds).map fun n : Nat => -(n : Int)
  | 43 :: ds => (natural ds).map fun n : Nat => (n : Int)
  | ds => (natural ds).map fun n : Nat => (n : Int)

def IsInt (n : Int) : Prop := -2147483648 ≤ n ∧ n ≤ 2147483647

instance (n : Int) : Decidable (IsInt n) := inferInstanceAs (Decidable (_ ∧ _))

def formatNat (n : Nat) : List UInt8 :=
  if n = 0 then [48] else (Nat.digits 10 n).reverse.map fun d => 48 + d.toUInt8

/-- The `%d` rendering of an `int`. -/
def formatD (n : Int) : List UInt8 :=
  if n < 0 then 45 :: formatNat n.natAbs else formatNat n.natAbs

variable {bs ds : List UInt8} {c : UInt8} {n : Int} {m d : Nat}

theorem isdigit_iff : isdigit c ↔ 48 ≤ c.toNat ∧ c.toNat ≤ 57 := by
  simp [isdigit, UInt8.le_iff_toNat_le]

theorem isspace_of_isdigit (h : isdigit c) : isspace c = false := by
  have hc := isdigit_iff.1 h
  have h32 : c ≠ 32 := by
    rintro rfl
    exact absurd h (by decide)
  have h13 : ¬ c ≤ 13 := fun hle => by
    have := UInt8.le_iff_toNat_le.1 hle
    simp at this
    omega
  simp [isspace, h32, h13]

theorem natural_eq (hne : ds ≠ []) (h : ∀ c ∈ ds, isdigit c) : natural ds = some (digits ds) :=
  if_pos ⟨hne, List.all_eq_true.2 h⟩

theorem natural_eq_some (h : natural ds = some m) :
    ds ≠ [] ∧ (∀ c ∈ ds, isdigit c) ∧ digits ds = m := by
  unfold natural at h
  split_ifs at h with hd
  exact ⟨hd.1, List.all_eq_true.1 hd.2, Option.some.inj h⟩

theorem decimal_numeral (h : numeral bs = some n) : decimal bs = n := by
  unfold numeral at h
  split at h
  · obtain ⟨m, hm, rfl⟩ := Option.map_eq_some_iff.1 h
    obtain ⟨-, -, rfl⟩ := natural_eq_some hm
    rfl
  · obtain ⟨m, hm, rfl⟩ := Option.map_eq_some_iff.1 h
    obtain ⟨-, -, rfl⟩ := natural_eq_some hm
    rfl
  · obtain ⟨m, hm, rfl⟩ := Option.map_eq_some_iff.1 h
    obtain ⟨hne, hall, rfl⟩ := natural_eq_some hm
    rcases bs with _ | ⟨c, ds⟩
    · exact absurd rfl hne
    · have hc : isdigit c := hall c (by simp)
      unfold decimal
      rw [List.dropWhile_cons_of_neg (by simp [isspace_of_isdigit hc])]
      split
      · next heq =>
        cases heq
        exact absurd hc (by decide)
      · next heq =>
        cases heq
        exact absurd hc (by decide)
      · rfl

theorem atoi_eq (h : decimal bs = n) (hn : IsInt n) : atoi bs = n := by
  obtain ⟨hlo, hhi⟩ := hn
  unfold atoi strtol
  rw [h, min_eq_left (by omega), max_eq_right (by omega)]
  exact Int.bmod_eq_of_le (by omega) (by omega)

theorem isInt_atoi (bs : List UInt8) : IsInt (atoi bs) := by
  have hlo := Int.le_bmod (x := strtol bs) (m := 2 ^ 32) (by decide)
  have hhi := Int.bmod_lt (x := strtol bs) (m := 2 ^ 32) (by decide)
  unfold atoi IsInt
  omega

theorem atoi_numeral (h : numeral bs = some n) (hn : IsInt n) : atoi bs = n :=
  atoi_eq (decimal_numeral h) hn

theorem formatDigit_isdigit (h : d < 10) : isdigit (48 + d.toUInt8) := by
  revert d
  decide

theorem formatDigit_toNat (h : d < 10) : (48 + d.toUInt8).toNat - 48 = d := by
  revert d
  decide

theorem formatNat_ne_nil : formatNat m ≠ [] := by
  unfold formatNat
  split_ifs with hm
  · exact List.cons_ne_nil _ _
  · simpa using Nat.digits_ne_nil_iff_ne_zero.2 hm

theorem formatNat_isdigit : ∀ c ∈ formatNat m, isdigit c := by
  unfold formatNat
  split_ifs
  · exact List.forall_mem_singleton.2 rfl
  · intro c hc
    obtain ⟨d, hd, rfl⟩ := List.mem_map.1 hc
    exact formatDigit_isdigit (Nat.digits_lt_base (by decide) (List.mem_reverse.1 hd))

theorem digits_formatNat : digits (formatNat m) = m := by
  unfold digits
  rw [List.takeWhile_eq_self_iff.2 formatNat_isdigit]
  unfold formatNat
  split_ifs with hm
  · exact hm.symm
  · rw [List.foldl_map, List.foldl_reverse]
    conv_rhs => rw [← Nat.ofDigits_digits 10 m, Nat.ofDigits_eq_foldr]
    refine List.foldr_ext _ _ _ fun d hd n => ?_
    rw [formatDigit_toNat (Nat.digits_lt_base (by decide) hd)]
    exact Nat.add_comm _ _

theorem formatNat_length (h : m < 10 ^ d) (hd : d ≠ 0) : (formatNat m).length ≤ d := by
  unfold formatNat
  split_ifs
  · exact Nat.one_le_iff_ne_zero.2 hd
  · rw [List.length_map, List.length_reverse]
    exact (Nat.digits_length_le_iff (by decide) m).2 h

theorem natural_formatNat : natural (formatNat m) = some m := by
  rw [natural_eq formatNat_ne_nil formatNat_isdigit, digits_formatNat]

theorem numeral_eq_natural (h : ∀ c ∈ bs, isdigit c) :
    numeral bs = (natural bs).map fun n : Nat => (n : Int) := by
  unfold numeral
  split
  · exact absurd (h 45 (by simp)) (by decide)
  · exact absurd (h 43 (by simp)) (by decide)
  · rfl

theorem numeral_formatD : numeral (formatD n) = some n := by
  unfold formatD
  split_ifs with hn
  · have hneg : numeral (45 :: formatNat n.natAbs) =
        (natural (formatNat n.natAbs)).map fun n : Nat => -(n : Int) := rfl
    rw [hneg, natural_formatNat, Option.map_some]
    congr 1
    omega
  · rw [numeral_eq_natural formatNat_isdigit, natural_formatNat, Option.map_some]
    congr 1
    omega

theorem formatD_length (h : IsInt n) : (formatD n).length ≤ 11 := by
  have hlen : (formatNat n.natAbs).length ≤ 10 := by
    obtain ⟨hlo, hhi⟩ := h
    exact formatNat_length (by omega) (by decide)
  unfold formatD
  split_ifs
  · exact Nat.succ_le_succ hlen
  · exact hlen.trans (by decide)

theorem atoi_formatD (h : IsInt n) : atoi (formatD n) = n := atoi_numeral numeral_formatD h

section unsigned
variable {x : UInt64}

theorem toInt_toInt64 : x.toInt64.toInt = if x.toNat < 9223372036854775808 then (x.toNat : Int)
    else x.toNat - 18446744073709551616 := by
  have hcond : x.toInt64.toInt = x.toBitVec.toInt := rfl
  have hnat : x.toBitVec.toNat = x.toNat := rfl
  rw [hcond, BitVec.toInt_eq_toNat_cond, hnat]
  split_ifs <;> omega

theorem repr_neg_ne {i : Int} (h : i < 0) (m : Nat) : i.repr ≠ m.repr := by
  intro heq
  rw [Int.repr_eq_if, if_neg h.not_ge] at heq
  have hlist := congrArg String.toList heq
  rw [String.toList_append, Nat.toList_repr, Nat.toList_repr] at hlist
  have hmem : '-' ∈ Nat.toDigits 10 m := by
    rw [← hlist]
    simp
  exact absurd (Nat.isDigit_of_mem_toDigits (by decide) (by decide) hmem) (by decide)

theorem formatLd_eq_iff : formatLd x = toString x.toNat ↔ x.toNat < 9223372036854775808 := by
  have hrepr : ∀ i : Int, toString i = i.repr := fun _ => rfl
  have hrepr' : ∀ m : Nat, toString m = m.repr := fun _ => rfl
  rw [formatLd, toInt_toInt64, hrepr, hrepr']
  split_ifs with h
  · exact iff_of_true rfl h
  · have hlt := UInt64.toNat_lt_size x
    simp only [UInt64.size] at hlt
    exact iff_of_false (repr_neg_ne (by omega) _) h

theorem ofInt_toNat (i : Int) : (UInt64.ofInt i).toNat = (i % 18446744073709551616).toNat := by
  have hlt := Int.emod_lt_of_pos i (b := 18446744073709551616) (by decide)
  unfold UInt64.ofInt
  rw [UInt64.toNat_ofNat']
  omega

theorem ofInt_atol_lt_iff :
    (UInt64.ofInt (atol bs)).toNat < 9223372036854775808 ↔ 0 ≤ decimal bs := by
  rw [ofInt_toNat, atol, strtol]
  omega

theorem ofInt_atol_eq_zero_iff : UInt64.ofInt (atol bs) = 0 ↔ decimal bs = 0 := by
  rw [← UInt64.toNat_inj, ofInt_toNat, atol, strtol, UInt64.toNat_zero]
  omega

end unsigned
end CLib
