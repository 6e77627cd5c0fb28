import KernelReach.Text.Numeral
import Mathlib.Algebra.GroupWithZero.Nat
import Mathlib.Data.Nat.Basic

/-!
# Numerals that are read again

A numeral of a fixed width has that many digits if the number is small enough, and its digits, read
from left to right, give the number back (`foldlM_padLeft_toDigits`). The statements are about any
base and any way to read a digit, for timestamps are written in decimal and escapes in hexadecimal.
-/

namespace KernelReach.Text

variable {base n width : Nat} {value : Char → Option Nat}

/-- Reads the next digit of a numeral. -/
def readDigit (base : Nat) (value : Char → Option Nat) (n : Nat) (c : Char) : Option Nat :=
  (value c).map (base * n + ·)

theorem foldlM_toDigits (hbase : 1 < base)
    (hvalue : ∀ d < base, value (Nat.digitChar d) = some d) (n : Nat) :
    (Nat.toDigits base n).foldlM (readDigit base value) 0 = some n := by
  -- The last digit is split off, so the induction is on the number without it.
  induction n using Nat.strongRecOn with
  | ind n ih =>
    rcases Nat.lt_or_ge n base with hn | hn
    · simp [Nat.toDigits_of_lt_base hn, readDigit, hvalue n hn]
    · have hlt : n / base < n := Nat.div_lt_self (by omega) hbase
      have hmod : n % base < base := Nat.mod_lt n (by omega)
      rw [Nat.toDigits_of_base_le hbase hn, List.foldlM_append, ih _ hlt]
      simp [readDigit, hvalue _ hmod, Nat.div_add_mod]

/-- Zeros at the start of a numeral do not count. -/
theorem foldlM_replicate_zero (hvalue : value '0' = some 0) (k : Nat) (cs : List Char) :
    (List.replicate k '0' ++ cs).foldlM (readDigit base value) 0 =
      cs.foldlM (readDigit base value) 0 := by
  induction k with
  | zero => rfl
  | succ k ih => simpa [List.replicate_succ, readDigit, hvalue] using ih

/-- A number that has room in a numeral is written with all its digits. -/
theorem length_padLeft_toDigits (hbase : 1 < base) (hwidth : 0 < width) (hn : n < base ^ width) :
    (padLeft '0' width (String.ofList (Nat.toDigits base n))).toList.length = width := by
  have hle := (Nat.length_toDigits_le_iff hbase hwidth).2 hn
  rw [padLeft, String.toList_ofList, List.length_append, List.length_replicate,
    String.length_toList, String.length_ofList]
  omega

theorem foldlM_padLeft_toDigits (hbase : 1 < base)
    (hvalue : ∀ d < base, value (Nat.digitChar d) = some d) (width n : Nat) :
    (padLeft '0' width (String.ofList (Nat.toDigits base n))).toList.foldlM
      (readDigit base value) 0 = some n := by
  rw [padLeft, String.toList_ofList, String.toList_ofList,
    foldlM_replicate_zero (hvalue 0 (by omega)), foldlM_toDigits hbase hvalue]

end KernelReach.Text
