import Mathlib.Data.List.Basic
import Mathlib.Data.List.TakeWhile
import Shorthand.Numeral

/-!
# Reading what is written

The decimal digits of a number read back as that number.
-/

namespace Shorthand

theorem digitValue?_of_isDigit {c : Char} (h : c.isDigit) :
    digitValue? c = some (c.toNat - '0'.toNat) := by
  have hn := Char.isDigit_iff_toNat.1 h
  have h0 : '0'.toNat = 48 := rfl
  have h9 : '9'.toNat = 57 := rfl
  have hz : (48 ≤ c.toNat && c.toNat < 48 + 10) = true := by
    simp; omega
  simp only [digitValue?, zeroCodes, List.find?_cons, hz, Option.map_some, h0]

theorem isDigit_of_isDigit {c : Char} (h : c.isDigit) : isDigit c = true := by
  simp [isDigit, digitValue?_of_isDigit h]

theorem isDigit_of_mem_decimalDigits {n : Nat} {c : Char} (h : c ∈ decimalDigits n) :
    c.isDigit = true :=
  Nat.isDigit_of_mem_toDigits (by decide) (by decide) h

theorem takeWhile_decimalDigits (n : Nat) :
    (decimalDigits n).takeWhile isDigit = decimalDigits n :=
  List.takeWhile_eq_self_iff.2 fun _ hc => isDigit_of_isDigit (isDigit_of_mem_decimalDigits hc)

/-- Within the limit, a numeral is read as the number that its digits write. -/
theorem readNumeral_eq_ok {ds : Text} {n : Nat} (h : readNumeral ds = .ok n) :
    digitsValue ds = n := by
  unfold readNumeral at h
  split at h <;> cases h
  rfl

theorem digitsValue_decimalDigits (n : Nat) : digitsValue (decimalDigits n) = n := by
  refine Eq.trans ?_ (Nat.ofDigitChars_ten_toDigits (n := n))
  rw [digitsValue, Nat.ofDigitChars_eq_foldl]
  refine List.foldl_ext _ _ _ fun m c hc => ?_
  rw [digitValue?_of_isDigit (isDigit_of_mem_decimalDigits hc), Option.getD_some]

end Shorthand
