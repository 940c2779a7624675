/-!
# Decimal integers

Integers are written in decimal without leading zeros, with a minus sign if negative. They are read
from an optional sign and at least one ASCII digit; leading zeros are accepted, blanks are not.

## Main definitions

* `Decimal.ofInt`: the characters of an integer.
* `Decimal.readNat?`, `Decimal.readInt?`: reading the text of a natural number or of an integer.
* `Decimal.readWord?`, `Decimal.readInt64?`: the same within the range of 64-bit words.
-/

namespace AccessGroups.Decimal

/-- The digits of a natural number. -/
def ofNat (n : Nat) : List Char :=
  Nat.toDigits 10 n

/-- The digits of an integer, after a minus sign if it is negative. -/
def ofInt : Int → List Char
  | .ofNat n => ofNat n
  | .negSucc n => '-' :: ofNat (n + 1)

/-- The value of a non-empty run of ASCII digits. -/
def readDigits? (cs : List Char) : Option Nat :=
  if cs.isEmpty || !cs.all Char.isDigit then none else some (Nat.ofDigitChars 10 cs 0)

/-- A natural number after an optional plus sign. -/
def readNat? : List Char → Option Nat
  | '+' :: cs => readDigits? cs
  | cs => readDigits? cs

/-- An integer after an optional sign. -/
def readInt? : List Char → Option Int
  | '-' :: cs => (readDigits? cs).map fun n => -(n : Int)
  | cs => (readNat? cs).map fun n => (n : Int)

/-- A natural number below 2^64. -/
def readWord? (s : String) : Option Nat :=
  (readNat? s.toList).filter (· < UInt64.size)

/-- An integer of the signed 64-bit range. -/
def int64? (n : Int) : Option Int64 :=
  if Int64.minValue.toInt ≤ n ∧ n ≤ Int64.maxValue.toInt then some (Int64.ofInt n) else none

/-- The text of an integer of the signed 64-bit range. -/
def readInt64? (s : String) : Option Int64 :=
  (readInt? s.toList).bind int64?

theorem int64?_toInt (x : Int64) : int64? x.toInt = some x := by
  have h₁ := Int64.le_toInt x
  have h₂ := Int64.toInt_le x
  simp only [int64?, h₂, and_true, Int64.ofInt_toInt, ite_eq_left_iff, reduceCtorEq, imp_false,
    Decidable.not_not]
  exact h₁

end AccessGroups.Decimal
