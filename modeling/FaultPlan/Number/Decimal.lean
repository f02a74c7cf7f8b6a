/-
  Decimal numbers, as the engine reads cycle counts and unmarked addresses: digits with an optional
  plus sign, no blanks, below 2^64.
-/
import FaultPlan.Number.Digits

namespace FaultPlan.Decimal

/-- The digits after an optional plus sign. -/
def unsign : List Char → List Char
  | '+' :: ds => ds
  | ds => ds

/-- The number that the text spells, if it spells one below 2^64. -/
def parse (s : String) : Option UInt64 := Number.ofDigits? 10 (unsign s.toList)

/-- Digits without a leading zero. -/
def render (v : UInt64) : String := String.ofList (Nat.toDigits 10 v.toNat)

example : parse "+007" = some 7 := by decide
example : parse "+" = none ∧ parse "-1" = none ∧ parse " 5" = none ∧ parse "0x1" = none := by decide
example : render 18446744073709551615 = "18446744073709551615" := by decide

end FaultPlan.Decimal
