/-
  Hexadecimal numbers: the spelling of every address.

  Reading is lenient: blanks around the number, an optional `0x` or `0X`, digits of either case and
  any number of leading zeros.  Writing has one form: `0x` and lowercase digits without a leading
  zero.
-/
import FaultPlan.Text.Blank
import FaultPlan.Number.Digits

namespace FaultPlan.Hex

/-- The digits after an optional mark; only one mark is dropped. -/
def unmark : List Char → List Char
  | '0' :: 'x' :: ds => ds
  | '0' :: 'X' :: ds => ds
  | ds => ds

/-- The number that the text spells, if it spells one below 2^64. -/
def parse (s : String) : Option UInt64 :=
  Number.ofDigits? 16 (unmark (Text.trimChars s.toList))

/-- The one written form of a number. -/
def render (v : UInt64) : String := "0x" ++ String.ofList (Nat.toDigits 16 v.toNat)

example : parse " 0X08000000\t" = some 0x8000000 := by decide
example : parse "0x" = none ∧ parse "0x0x1" = none ∧ parse "12g" = none := by decide
example : parse "ffffffffffffffff" = some 0xffffffffffffffff := by decide
example : parse "10000000000000000" = none := by decide
example : render 0 = "0x0" ∧ render 0x8000000 = "0x8000000" := by decide

end FaultPlan.Hex
