/-
  Numerals: reading a run of digits as a number of 64 bits.

  The value of a numeral is computed without a bound and compared with 2^64 afterwards, so that
  leading zeros never matter and the cut-off is decided by value and not by length.
-/

namespace FaultPlan.Number

/-- Value of a digit of either case, up to fifteen. -/
def digit? (c : Char) : Option Nat :=
  if '0' ≤ c ∧ c ≤ '9' then some (c.toNat - '0'.toNat)
  else if 'a' ≤ c ∧ c ≤ 'f' then some (c.toNat - 'a'.toNat + 10)
  else if 'A' ≤ c ∧ c ≤ 'F' then some (c.toNat - 'A'.toNat + 10)
  else none

/-- Value of the digits to the given base, after digits worth `acc`; none if a character is no
    digit below the base. -/
def valueFrom (base acc : Nat) : List Char → Option Nat
  | [] => some acc
  | c :: cs =>
    match digit? c with
    | some d => if d < base then valueFrom base (base * acc + d) cs else none
    | none => none

/-- A number that 64 bits can hold. -/
def word? (n : Nat) : Option UInt64 :=
  if h : n < UInt64.size then some (UInt64.ofNatLT n h) else none

/-- A numeral has at least one digit, digits only, and a value below 2^64. -/
def ofDigits? (base : Nat) (cs : List Char) : Option UInt64 :=
  if cs.isEmpty then none else (valueFrom base 0 cs).bind word?

example : ofDigits? 16 "00fF".toList = some 255 := by decide
example : ofDigits? 10 "1a".toList = none ∧ ofDigits? 10 [] = none := by decide
example : ofDigits? 10 "18446744073709551615".toList = some 18446744073709551615 := by decide
example : ofDigits? 10 "18446744073709551616".toList = none := by decide

end FaultPlan.Number
