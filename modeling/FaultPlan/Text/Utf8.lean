/-
  UTF-8: bytes to text, strictly or with replacement.

  `decodeUnits` reads bytes one at a time.  A well-formed sequence gives its character; a longest
  run of bytes that begins a well-formed sequence but does not complete it, and any byte that can
  begin none, gives one ill-formed unit.  Over-long forms, surrogates and values past U+10FFFF are
  kept out by the bounds on the second byte.  `decode?` accepts a text without ill-formed units,
  `decodeLossy` puts U+FFFD for each of them.
-/

namespace FaultPlan

/-- Raw contents, as a file holds them or a program prints them. -/
abbrev Bytes := List UInt8

namespace Utf8

/-- State of the decoder: between two characters, or inside one that still lacks bytes. -/
inductive Pending where
  | none
  /-- A character has begun: `more + 1` bytes are missing, the next within `[low, high]`, and
      `value` is what the bytes so far contribute. -/
  | some (more : Nat) (low high : UInt8) (value : Nat)

/-- A byte read between two characters gives a finished unit, or begins a character. -/
def begin (b : UInt8) : List (Option Char) × Pending :=
  let n := b.toNat
  if n < 0x80 then ([some (Char.ofNat n)], .none)
  else if 0xC2 ≤ n && n ≤ 0xDF then ([], .some 0 0x80 0xBF (n - 0xC0))
  else if n == 0xE0 then ([], .some 1 0xA0 0xBF 0)
  else if n == 0xED then ([], .some 1 0x80 0x9F (n - 0xE0))
  else if 0xE1 ≤ n && n ≤ 0xEF then ([], .some 1 0x80 0xBF (n - 0xE0))
  else if n == 0xF0 then ([], .some 2 0x90 0xBF 0)
  else if 0xF1 ≤ n && n ≤ 0xF3 then ([], .some 2 0x80 0xBF (n - 0xF0))
  else if n == 0xF4 then ([], .some 2 0x80 0x8F (n - 0xF0))
  else ([none], .none)

/-- One byte: the units it finishes and the state after it.  A byte that does not continue the
    character that has begun ends it as ill-formed and is read anew. -/
def step : Pending → UInt8 → List (Option Char) × Pending
  | .none, b => begin b
  | .some more low high value, b =>
    if low ≤ b && b ≤ high then
      let value' := value * 64 + (b.toNat - 0x80)
      match more with
      | 0 => ([some (Char.ofNat value')], .none)
      | m + 1 => ([], .some m 0x80 0xBF value')
    else
      let r := begin b
      (none :: r.1, r.2)

/-- Characters and, as `none`, ill-formed units, in reading order. -/
def decodeUnits : Pending → Bytes → List (Option Char)
  | .none, [] => []
  | .some .., [] => [none]
  | s, b :: bs => (step s b).1 ++ decodeUnits (step s b).2 bs

/-- The text that the bytes spell, if all of them are well-formed. -/
def decode? (bytes : Bytes) : Option String :=
  ((decodeUnits .none bytes).mapM id).map String.ofList

/-- The text that the bytes spell, with U+FFFD for each ill-formed unit. -/
def decodeLossy (bytes : Bytes) : String :=
  String.ofList ((decodeUnits .none bytes).map (·.getD '\uFFFD'))

/-- The bytes that spell the text. -/
def encode (s : String) : Bytes := s.toList.flatMap String.utf8EncodeChar

example : decode? [0x61, 0xC3, 0xA9, 0xE5, 0x90, 0x8D, 0xF0, 0x9F, 0x98, 0x80] = some "aé名😀" := by
  decide
example : decode? [0x61, 0xFF] = none := by decide
example : decodeLossy [0x61, 0xFF, 0x62, 0xE2, 0x82, 0x0A] = "a\uFFFDb\uFFFD\n" := by decide
example : decodeLossy [0xC3, 0x28, 0xF0, 0x9F, 0x98, 0x0A] = "\uFFFD(\uFFFD\n" := by decide
example : decodeLossy [0xED, 0xA0, 0x80] = "\uFFFD\uFFFD\uFFFD" := by decide
example : encode "é名" = [0xC3, 0xA9, 0xE5, 0x90, 0x8D] := by decide

end Utf8
end FaultPlan
