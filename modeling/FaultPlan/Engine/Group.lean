/-
  Argument groups: an engine option together with its operands.

  An engine command line is a sequence of groups.  `tokens` writes a group and `readGroups` cuts a
  token list into groups again, by the number of operands of each option: a label or a path may
  therefore be any token, also one that looks like an option.  Reading stops at the first fault in
  reading order.  Addresses and lengths are written in hexadecimal and cycles in decimal; both
  spellings are read everywhere.
-/
import FaultPlan.Isa
import FaultPlan.Number.Decimal
import FaultPlan.Symbol.Survey

namespace FaultPlan.Engine

inductive Group where
  | start (address : UInt64)
  | halt (point : HaltPoint)
  /-- A symbol that the engine only names in its report. -/
  | symbol (name : String) (address : UInt64)
  | load (path : String) (address : UInt64)
  | flash (region : Region)
  | ram (region : Region)
  | ignore (range : IgnoreRange)
  | timeout (cycles : UInt64)
  | isa (isa : Isa)
  deriving DecidableEq, Repr

/-- The tokens of a group: the option, then its operands. -/
def Group.tokens : Group → List String
  | .start address => ["--start", Hex.render address]
  | .halt point => ["--halt", point.label, Hex.render point.address]
  | .symbol name address => ["--symbol", name, Hex.render address]
  | .load path address => ["--section", path, Hex.render address]
  | .flash region => ["--flash", Hex.render region.origin, Hex.render region.length]
  | .ram region => ["--ram", Hex.render region.origin, Hex.render region.length]
  | .ignore range => ["--ignore", Hex.render range.lower, Hex.render range.upper]
  | .timeout cycles => ["--timeout", Decimal.render cycles]
  | .isa i => [i.flag]

/-! ## Reading -/

/-- A number is hexadecimal when it starts with `0x`, else decimal. -/
def number (token : String) : Except ArgumentFault UInt64 :=
  let value := if Text.startsWith "0x" token then Hex.parse token else Decimal.parse token
  match value with
  | some v => .ok v
  | none => .error (.badNumber token)

/-- The operands that an option takes, and the group that they make. -/
inductive Operands where
  | nothing (group : Group)
  | number (group : UInt64 → Group)
  | labelled (group : String → UInt64 → Group)
  | numbers (group : UInt64 → UInt64 → Except ArgumentFault Group)

/-- The engine's options. -/
def Operands.ofOption? (option : String) : Option Operands :=
  match option with
  | "--start" => some (.number .start)
  | "--halt" => some (.labelled fun label address => .halt ⟨label, address⟩)
  | "--symbol" => some (.labelled .symbol)
  | "--section" => some (.labelled .load)
  | "--flash" => some (.numbers fun origin length => .ok (.flash ⟨origin, length⟩))
  | "--ram" => some (.numbers fun origin length => .ok (.ram ⟨origin, length⟩))
  | "--ignore" => some (.numbers fun lower upper =>
      match IgnoreRange.ofBounds? lower upper with
      | some range => .ok (.ignore range)
      | none => .error (.emptyIgnore lower upper))
  | "--timeout" => some (.number .timeout)
  | "--armv6m" => some (.nothing (.isa .armv6m))
  | "--armv7m" => some (.nothing (.isa .armv7m))
  | _ => none

/-- The groups that a token list is made of. -/
def readGroups : List String → Except ArgumentFault (List Group)
  | [] => .ok []
  | option :: rest =>
    match Operands.ofOption? option with
    | none => .error (.unknownOption option)
    | some (.nothing group) => (readGroups rest).map (group :: ·)
    | some (.number group) =>
      match rest with
      | a :: rest => do
        let x ← number a
        (readGroups rest).map (group x :: ·)
      | [] => .error (.missingOperand option)
    | some (.labelled group) =>
      match rest with
      | label :: a :: rest => do
        let x ← number a
        (readGroups rest).map (group label x :: ·)
      | _ => .error (.missingOperand option)
    | some (.numbers group) =>
      match rest with
      | [] => .error (.missingOperand option)
      | [a] => do
        let _ ← number a
        .error (.missingOperand option)
      | a :: b :: rest => do
        let x ← number a
        let y ← number b
        let g ← group x y
        (readGroups rest).map (g :: ·)

example : readGroups ["--halt", "--start", "0x10", "--timeout", "+9"]
    = .ok [.halt ⟨"--start", 0x10⟩, .timeout 9] := by rfl
example : readGroups ["--ignore", "2", "1", "--bogus"] = .error (.emptyIgnore 2 1) := by rfl
example : readGroups ["--flash", "x"] = .error (.badNumber "x") := by rfl

end FaultPlan.Engine
