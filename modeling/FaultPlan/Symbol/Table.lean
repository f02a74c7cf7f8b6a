/-
  The symbol table of a firmware image.

  A line of the listing is a row when it has at least three words and its first word is an address.
  The third word is the type column and the last word the name; all else in the line only decides
  the order.  The table is sorted by address, and rows at one address by the text of their lines,
  so that the order of the listing does not matter.
-/
import FaultPlan.Number.Hex
import FaultPlan.Text.Pieces

namespace FaultPlan

/-- What the type column says. -/
inductive SymbolKind where
  | function
  | object
  | other
  deriving DecidableEq, Repr

def SymbolKind.ofColumn (word : String) : SymbolKind :=
  if word = "F" then .function else if word = "O" then .object else .other

structure Symbol where
  address : UInt64
  kind : SymbolKind
  name : String
  deriving DecidableEq, Repr

namespace Symbol

def isFunction (s : Symbol) : Bool := s.kind == .function

def isObject (s : Symbol) : Bool := s.kind == .object

/-- The symbol that a line of the listing is a row for, if it is a row. -/
def ofRow? (line : String) : Option Symbol :=
  match Text.words line with
  | first :: _ :: column :: more =>
    (Hex.parse first).map fun address =>
      ⟨address, .ofColumn column, (column :: more).getLast (List.cons_ne_nil _ _)⟩
  | _ => none

end Symbol

/-- A symbol with the line that it was read from. -/
structure SymbolRow where
  symbol : Symbol
  line : String

namespace SymbolRow

def ofLine? (line : String) : Option SymbolRow := (Symbol.ofRow? line).map (⟨·, line⟩)

/-- The order of the table: lower addresses first, then the lesser line. -/
def notAfter (a b : SymbolRow) : Bool :=
  a.symbol.address < b.symbol.address
    || (a.symbol.address == b.symbol.address && decide (a.line ≤ b.line))

end SymbolRow

/-- A row goes in front of the first row that it may precede. -/
def insertRow (r : SymbolRow) : List SymbolRow → List SymbolRow
  | [] => [r]
  | x :: xs => if r.notAfter x then r :: x :: xs else x :: insertRow r xs

/-- The rows of a listing in the order of the table. -/
def symbolRows (listing : String) : List SymbolRow :=
  ((Text.lines listing).filterMap SymbolRow.ofLine?).foldr insertRow []

/-- The symbols of a listing in the order of the table. -/
def symbolTable (listing : String) : List Symbol := (symbolRows listing).map (·.symbol)

example : symbolTable "SYMBOLS:\n20 g O buf\n0x10 g F main\n0010 g F a"
    = [⟨0x10, .function, "a"⟩, ⟨0x10, .function, "main"⟩, ⟨0x20, .object, "buf"⟩] := by decide

end FaultPlan
