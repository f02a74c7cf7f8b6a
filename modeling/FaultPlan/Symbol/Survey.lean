/-
  The survey of the symbols: where a run starts, where it halts, and what must not be faulted.

  All three are found in one pass over the symbols in table order.  The start is the last symbol with
  the start symbol's name.  Halts are the symbols named as such, unless they bear the start's name.
  Data objects and ignored symbols open an ignore span, unless they are start or halt; the span
  stays open until the next function that is not ignored, because control returns to code worth
  faulting only at a function boundary.  A span ends at the end of flash at the latest, and one
  that would be empty (data placed in RAM) is dropped.
-/
import FaultPlan.Failure
import FaultPlan.Options
import FaultPlan.Symbol.Table

namespace FaultPlan

/-- Addresses from `lower` up to but without `upper` that the engine must not fault. -/
structure IgnoreRange where
  lower : UInt64
  upper : UInt64
  deriving DecidableEq, Repr

/-- A range of at least one address; empty and inverted bounds give none. -/
def IgnoreRange.ofBounds? (lower upper : UInt64) : Option IgnoreRange :=
  if lower < upper then some ⟨lower, upper⟩ else none

/-- An address at which a run counts as successfully halted. -/
structure HaltPoint where
  label : String
  address : UInt64
  deriving DecidableEq, Repr

structure Survey where
  start : UInt64
  halts : List HaltPoint
  ignores : List IgnoreRange
  deriving DecidableEq, Repr

namespace Survey

/-- A function that is not ignored ends a span. -/
def closes (o : Options) (s : Symbol) : Bool := s.isFunction && !o.isIgnored s.name

/-! ## The pass -/

/-- What a pass over the symbols has found so far. -/
structure Pass where
  /-- Since when a span is open, if one is. -/
  span : Option UInt64
  start : Option UInt64
  halts : List HaltPoint
  ignores : List IgnoreRange
  deriving DecidableEq, Repr

namespace Pass

def begun : Pass := ⟨none, none, [], []⟩

/-- The open span ends, and gives a range unless that would be empty. -/
def endSpan (p : Pass) (upper : UInt64) : Pass :=
  { p with
    span := none
    ignores := p.ignores ++ (p.span.bind (IgnoreRange.ofBounds? · upper)).toList }

/-- A closer ends the span that is open; the end never exceeds flash. -/
def close (o : Options) (endOfFlash : UInt64) (p : Pass) (s : Symbol) : Pass :=
  if p.span.isSome && closes o s then p.endSpan (min s.address endOfFlash) else p

/-- A symbol is the start, a halt, or the first of a span if none is open. -/
def note (o : Options) (p : Pass) (s : Symbol) : Pass :=
  if s.name == o.start then { p with start := some s.address }
  else if o.isHalt s.name then { p with halts := p.halts ++ [⟨s.name, s.address⟩] }
  else if (o.isIgnored s.name || s.isObject) && p.span.isNone then { p with span := some s.address }
  else p

def step (o : Options) (endOfFlash : UInt64) (p : Pass) (s : Symbol) : Pass :=
  (p.close o endOfFlash s).note o s

/-- The symbols in their order, and the end of flash behind them. -/
def run (o : Options) (endOfFlash : UInt64) (symbols : List Symbol) : Pass :=
  (symbols.foldl (step o endOfFlash) begun).endSpan endOfFlash

end Pass

/-! ## The survey -/

/-- What was found, if it is enough.  A missing start is reported before missing halts. -/
def ofPass (o : Options) (p : Pass) : Except Failure Survey :=
  match p.start, p.halts with
  | none, _ => .error (.missingStart o.start)
  | some _, [] => .error (.missingHalt o.halts)
  | some start, halts => .ok ⟨start, halts, p.ignores⟩

/-- The survey of symbols in table order. -/
def ofSymbols (o : Options) (endOfFlash : UInt64) (symbols : List Symbol) : Except Failure Survey :=
  ofPass o (Pass.run o endOfFlash symbols)

example :
    ofSymbols (((Options.new "main").withHalt "win").withIgnores ["memcpy"]) 0x100
      [⟨0x10, .function, "main"⟩, ⟨0x20, .object, "tbl"⟩, ⟨0x28, .function, "memcpy"⟩,
        ⟨0x40, .function, "win"⟩, ⟨0xf0, .object, "buf"⟩, ⟨0x200, .other, "end"⟩]
    = .ok ⟨0x10, [⟨"win", 0x40⟩], [⟨0x20, 0x40⟩, ⟨0xf0, 0x100⟩]⟩ := by rfl

end Survey
end FaultPlan
