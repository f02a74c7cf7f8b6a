/-
  The pass over the symbols, taken apart.

  The pass finds start, halts and ignore ranges side by side.  Each of them can be told without the
  others: the start and the halts are picked out by their names, and the ranges come from a scan that
  carries nothing but the span that is open.  A closer opens no span (`not_opens_of_closes`), so that
  closing first and noting then amounts to one move of that scan (`Pass.span_step`).  By induction
  on the symbols a pass finds what the three find by themselves (`Pass.foldl_step`), and a survey can
  be read off them (`ofSymbols_eq`).
-/
import FaultPlan.Symbol.Survey

namespace FaultPlan

namespace Options

theorem isHalt_iff {o : Options} {name : String} : o.isHalt name = true ↔ name ∈ o.halts := by
  simp [isHalt]

theorem isIgnored_iff {o : Options} {name : String} :
    o.isIgnored name = true ↔ name ∈ o.ignores.names := by
  simp [isIgnored, NameSet.contains]

end Options

namespace Survey

variable {o : Options} {endOfFlash : UInt64}

/-! ## Start and halts -/

/-- The address of the last symbol with the start symbol's name. -/
def startAddress? (o : Options) (symbols : List Symbol) : Option UInt64 :=
  (symbols.filter (·.name == o.start)).getLast?.map (·.address)

/-- Tells whether the symbol is a halt: one named as such that is not the start. -/
def isHaltSymbol (o : Options) (s : Symbol) : Bool := s.name != o.start && o.isHalt s.name

def haltPoints (o : Options) (symbols : List Symbol) : List HaltPoint :=
  (symbols.filter (isHaltSymbol o)).map fun s => ⟨s.name, s.address⟩

/-- A later start replaces an earlier one. -/
theorem startAddress?_cons (s : Symbol) (rest : List Symbol) :
    startAddress? o (s :: rest) =
      (startAddress? o rest).or (if s.name == o.start then some s.address else none) := by
  unfold startAddress?
  rw [List.filter_cons]
  split
  · rw [List.getLast?_cons]
    cases (rest.filter (·.name == o.start)).getLast? <;> rfl
  · rw [Option.or_none]

theorem haltPoints_cons (s : Symbol) (rest : List Symbol) :
    haltPoints o (s :: rest) =
      (if isHaltSymbol o s then [⟨s.name, s.address⟩] else []) ++ haltPoints o rest := by
  unfold haltPoints
  rw [List.filter_cons]
  split <;> rfl

/-! ## Ignore spans -/

/-- Openers are ignored symbols and data objects, unless they are start or halt. -/
def opens (o : Options) (s : Symbol) : Bool :=
  s.name != o.start && !o.isHalt s.name && (o.isIgnored s.name || s.isObject)

/-- The range that a symbol ends, if a span has been open since the given address. -/
def closedAt (o : Options) (endOfFlash : UInt64) (span : Option UInt64) (s : Symbol) :
    Option IgnoreRange :=
  span.bind fun lower =>
    if closes o s then IgnoreRange.ofBounds? lower (min s.address endOfFlash) else none

/-- Since when a span is open after the symbol, given since when one was open before it. -/
def openAfter (o : Options) (s : Symbol) : Option UInt64 → Option UInt64
  | some lower => if closes o s then none else some lower
  | none => if opens o s then some s.address else none

/-- The ranges that the symbols give when a span has been open since the given address, or none
    is open.  A span that no symbol ends goes on to the end of flash. -/
def spans (o : Options) (endOfFlash : UInt64) : Option UInt64 → List Symbol → List IgnoreRange
  | span, [] => (span.bind (IgnoreRange.ofBounds? · endOfFlash)).toList
  | span, s :: rest =>
    (closedAt o endOfFlash span s).toList ++ spans o endOfFlash (openAfter o s span) rest

theorem opens_iff {s : Symbol} :
    opens o s = true ↔ s.name ≠ o.start ∧ s.name ∉ o.halts ∧
      (s.kind = .object ∨ s.name ∈ o.ignores.names) := by
  simp only [opens, Bool.and_eq_true, Bool.or_eq_true, Options.isIgnored_iff, bne_iff_ne,
    Bool.not_eq_true', ← Bool.not_eq_true, Options.isHalt_iff, Symbol.isObject, beq_iff_eq,
    and_assoc]
  rw [or_comm]

theorem closes_iff {s : Symbol} :
    closes o s = true ↔ s.kind = .function ∧ s.name ∉ o.ignores.names := by
  simp only [closes, Bool.and_eq_true, Symbol.isFunction, beq_iff_eq, Bool.not_eq_true',
    ← Bool.not_eq_true, Options.isIgnored_iff]

/-- A symbol that ends a span does not begin the next one: closers are functions that are not
    ignored, and openers are data or ignored. -/
theorem not_opens_of_closes {s : Symbol} (h : closes o s = true) : opens o s = false := by
  obtain ⟨hkind, hname⟩ := closes_iff.1 h
  refine Bool.eq_false_iff.2 fun hopens => ?_
  obtain ⟨-, -, hobject | hignored⟩ := opens_iff.1 hopens
  · rw [hkind] at hobject
    nomatch hobject
  · exact hname hignored

/-! ## One symbol -/

namespace Pass

variable {p : Pass} {s : Symbol}

theorem span_close : (p.close o endOfFlash s).span = if closes o s then none else p.span := by
  unfold close
  cases hspan : p.span <;> cases closes o s <;> simp [hspan, endSpan]

theorem ignores_close :
    (p.close o endOfFlash s).ignores = p.ignores ++ (closedAt o endOfFlash p.span s).toList := by
  unfold close closedAt
  cases hspan : p.span <;> cases closes o s <;> simp [hspan, endSpan]

theorem start_close : (p.close o endOfFlash s).start = p.start := by
  unfold close
  split <;> rfl

theorem halts_close : (p.close o endOfFlash s).halts = p.halts := by
  unfold close
  split <;> rfl

theorem span_note : (p.note o s).span =
    if opens o s && p.span.isNone then some s.address else p.span := by
  unfold note opens bne
  cases s.name == o.start with
  | true => rfl
  | false =>
    cases o.isHalt s.name with
    | true => rfl
    | false =>
      show _ = if (o.isIgnored s.name || s.isObject) && p.span.isNone then some s.address else p.span
      cases (o.isIgnored s.name || s.isObject) && p.span.isNone <;> rfl

theorem start_note :
    (p.note o s).start = if s.name == o.start then some s.address else p.start := by
  unfold note
  cases s.name == o.start with
  | true => rfl
  | false =>
    cases o.isHalt s.name with
    | true => rfl
    | false => cases (o.isIgnored s.name || s.isObject) && p.span.isNone <;> rfl

theorem halts_note : (p.note o s).halts =
    p.halts ++ if isHaltSymbol o s then [⟨s.name, s.address⟩] else [] := by
  unfold note isHaltSymbol bne
  cases s.name == o.start with
  | true => exact (List.append_nil _).symm
  | false =>
    cases o.isHalt s.name with
    | true => rfl
    | false =>
      cases (o.isIgnored s.name || s.isObject) && p.span.isNone <;> exact (List.append_nil _).symm

theorem ignores_note : (p.note o s).ignores = p.ignores := by
  unfold note
  repeat' split
  all_goals rfl

/-- **One move of the scan.** -/
theorem span_step : (step o endOfFlash p s).span = openAfter o s p.span := by
  rw [step, span_note, span_close]
  cases hcloses : closes o s with
  | true =>
    rw [not_opens_of_closes hcloses]
    cases p.span <;> simp [openAfter, hcloses, not_opens_of_closes hcloses]
  | false => cases p.span <;> simp [openAfter, hcloses]

/-! ## All symbols -/

/-- **A pass finds what can be found of each by itself**: of the start, of the halts and of the ranges,
    the last of which ends with the flash if nothing else ends it. -/
theorem foldl_step (o : Options) (endOfFlash : UInt64) (symbols : List Symbol) (p : Pass) :
    let q := symbols.foldl (step o endOfFlash) p
    q.start = (startAddress? o symbols).or p.start ∧ q.halts = p.halts ++ haltPoints o symbols ∧
      (q.endSpan endOfFlash).ignores = p.ignores ++ spans o endOfFlash p.span symbols := by
  induction symbols generalizing p with
  | nil => exact ⟨rfl, (List.append_nil _).symm, rfl⟩
  | cons s rest ih =>
    obtain ⟨hstart, hhalts, hignores⟩ := ih (step o endOfFlash p s)
    refine ⟨hstart.trans ?_, hhalts.trans ?_, hignores.trans ?_⟩
    · rw [step, start_note, start_close, startAddress?_cons, Option.or_assoc]
      cases s.name == o.start <;> rfl
    · rw [step, halts_note, halts_close, haltPoints_cons, List.append_assoc]
    · rw [span_step, spans, step, ignores_note, ignores_close, List.append_assoc]

theorem run_eq (o : Options) (endOfFlash : UInt64) (symbols : List Symbol) :
    run o endOfFlash symbols = ⟨none, startAddress? o symbols, haltPoints o symbols,
      spans o endOfFlash none symbols⟩ := by
  obtain ⟨hstart, hhalts, hignores⟩ := foldl_step o endOfFlash symbols begun
  rw [begun, Option.or_none] at hstart
  rw [run, endSpan, Pass.mk.injEq]
  exact ⟨rfl, hstart, hhalts, hignores⟩

end Pass

/-- A survey is told from its start, its halts and its ranges. -/
theorem ofSymbols_eq (o : Options) (endOfFlash : UInt64) (symbols : List Symbol) :
    ofSymbols o endOfFlash symbols = ofPass o ⟨none, startAddress? o symbols, haltPoints o symbols,
      spans o endOfFlash none symbols⟩ := by
  rw [ofSymbols, Pass.run_eq]

end Survey
end FaultPlan
