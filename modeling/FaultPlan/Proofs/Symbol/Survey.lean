/-
  What a survey consists of, and how the scan for ignore spans moves.

  One step of the scan is described by the range that it gives (`mem_closedAt_iff`) and by the span
  that is open after it (`openAfter_eq_some`).  `InOrder` is the invariant of the scan: it holds of a
  symbol table and survives every step.  A survey that succeeds is taken apart into its three
  findings (`ofSymbols_eq_ok_iff`).
-/
import FaultPlan.Proofs.Symbol.Order
import FaultPlan.Proofs.Symbol.Pass

namespace FaultPlan

/-- The address is one of those that the range keeps from being faulted. -/
def IgnoreRange.Contains (r : IgnoreRange) (x : UInt64) : Prop := r.lower ≤ x ∧ x < r.upper

theorem IgnoreRange.mem_ofBounds?_iff {lower upper : UInt64} {r : IgnoreRange} :
    r ∈ IgnoreRange.ofBounds? lower upper ↔ lower < upper ∧ r = ⟨lower, upper⟩ := by
  unfold IgnoreRange.ofBounds?
  split
  · next h => simp [h, eq_comm]
  · next h => simp [h]

namespace Survey

variable {o : Options} {endOfFlash : UInt64}

/-! ## Halts -/

theorem isHaltSymbol_iff {s : Symbol} :
    isHaltSymbol o s = true ↔ s.name ∈ o.halts ∧ s.name ≠ o.start := by
  rw [isHaltSymbol, Bool.and_eq_true, bne_iff_ne, Options.isHalt_iff, and_comm]

/-! ## Steps of the scan -/

/-- A symbol gives a range when it is a closer and the open span would not be empty; the range goes
    up to the closer, but not past the end of flash. -/
theorem mem_closedAt_iff {span : Option UInt64} {s : Symbol} {r : IgnoreRange} :
    r ∈ closedAt o endOfFlash span s ↔ closes o s = true ∧
      ∃ lower, span = some lower ∧ lower < min s.address endOfFlash ∧
        r = ⟨lower, min s.address endOfFlash⟩ := by
  cases span with
  | none => simp [closedAt]
  | some lower =>
    cases hcloses : closes o s with
    | false => simp [closedAt, hcloses]
    | true =>
      have h : closedAt o endOfFlash (some lower) s =
          IgnoreRange.ofBounds? lower (min s.address endOfFlash) := by simp [closedAt, hcloses]
      rw [h, IgnoreRange.mem_ofBounds?_iff]
      simp

/-- A span that is open after a symbol was open before it, and the symbol is no closer, or began
    with it. -/
theorem openAfter_eq_some {span : Option UInt64} {s : Symbol} {lower : UInt64}
    (h : openAfter o s span = some lower) :
    (span = some lower ∧ closes o s = false) ∨ (span = none ∧ lower = s.address) := by
  cases span with
  | none =>
    simp only [openAfter, Option.ite_none_right_eq_some, Option.some.injEq] at h
    exact Or.inr ⟨rfl, h.2.symm⟩
  | some l =>
    simp only [openAfter, Option.ite_none_left_eq_some, Option.some.injEq,
      Bool.not_eq_true] at h
    exact Or.inl ⟨by rw [h.2], h.1⟩

/-- A symbol that opens no span leaves the span as it is, unless it ends it. -/
theorem openAfter_of_not_opens {s : Symbol} (h : opens o s = false) (span : Option UInt64) :
    openAfter o s span = if closes o s then none else span := by
  cases span with
  | none => simp [openAfter, h]
  | some lower => rfl

/-- The ranges of a scan are the one that the first symbol ends and those given after it. -/
theorem mem_spans_cons {span : Option UInt64} {s : Symbol} {rest : List Symbol}
    {r : IgnoreRange} : r ∈ spans o endOfFlash span (s :: rest) ↔
      r ∈ closedAt o endOfFlash span s ∨ r ∈ spans o endOfFlash (openAfter o s span) rest := by
  rw [spans, List.mem_append, Option.mem_toList, Option.mem_def]

/-- A span that is open at the end of the table gives the range up to the end of flash. -/
theorem mem_spans_nil {span : Option UInt64} {r : IgnoreRange} :
    r ∈ spans o endOfFlash span [] ↔
      ∃ lower, span = some lower ∧ lower < endOfFlash ∧ r = ⟨lower, endOfFlash⟩ := by
  rw [spans, Option.mem_toList, Option.bind_eq_some_iff]
  exact exists_congr fun _ => and_congr_right fun _ => IgnoreRange.mem_ofBounds?_iff

/-- The invariant of the scan: the symbols still to come are in the order of the table, and none of
    them lies below an open span. -/
structure InOrder (span : Option UInt64) (symbols : List Symbol) : Prop where
  sorted : symbols.Pairwise (fun a b => a.address ≤ b.address)
  opened : ∀ lower, span = some lower → ∀ s ∈ symbols, lower ≤ s.address

theorem InOrder.table (listing : String) : InOrder none (symbolTable listing) where
  sorted := pairwise_symbolTable listing
  opened _ h := nomatch h

theorem InOrder.step {span : Option UInt64} {s : Symbol} {rest : List Symbol}
    (h : InOrder span (s :: rest)) : InOrder (openAfter o s span) rest where
  sorted := (List.pairwise_cons.1 h.sorted).2
  opened := by
    intro lower hafter u hu
    rcases openAfter_eq_some hafter with ⟨hspan, -⟩ | ⟨-, rfl⟩
    · exact h.opened lower hspan u (List.mem_cons_of_mem s hu)
    · exact (List.pairwise_cons.1 h.sorted).1 u hu

/-! ## Successful surveys -/

/-- A survey succeeds with what was found, if there are a start and a halt among it. -/
theorem ofSymbols_eq_ok_iff {symbols : List Symbol} {s : Survey} :
    ofSymbols o endOfFlash symbols = .ok s ↔
      startAddress? o symbols = some s.start ∧ haltPoints o symbols = s.halts ∧ s.halts ≠ [] ∧
        spans o endOfFlash none symbols = s.ignores := by
  obtain ⟨start, halts, ignores⟩ := s
  rw [ofSymbols_eq]
  unfold ofPass
  dsimp only
  split
  · next hstart => simp [hstart]
  · next hstart hhalts =>
    simp only [hstart, hhalts, reduceCtorEq, false_iff]
    rintro ⟨-, hnil, hne, -⟩
    exact hne hnil.symm
  · next address hstart hhalts =>
    simp only [Except.ok.injEq, Survey.mk.injEq, hstart, Option.some.injEq]
    constructor
    · rintro ⟨rfl, rfl, rfl⟩
      exact ⟨rfl, rfl, hhalts, rfl⟩
    · rintro ⟨rfl, rfl, -, rfl⟩
      exact ⟨rfl, rfl, rfl⟩

end Survey
end FaultPlan
