/-
  The shape of the ignore ranges: none is empty, none passes the end of flash, and each ends before
  the next begins.

  That a range is not empty and ends in time is seen where it is made (`bounds_of_mem_spans`).  That
  the ranges are in order takes the invariant of the scan: a range ends at a closer at the latest,
  and whatever is given later begins at that closer's address or above (`le_lower_of_mem_spans`).
-/
import FaultPlan.Proofs.Symbol.Survey

namespace FaultPlan.Survey

variable {o : Options} {endOfFlash : UInt64}

/-- Every range holds an address, and none passes the end of flash. -/
theorem bounds_of_mem_spans {r : IgnoreRange} : ∀ {symbols : List Symbol} {span : Option UInt64},
    r ∈ spans o endOfFlash span symbols → r.lower < r.upper ∧ r.upper ≤ endOfFlash := by
  intro symbols
  induction symbols with
  | nil =>
    intro span hr
    obtain ⟨lower, -, hlt, rfl⟩ := mem_spans_nil.1 hr
    exact ⟨hlt, UInt64.le_refl _⟩
  | cons s rest ih =>
    intro span hr
    rcases mem_spans_cons.1 hr with hr | hr
    · obtain ⟨-, lower, -, hlt, rfl⟩ := mem_closedAt_iff.1 hr
      exact ⟨hlt, Std.min_le_right⟩
    · exact ih hr

/-- Nothing is given below a bound that the open span and all symbols to come keep. -/
theorem le_lower_of_mem_spans {b : UInt64} {r : IgnoreRange} :
    ∀ {symbols : List Symbol} {span : Option UInt64},
    (∀ lower, span = some lower → b ≤ lower) → (∀ s ∈ symbols, b ≤ s.address) →
    r ∈ spans o endOfFlash span symbols → b ≤ r.lower := by
  intro symbols
  induction symbols with
  | nil =>
    intro span hspan _ hr
    obtain ⟨lower, hlower, -, rfl⟩ := mem_spans_nil.1 hr
    exact hspan lower hlower
  | cons s rest ih =>
    intro span hspan hsymbols hr
    rcases mem_spans_cons.1 hr with hr | hr
    · obtain ⟨-, lower, hlower, -, rfl⟩ := mem_closedAt_iff.1 hr
      exact hspan lower hlower
    · refine ih ?_ (fun u hu => hsymbols u (List.mem_cons_of_mem s hu)) hr
      intro lower hafter
      rcases openAfter_eq_some hafter with ⟨hlower, -⟩ | ⟨-, rfl⟩
      · exact hspan lower hlower
      · exact hsymbols s List.mem_cons_self

/-- **The ranges are in order**, and so no two of them meet: each ends before any later one begins,
    or where it begins. -/
theorem pairwise_spans : ∀ {symbols : List Symbol} {span : Option UInt64},
    InOrder span symbols →
      (spans o endOfFlash span symbols).Pairwise (fun r r' => r.upper ≤ r'.lower) := by
  intro symbols
  induction symbols with
  | nil =>
    intro span _
    exact Option.pairwise_toList
  | cons s rest ih =>
    intro span hinv
    rw [spans, List.pairwise_append]
    refine ⟨Option.pairwise_toList, ih hinv.step, ?_⟩
    intro r hr r' hr'
    obtain ⟨hcloses, lower, rfl, -, rfl⟩ := mem_closedAt_iff.1 (Option.mem_toList.1 hr)
    -- the closer ended the span and opened none, so that all that follows is not below it
    have hafter : openAfter o s (some lower) = none := by simp [openAfter, hcloses]
    have hs : ∀ u ∈ rest, s.address ≤ u.address := (List.pairwise_cons.1 hinv.sorted).1
    have hlower : s.address ≤ r'.lower := by
      rw [hafter] at hr'
      exact le_lower_of_mem_spans (by simp) hs hr'
    show min s.address endOfFlash ≤ r'.lower
    exact UInt64.le_trans Std.min_le_left hlower

/-- The ignore ranges of a survey are not empty, end in flash, and are in order. -/
theorem shape_of_ignores {text : String} {survey : Survey}
    (h : ofSymbols o endOfFlash (symbolTable text) = .ok survey) :
    (∀ r ∈ survey.ignores, r.lower < r.upper ∧ r.upper ≤ endOfFlash) ∧
      survey.ignores.Pairwise (fun r r' => r.upper ≤ r'.lower) := by
  obtain ⟨-, -, -, hignores⟩ := ofSymbols_eq_ok_iff.1 h
  rw [← hignores]
  exact ⟨fun r hr => bounds_of_mem_spans hr, pairwise_spans (InOrder.table text)⟩

end FaultPlan.Survey
