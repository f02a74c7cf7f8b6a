/-
  The names that an analysis takes over from its listings are words.

  A symbol is named by a word of its row and a section by a word of its header line, so that neither
  name is empty or holds a blank.  This carries over to the labels of halts and the names of loaded
  sections, the two kinds of text in an analysis (`Source.Yields.isWord_label`,
  `Source.Yields.isWord_name`).
-/
import FaultPlan.Proofs.Analysis.Stages
import FaultPlan.Proofs.Section.Positions
import FaultPlan.Proofs.Symbol.Order
import FaultPlan.Proofs.Symbol.Survey
import FaultPlan.Proofs.Text.Words

namespace FaultPlan

open Text (IsWord)

/-! ## Symbols -/

/-- The last word of a row is its symbol's name. -/
theorem Symbol.isWord_name {line : String} {s : Symbol} (h : ofRow? line = some s) :
    IsWord s.name := by
  unfold ofRow? at h
  split at h
  · next first second column more hwords =>
    obtain ⟨address, -, rfl⟩ := Option.map_eq_some_iff.1 h
    refine Text.isWord_of_mem_words (s := line) ?_
    rw [hwords]
    have hlast := List.getLast_mem (List.cons_ne_nil column more)
    exact List.mem_cons_of_mem _ (List.mem_cons_of_mem _ hlast)
  · nomatch h

theorem isWord_name_of_mem_symbolTable {listing : String} {s : Symbol}
    (h : s ∈ symbolTable listing) : IsWord s.name := by
  obtain ⟨r, hr, rfl⟩ := List.mem_map.1 h
  exact Symbol.isWord_name (genuine_of_mem_symbolRows hr)

/-! ## Sections -/

/-- The second word of a header line is the section's name. -/
theorem HeaderRow.Spells.isWord_name {r : HeaderRow} {h : SectionHeader} (hspells : r.Spells h) :
    IsWord h.name :=
  Text.isWord_of_mem_words (List.mem_of_getElem? hspells.name)

theorem SectionHeader.isWord_name {lines : List String} {headers : List SectionHeader}
    (hlines : ofLines lines = .ok headers) : ∀ h ∈ headers, IsWord h.name := by
  obtain ⟨parts, hparts⟩ := exists_division lines
  have hwords : List.Forall₂ (fun h r => IsWord h.name ∧ r.Spells h) headers (parts.filterMap ListingPart.row?) :=
    (hparts.spells hlines).flip.imp fun h r hspells => ⟨hspells.isWord_name, hspells⟩
  exact ((List.forall₂_and_left _ _).1 hwords).1

/-! ## Analyses -/

namespace Source.Yields

variable {source : Source} {o : Options} {a : Analysis}

/-- **Halts are labelled with words.** -/
theorem isWord_label (h : source.Yields o a) : ∀ p ∈ a.survey.halts, IsWord p.label := by
  obtain ⟨text, -, hsurvey⟩ := h.survey
  intro p hp
  rw [← (Survey.ofSymbols_eq_ok_iff.1 hsurvey).2.1] at hp
  obtain ⟨s, hs, rfl⟩ := List.mem_map.1 hp
  exact isWord_name_of_mem_symbolTable (List.mem_filter.1 hs).1

/-- **Loaded sections are named with words.** -/
theorem isWord_name (h : source.Yields o a) : ∀ s ∈ a.sections, IsWord s.name := by
  obtain ⟨text, headers, -, hheaders, hsections⟩ := h.sections
  intro s hs
  rw [← hsections] at hs
  obtain ⟨header, hheader, rfl⟩ := List.mem_map.1 hs
  exact SectionHeader.isWord_name hheaders header (List.mem_filter.1 hheader).1

end Source.Yields
end FaultPlan
