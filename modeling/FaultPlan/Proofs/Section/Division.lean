/-
  What the reader makes of a header listing.

  The reader follows the division of the lines.  It goes wrong at the first header with a number that
  is none, and only there (`IsDivision.ofLines_of_malformed`, `IsDivision.ofLines_of_wellFormed`): what
  stands behind a header is never looked at as one.
-/
import FaultPlan.Proofs.Section.Positions

namespace FaultPlan

open ListingPart (skipped row row?)

/-! ## What the reader makes of the rows -/

/-- One of the four numbers of the row is none: the third to the sixth word of its line. -/
def HeaderRow.IsMalformed (r : HeaderRow) : Prop :=
  ∃ index ∈ [2, 3, 4, 5], r.number? index = none

instance : DecidablePred HeaderRow.IsMalformed :=
  fun r => inferInstanceAs (Decidable (∃ index ∈ [2, 3, 4, 5], r.number? index = none))

theorem HeaderRow.Spells.not_isMalformed {r : HeaderRow} {h : SectionHeader}
    (hspells : r.Spells h) : ¬ r.IsMalformed := by
  rintro ⟨index, hindex, hnone⟩
  obtain rfl | rfl | rfl | rfl : index = 2 ∨ index = 3 ∨ index = 4 ∨ index = 5 := by
    simpa using hindex
  · nomatch hnone.symm.trans hspells.size
  · nomatch hnone.symm.trans hspells.vma
  · nomatch hnone.symm.trans hspells.lma
  · nomatch hnone.symm.trans hspells.fileOffset

namespace HeaderLine

theorem ofWords_eq_malformed {name size vma lma fileOffset : String}
    (h : ofWords name size vma lma fileOffset = .malformed) :
    Hex.parse size = none ∨ Hex.parse vma = none ∨ Hex.parse lma = none ∨
      Hex.parse fileOffset = none := by
  unfold ofWords at h
  split at h
  · nomatch h
  · next hnumbers =>
    by_contra hall
    simp only [not_or, ← Option.isSome_iff_ne_none, Option.isSome_iff_exists] at hall
    obtain ⟨⟨s, hs⟩, ⟨v, hv⟩, ⟨l, hl⟩, ⟨f, hf⟩⟩ := hall
    exact hnumbers s v l f hs hv hl hf

theorem isMalformed_of_read {line : String} (hline : IsHeaderLine line)
    (h : read line = .malformed) (flagLine : Option String) :
    HeaderRow.IsMalformed ⟨line, flagLine⟩ := by
  obtain ⟨number, name, size, vma, lma, fileOffset, alignment, hwords, hdot⟩ :=
    isHeaderLine_iff.1 hline
  have hread : read line = ofWords name size vma lma fileOffset := by simp [read, hwords, hdot]
  rcases ofWords_eq_malformed (hread.symm.trans h) with hnone | hnone | hnone | hnone
  · exact ⟨2, by simp, by simpa [HeaderRow.number?, hwords] using hnone⟩
  · exact ⟨3, by simp, by simpa [HeaderRow.number?, hwords] using hnone⟩
  · exact ⟨4, by simp, by simpa [HeaderRow.number?, hwords] using hnone⟩
  · exact ⟨5, by simp, by simpa [HeaderRow.number?, hwords] using hnone⟩

/-- A header line is refused exactly if one of its numbers is none. -/
theorem read_eq_malformed_iff {line : String} (hline : IsHeaderLine line)
    (flagLine : Option String) :
    read line = .malformed ↔ HeaderRow.IsMalformed ⟨line, flagLine⟩ := by
  refine ⟨fun h => isMalformed_of_read hline h flagLine, fun h => ?_⟩
  rcases read_of_isHeaderLine hline with hread | ⟨header, -, hspells⟩
  · exact hread
  · exact absurd h hspells.not_isMalformed

theorem exists_read_of_not_isMalformed {line : String} (hline : IsHeaderLine line)
    {flagLine : Option String} (h : ¬ HeaderRow.IsMalformed ⟨line, flagLine⟩) :
    ∃ header, read line = .header header := by
  rcases read_of_isHeaderLine hline with hread | ⟨header, hread, -⟩
  · exact absurd ((read_eq_malformed_iff hline flagLine).1 hread) h
  · exact ⟨header, hread⟩

end HeaderLine

namespace IsDivision

variable {lines : List String} {parts : List ListingPart}

/-- **The first malformed row fails the listing**, with its line. -/
theorem ofLines_of_malformed (h : IsDivision lines parts) {before : List HeaderRow} {r : HeaderRow}
    {behind : List HeaderRow} (hrows : parts.filterMap row? = before ++ r :: behind)
    (hbefore : ∀ r' ∈ before, ¬ r'.IsMalformed) (hr : r.IsMalformed) :
    SectionHeader.ofLines lines = .error (.malformedHeader r.line) := by
  induction h using IsDivision.inductionOn generalizing before with
  | nil => simp at hrows
  | skip hline _ ih =>
    rw [SectionHeader.ofLines_skipped hline]
    exact ih hrows hbefore
  | @header line flagLine rest parts hline _ ih =>
    cases before with
    | nil =>
      obtain ⟨rfl, -⟩ := List.cons.inj hrows
      exact SectionHeader.ofLines_malformed ((HeaderLine.read_eq_malformed_iff hline _).2 hr)
    | cons first before =>
      obtain ⟨rfl, hlater⟩ := List.cons.inj hrows
      obtain ⟨hfirst, hbefore⟩ := List.forall_mem_cons.1 hbefore
      obtain ⟨header, hread⟩ := HeaderLine.exists_read_of_not_isMalformed hline hfirst
      rw [SectionHeader.ofLines_header hread, ih hlater hbefore]
      rfl
  | @last line hline =>
    cases before with
    | nil =>
      obtain ⟨rfl, -⟩ := List.cons.inj hrows
      exact SectionHeader.ofLines_malformed ((HeaderLine.read_eq_malformed_iff hline _).2 hr)
    | cons first before => exact absurd (List.cons.inj hrows).2 (by simp)

/-- Rows none of which is malformed are all read. -/
theorem ofLines_of_wellFormed (h : IsDivision lines parts)
    (hrows : ∀ r ∈ parts.filterMap row?, ¬ r.IsMalformed) :
    ∃ headers, SectionHeader.ofLines lines = .ok headers := by
  induction h using IsDivision.inductionOn with
  | nil => exact ⟨[], rfl⟩
  | skip hline _ ih =>
    rw [SectionHeader.ofLines_skipped hline]
    exact ih hrows
  | header hline _ ih =>
    obtain ⟨hfirst, hrows⟩ := List.forall_mem_cons.1 hrows
    obtain ⟨header, hread⟩ := HeaderLine.exists_read_of_not_isMalformed hline hfirst
    obtain ⟨headers, hheaders⟩ := ih hrows
    rw [SectionHeader.ofLines_header hread, hheaders]
    exact ⟨_, rfl⟩
  | last hline =>
    have hfirst := hrows _ List.mem_cons_self
    obtain ⟨header, hread⟩ := HeaderLine.exists_read_of_not_isMalformed hline hfirst
    exact ⟨_, SectionHeader.ofLines_last hread⟩

end IsDivision

/-- The items that a row gives as flags: those of the line behind it, and none without such a line. -/
theorem HeaderRow.Spells.itemsOf_flags {r : HeaderRow} {h : SectionHeader} (hspells : r.Spells h) :
    (r.flagLine = none → h.flags = []) ∧
      ∀ flagLine, r.flagLine = some flagLine → Text.ItemsOf flagLine h.flags := by
  constructor
  · intro hnone
    rw [hspells.flags, hnone]
    rfl
  · intro flagLine hsome
    rw [Text.itemsOf_iff, hspells.flags, hsome]
    rfl

/-- **A header listing is read by position.**  Its lines divide in exactly one way, from the top, into
    lines that are skipped and header rows, each of them with the line behind it if there is one; a line
    that stands where a header may stand is a header exactly if it has seven words and the second begins
    with a dot.  The first of these rows whose third to sixth word is not a hexadecimal number fails the
    listing, with its line.  If there is none, then the listing gives one header for each row, in their
    order: the name and the four numbers of the row, and as flags the items of the line behind it. -/
theorem headers_read_by_position (listing : String) :
    ∃ parts, (∀ parts', IsDivision (Text.lines listing) parts' ↔ parts' = parts) ∧
      (∀ before r behind, parts.filterMap ListingPart.row? = before ++ r :: behind →
        (∀ r' ∈ before, ¬ r'.IsMalformed) → r.IsMalformed →
          SectionHeader.ofListing listing = .error (.malformedHeader r.line)) ∧
      ((∀ r ∈ parts.filterMap ListingPart.row?, ¬ r.IsMalformed) →
        ∃ headers, SectionHeader.ofListing listing = .ok headers ∧
          List.Forall₂ (fun (r : HeaderRow) (h : SectionHeader) =>
              r.name? = some h.name ∧ r.number? 2 = some h.size ∧ r.number? 3 = some h.vma ∧
                r.number? 4 = some h.lma ∧ r.number? 5 = some h.fileOffset ∧
                (r.flagLine = none → h.flags = []) ∧
                ∀ flagLine, r.flagLine = some flagLine → Text.ItemsOf flagLine h.flags)
            (parts.filterMap ListingPart.row?) headers) := by
  obtain ⟨parts, hparts⟩ := existsUnique_division (Text.lines listing)
  have hdivision := (hparts parts).2 rfl
  refine ⟨parts, hparts, fun before r behind => hdivision.ofLines_of_malformed, fun hwell => ?_⟩
  obtain ⟨headers, hheaders⟩ := hdivision.ofLines_of_wellFormed hwell
  refine ⟨headers, hheaders, (hdivision.spells hheaders).imp fun r h hspells => ?_⟩
  exact ⟨hspells.name, hspells.size, hspells.vma, hspells.lma, hspells.fileOffset,
    hspells.itemsOf_flags⟩

/-- Of two malformed rows that stand behind others only the second stands where a header may stand: the
    first is taken for the flags of a row.  A listing is read although its last row has no flags. -/
theorem headers_read_by_position_shifted :
    let listing := "0 .a 8 0 0 0 2\n1 .b zz 0 0 0 2\nIdx\n2 .c 8 0 q 0 2\n3 .d zz 0 0 0 2\n"
    let listing' := "0 .a 8 0 0 0 2\n CONTENTS,, ALLOC \nIdx\n1 .b 8 0 0 0 2\n"
    SectionHeader.ofListing listing = .error (.malformedHeader "2 .c 8 0 q 0 2") ∧
      ∃ a b, SectionHeader.ofListing listing' = .ok [a, b] ∧
        a.flags = ["CONTENTS", "ALLOC"] ∧ b.flags = [] := by
  intro listing listing'
  have hlines : Text.lines listing = ["0 .a 8 0 0 0 2", "1 .b zz 0 0 0 2", "Idx", "2 .c 8 0 q 0 2",
    "3 .d zz 0 0 0 2"] := by decide
  have hlines' : Text.lines listing' = ["0 .a 8 0 0 0 2", " CONTENTS,, ALLOC ", "Idx",
    "1 .b 8 0 0 0 2"] := by decide
  constructor
  · obtain ⟨parts, hparts, hmalformed, -⟩ := headers_read_by_position listing
    rw [hlines] at hparts
    obtain rfl := (hparts _).1 (.header (by decide) (.skip (by decide) (.header (by decide) .nil)))
    exact hmalformed [_] _ [] rfl (by decide) ⟨4, by decide, by decide⟩
  · obtain ⟨parts, hparts, -, hwell⟩ := headers_read_by_position listing'
    rw [hlines'] at hparts
    obtain rfl := (hparts _).1 (.header (by decide) (.skip (by decide) (.last (by decide))))
    obtain ⟨headers, hheaders, hrows⟩ := hwell (by decide)
    cases hrows with
    | cons ha hrest =>
      cases hrest with
      | cons hb hnil =>
        cases hnil
        refine ⟨_, _, hheaders, ?_, hb.2.2.2.2.2.1 rfl⟩
        exact (Text.itemsOf_iff.1 (ha.2.2.2.2.2.2 _ rfl)).trans (by decide)

end FaultPlan
