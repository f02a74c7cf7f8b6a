/-
  Section headers as they stand in a listing.

  Whether a line is a header is not to be seen from the line alone: the line behind a header holds the
  flags of its section, whatever it looks like.  A division of the lines gives each of them its place:
  it is skipped, or it is a header, or it stands behind a header and holds its flags (`IsDivision`).
  From the top there is only one way to divide (`existsUnique_division`).  A listing that is read
  without a failure gives one header for every row of its division, each with what its row spells
  (`IsDivision.spells`).
-/
import Mathlib.Data.List.Forall2
import FaultPlan.Proofs.Text.Items
import FaultPlan.Section.Header

namespace FaultPlan

/-- A line that is a header where a header may stand: it has seven words, and the second begins with
    a dot. -/
def IsHeaderLine (line : String) : Prop :=
  (Text.words line).length = 7 ∧
    ∃ name, (Text.words line)[1]? = some name ∧ Text.startsWith "." name = true

/-- A header line of a listing with the line behind it, if the listing goes on. -/
structure HeaderRow where
  line : String
  flagLine : Option String

/-! ## Divisions -/

/-- A part of a header listing: a line that is skipped, or a header with the line behind it. -/
inductive ListingPart where
  | skipped (line : String)
  | row (r : HeaderRow)

namespace ListingPart

/-- The lines of the part. -/
def lines : ListingPart → List String
  | skipped line => [line]
  | row r => r.line :: r.flagLine.toList

/-- The header row, if the part is one. -/
def row? : ListingPart → Option HeaderRow
  | skipped _ => none
  | row r => some r

/-- The first line of the part is a header exactly if the part is a header row. -/
def Fits : ListingPart → Prop
  | skipped line => ¬ IsHeaderLine line
  | row r => IsHeaderLine r.line

end ListingPart

open ListingPart (skipped row)

instance (line : String) : Decidable (IsHeaderLine line) :=
  inferInstanceAs (Decidable ((Text.words line).length = 7 ∧
    ∃ name ∈ (Text.words line)[1]?, Text.startsWith "." name = true))

/-- The lines are divided into these parts, and none is left over.  A header takes the line behind it,
    so that only at the very end one can be without. -/
structure IsDivision (lines : List String) (parts : List ListingPart) : Prop where
  lines_eq : parts.flatMap ListingPart.lines = lines
  fits : ∀ part ∈ parts, part.Fits
  complete : ∀ before r behind, parts = before ++ row r :: behind → r.flagLine = none → behind = []

namespace IsDivision

variable {lines rest : List String} {part : ListingPart} {parts parts' : List ListingPart}

theorem nil : IsDivision [] [] := ⟨rfl, nofun, by simp⟩

theorem cons (hfits : part.Fits)
    (hcomplete : ∀ r, part = row r → r.flagLine = none → parts = [])
    (hrest : IsDivision rest parts) : IsDivision (part.lines ++ rest) (part :: parts) where
  lines_eq := by rw [List.flatMap_cons, hrest.lines_eq]
  fits := List.forall_mem_cons.2 ⟨hfits, hrest.fits⟩
  complete before r behind heq hflag := by
    cases before with
    | nil =>
      obtain ⟨rfl, rfl⟩ := List.cons.inj heq
      exact hcomplete r rfl hflag
    | cons first before =>
      obtain ⟨-, heq⟩ := List.cons.inj heq
      exact hrest.complete before r behind heq hflag

/-- What stands behind the first part is divided as well. -/
theorem tail (h : IsDivision lines (part :: parts)) :
    IsDivision (parts.flatMap ListingPart.lines) parts where
  lines_eq := rfl
  fits := (List.forall_mem_cons.1 h.fits).2
  complete before r behind heq := h.complete (part :: before) r behind (by rw [heq]; rfl)

/-! A division is built from the end of the listing. -/

variable {line flagLine : String}

theorem skip (hline : ¬ IsHeaderLine line) (hrest : IsDivision rest parts) :
    IsDivision (line :: rest) (skipped line :: parts) := by
  have hfits : (skipped line).Fits := hline
  exact cons hfits nofun hrest

theorem header (hline : IsHeaderLine line) (hrest : IsDivision rest parts) :
    IsDivision (line :: flagLine :: rest) (row ⟨line, some flagLine⟩ :: parts) := by
  have hfits : (row ⟨line, some flagLine⟩).Fits := hline
  refine cons hfits ?_ hrest
  rintro r ⟨⟩ hflag
  nomatch hflag

theorem last (hline : IsHeaderLine line) : IsDivision [line] [row ⟨line, none⟩] := by
  have hfits : (row ⟨line, none⟩).Fits := hline
  exact cons hfits (fun _ _ _ => rfl) nil

end IsDivision

theorem exists_division : ∀ lines : List String, ∃ parts, IsDivision lines parts
  | [] => ⟨[], .nil⟩
  | line :: rest => by
    by_cases hline : IsHeaderLine line
    · cases rest with
      | nil => exact ⟨_, .last hline⟩
      | cons flagLine rest =>
        obtain ⟨parts, hrest⟩ := exists_division rest
        exact ⟨_, .header hline hrest⟩
    · obtain ⟨parts, hrest⟩ := exists_division rest
      exact ⟨_, .skip hline hrest⟩

/-- The first line of a part tells whether it is a header, and a header has a line behind it if there
    is one: so the first parts of two divisions of the same lines are the same. -/
theorem IsDivision.head_eq {lines : List String} {part part' : ListingPart}
    {parts parts' : List ListingPart} (h : IsDivision lines (part :: parts))
    (h' : IsDivision lines (part' :: parts')) : part = part' := by
  have hfits : part.Fits := h.fits part List.mem_cons_self
  have hfits' : part'.Fits := h'.fits part' List.mem_cons_self
  have heq := h.lines_eq.trans h'.lines_eq.symm
  rw [List.flatMap_cons, List.flatMap_cons] at heq
  cases part with
  | skipped line =>
    cases part' with
    | skipped line' =>
      obtain ⟨rfl, -⟩ := List.cons.inj heq
      rfl
    | row r' =>
      obtain ⟨rfl, -⟩ := List.cons.inj heq
      exact absurd hfits' hfits
  | row r =>
    cases part' with
    | skipped line' =>
      obtain ⟨rfl, -⟩ := List.cons.inj heq
      exact absurd hfits hfits'
    | row r' =>
      obtain ⟨line, flagLine⟩ := r
      obtain ⟨line', flagLine'⟩ := r'
      obtain ⟨rfl, hbehind⟩ := List.cons.inj heq
      cases flagLine with
      | none =>
        cases flagLine' with
        | none => rfl
        | some flag' =>
          obtain rfl := h.complete [] _ parts rfl rfl
          nomatch hbehind
      | some flag =>
        cases flagLine' with
        | none =>
          obtain rfl := h'.complete [] _ parts' rfl rfl
          nomatch hbehind
        | some flag' =>
          obtain ⟨rfl, -⟩ := List.cons.inj hbehind
          rfl

theorem IsDivision.unique {lines : List String} {parts parts' : List ListingPart}
    (h : IsDivision lines parts) (h' : IsDivision lines parts') : parts = parts' := by
  induction parts generalizing lines parts' with
  | nil =>
    cases parts' with
    | nil => rfl
    | cons part' parts' =>
      have heq := h.lines_eq.trans h'.lines_eq.symm
      cases part' <;> nomatch heq
  | cons part parts ih =>
    cases parts' with
    | nil =>
      have heq := h'.lines_eq.trans h.lines_eq.symm
      cases part <;> nomatch heq
    | cons part' parts' =>
      obtain rfl := h.head_eq h'
      have heq := h.lines_eq.trans h'.lines_eq.symm
      rw [List.flatMap_cons, List.flatMap_cons, List.append_cancel_left_eq] at heq
      rw [ih h.tail (heq ▸ h'.tail)]

/-- **The lines of a listing divide in exactly one way**, each into its place. -/
theorem existsUnique_division (lines : List String) :
    ∃ parts, ∀ parts', IsDivision lines parts' ↔ parts' = parts := by
  obtain ⟨parts, h⟩ := exists_division lines
  refine ⟨parts, fun parts' => ⟨fun h' => h'.unique h, ?_⟩⟩
  rintro rfl
  exact h

/-- **Induction along a division**, from the end of the listing. -/
theorem IsDivision.inductionOn {motive : ∀ lines parts, IsDivision lines parts → Prop}
    {lines : List String} {parts : List ListingPart} (h : IsDivision lines parts)
    (nil : motive [] [] .nil)
    (skip : ∀ {line rest parts} (hline : ¬ IsHeaderLine line) (hrest : IsDivision rest parts),
      motive rest parts hrest → motive (line :: rest) (skipped line :: parts) (.skip hline hrest))
    (header : ∀ {line flagLine rest parts} (hline : IsHeaderLine line)
      (hrest : IsDivision rest parts), motive rest parts hrest →
      motive (line :: flagLine :: rest) (row ⟨line, some flagLine⟩ :: parts) (.header hline hrest))
    (last : ∀ {line} (hline : IsHeaderLine line),
      motive [line] [row ⟨line, none⟩] (.last hline)) : motive lines parts h := by
  induction parts generalizing lines with
  | nil =>
    obtain rfl := h.lines_eq
    exact nil
  | cons part parts ih =>
    have hfits : part.Fits := h.fits part List.mem_cons_self
    have hrest := ih h.tail
    obtain rfl := h.lines_eq
    cases part with
    | skipped line => exact skip hfits h.tail hrest
    | row r =>
      obtain ⟨line, flagLine⟩ := r
      cases flagLine with
      | none =>
        obtain rfl := h.complete [] _ parts rfl rfl
        exact last hfits
      | some flagLine => exact header hfits h.tail hrest

variable {lines : List String} {parts : List ListingPart}

/-! ## What a row spells -/

namespace HeaderRow

/-- The name of the section: the second word. -/
def name? (r : HeaderRow) : Option String := (Text.words r.line)[1]?

/-- The number that the word of the given index spells, the first word being that of index 0. -/
def number? (r : HeaderRow) (index : Nat) : Option UInt64 :=
  (Text.words r.line)[index]?.bind Hex.parse

/-- The header is what the row spells. -/
structure Spells (r : HeaderRow) (h : SectionHeader) : Prop where
  name : r.name? = some h.name
  size : r.number? 2 = some h.size
  vma : r.number? 3 = some h.vma
  lma : r.number? 4 = some h.lma
  fileOffset : r.number? 5 = some h.fileOffset
  flags : h.flags = (r.flagLine.map Text.items).getD []

/-- The line behind a header gives its flags and nothing else. -/
theorem Spells.withFlags {line : String} {h : SectionHeader} (hspells : Spells ⟨line, none⟩ h)
    (flagLine : String) :
    Spells ⟨line, some flagLine⟩ { h with flags := Text.items flagLine } where
  name := hspells.name
  size := hspells.size
  vma := hspells.vma
  lma := hspells.lma
  fileOffset := hspells.fileOffset
  flags := rfl

end HeaderRow

/-! ## How a line is read -/

theorem isHeaderLine_iff {line : String} :
    IsHeaderLine line ↔ ∃ number name size vma lma fileOffset alignment,
      Text.words line = [number, name, size, vma, lma, fileOffset, alignment] ∧
        Text.startsWith "." name = true := by
  constructor
  · rintro ⟨hlength, name, hname, hdot⟩
    match hwords : Text.words line, hlength with
    | [number, name', size, vma, lma, fileOffset, alignment], _ =>
      rw [hwords] at hname
      obtain rfl := Option.some.inj hname
      exact ⟨number, name', size, vma, lma, fileOffset, alignment, rfl, hdot⟩
  · rintro ⟨number, name, size, vma, lma, fileOffset, alignment, hwords, hdot⟩
    rw [IsHeaderLine, hwords]
    exact ⟨rfl, name, rfl, hdot⟩

namespace HeaderLine

theorem read_of_not_isHeaderLine {line : String} (hline : ¬ IsHeaderLine line) :
    read line = .skipped := by
  unfold read
  split
  · next hwords =>
    split
    · next hdot => exact absurd (isHeaderLine_iff.2 ⟨_, _, _, _, _, _, _, hwords, hdot⟩) hline
    · rfl
  · rfl

/-- A header line spells its header, or is malformed. -/
theorem read_of_isHeaderLine {line : String} (hline : IsHeaderLine line) :
    read line = .malformed ∨ ∃ h, read line = .header h ∧ HeaderRow.Spells ⟨line, none⟩ h := by
  obtain ⟨number, name, size, vma, lma, fileOffset, alignment, hwords, hdot⟩ :=
    isHeaderLine_iff.1 hline
  have hread : read line = ofWords name size vma lma fileOffset := by simp [read, hwords, hdot]
  rw [hread]
  unfold ofWords
  split
  · next s v l f hs hv hl hf =>
    refine Or.inr ⟨_, rfl, ?_, ?_, ?_, ?_, ?_, rfl⟩
    · simp [HeaderRow.name?, hwords]
    · simpa [HeaderRow.number?, hwords] using hs
    · simpa [HeaderRow.number?, hwords] using hv
    · simpa [HeaderRow.number?, hwords] using hl
    · simpa [HeaderRow.number?, hwords] using hf
  · exact Or.inl rfl

end HeaderLine

namespace SectionHeader

variable {line flagLine : String} {rest : List String} {h : SectionHeader}

theorem ofLines_skipped (hline : ¬ IsHeaderLine line) : ofLines (line :: rest) = ofLines rest := by
  rw [ofLines, HeaderLine.read_of_not_isHeaderLine hline]

theorem ofLines_malformed (hread : HeaderLine.read line = .malformed) :
    ofLines (line :: rest) = .error (.malformedHeader line) := by
  rw [ofLines, hread]

theorem ofLines_header (hread : HeaderLine.read line = .header h) :
    ofLines (line :: flagLine :: rest) =
      (ofLines rest).map ({ h with flags := Text.items flagLine } :: ·) := by
  rw [ofLines, hread]

theorem ofLines_last (hread : HeaderLine.read line = .header h) : ofLines [line] = .ok [h] := by
  rw [ofLines, hread]

/-- Among lines that are read without a failure, a header line spells its header. -/
theorem spells_of_ofLines (hline : IsHeaderLine line) {headers : List SectionHeader}
    (hheaders : ofLines (line :: rest) = .ok headers) :
    ∃ h, HeaderLine.read line = .header h ∧ HeaderRow.Spells ⟨line, none⟩ h := by
  rcases HeaderLine.read_of_isHeaderLine hline with hread | hread
  · rw [ofLines_malformed hread] at hheaders
    nomatch hheaders
  · exact hread

end SectionHeader

/-- **Every row gives its header.**  The headers of a listing that is read are those that its rows
    spell, one for each row and in their order. -/
theorem IsDivision.spells (h : IsDivision lines parts) {headers : List SectionHeader}
    (hheaders : SectionHeader.ofLines lines = .ok headers) :
    List.Forall₂ HeaderRow.Spells (parts.filterMap ListingPart.row?) headers := by
  induction h using IsDivision.inductionOn generalizing headers with
  | nil =>
    obtain rfl := Except.ok.inj hheaders
    exact .nil
  | skip hline _ ih =>
    rw [SectionHeader.ofLines_skipped hline] at hheaders
    exact ih hheaders
  | @header line flagLine rest parts hline _ ih =>
    obtain ⟨h, hread, hspells⟩ := SectionHeader.spells_of_ofLines hline hheaders
    rw [SectionHeader.ofLines_header hread] at hheaders
    cases hrest : SectionHeader.ofLines rest with
    | error failure =>
      rw [hrest] at hheaders
      nomatch hheaders
    | ok later =>
      rw [hrest] at hheaders
      obtain rfl := Except.ok.inj hheaders
      exact .cons (hspells.withFlags flagLine) (ih hrest)
  | last hline =>
    obtain ⟨h, hread, hspells⟩ := SectionHeader.spells_of_ofLines hline hheaders
    rw [SectionHeader.ofLines_last hread] at hheaders
    obtain rfl := Except.ok.inj hheaders
    exact .cons hspells .nil

/-! ## Rows to load -/

namespace HeaderRow

/-- The section of the row is to be loaded: its size is not zero, and `ALLOC` is an item of the line
    behind it. -/
def IsLoaded (r : HeaderRow) : Prop :=
  (∃ size ∈ r.number? 2, size ≠ 0) ∧ ∃ flagLine ∈ r.flagLine, Text.HasItem "ALLOC" flagLine

instance : DecidablePred IsLoaded := fun _ => inferInstanceAs (Decidable (_ ∧ _))

theorem Spells.isLoaded_iff {r : HeaderRow} {h : SectionHeader} (hspells : r.Spells h) :
    r.IsLoaded ↔ h.isLoadable = true := by
  have hsize : (∃ size ∈ r.number? 2, size ≠ 0) ↔ h.size ≠ 0 := by simp [hspells.size]
  have hflags : (∃ flagLine ∈ r.flagLine, Text.HasItem "ALLOC" flagLine) ↔ "ALLOC" ∈ h.flags := by
    rw [hspells.flags]
    cases r.flagLine with
    | none => simp
    | some flagLine => simp [Text.mem_items_iff]
  rw [IsLoaded, hsize, hflags, SectionHeader.isLoadable, SectionHeader.isAllocated,
    Bool.and_eq_true, bne_iff_ne, List.contains_iff_mem, and_comm]

end HeaderRow

/-- **The sections to load** are those of the rows whose size is not zero and whose flags hold
    `ALLOC`, each at its run-time address. -/
theorem IsDivision.loadable (h : IsDivision lines parts) {headers : List SectionHeader}
    (hheaders : SectionHeader.ofLines lines = .ok headers) :
    List.Forall₂ (fun r s => r.name? = some s.name ∧ r.number? 3 = some s.address)
      ((parts.filterMap ListingPart.row?).filter (·.IsLoaded))
      (SectionHeader.loadable headers) := by
  have hfilter : List.Forall₂ HeaderRow.Spells
      ((parts.filterMap ListingPart.row?).filter (·.IsLoaded))
      (headers.filter SectionHeader.isLoadable) := by
    refine List.rel_filter ?_ (h.spells hheaders)
    intro r header hspells
    exact decide_eq_true_iff.trans hspells.isLoaded_iff
  rw [SectionHeader.loadable, List.forall₂_map_right_iff]
  exact hfilter.imp fun r header hspells => ⟨hspells.name, hspells.vma⟩

end FaultPlan
