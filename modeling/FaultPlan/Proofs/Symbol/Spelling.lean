/-
  What a symbol listing spells.

  A line of the listing is a row of the table or is passed over, and a row spells a symbol
  (`Symbol.isSpelledBy_of_ofRow?`).  The table holds the symbols of all rows, each as often as it is
  listed.  Its order cannot be seen from the symbols alone: at one address the bytes of the whole lines
  decide, so that the table is described together with the lines that it was read from
  (`symbol_table_exact`).
-/
import FaultPlan.Proofs.Symbol.Order
import FaultPlan.Proofs.Text.ByteOrder

namespace FaultPlan

/-- The line is a row of the table: it has three words or more, and the first is an address. -/
def IsSymbolLine (line : String) : Prop :=
  3 ≤ (Text.words line).length ∧ ∃ address, (Text.words line)[0]?.bind Hex.parse = some address

/-- The line spells the symbol: its first word is the address and its last word the name, and its third
    word tells functions and objects from all others. -/
structure Symbol.IsSpelledBy (s : Symbol) (line : String) : Prop where
  address : (Text.words line)[0]?.bind Hex.parse = some s.address
  function : s.kind = .function ↔ (Text.words line)[2]? = some "F"
  object : s.kind = .object ↔ (Text.words line)[2]? = some "O"
  name : (Text.words line).getLast? = some s.name

variable {line : String} {s : Symbol}

theorem SymbolKind.ofColumn_eq_function_iff {word : String} :
    ofColumn word = .function ↔ word = "F" := by
  unfold ofColumn
  split
  · next hF => simp [hF]
  · next hF => split <;> simp [hF]

theorem SymbolKind.ofColumn_eq_object_iff {word : String} :
    ofColumn word = .object ↔ word = "O" := by
  unfold ofColumn
  split
  · next hF => simp [hF]
  · split
    · next hO => simp [hO]
    · next hO => simp [hO]

/-- A row spells the symbol that is read from it. -/
theorem Symbol.isSpelledBy_of_ofRow? (h : ofRow? line = some s) : s.IsSpelledBy line := by
  unfold ofRow? at h
  split at h
  · next first second column more hwords =>
    obtain ⟨address, haddress, rfl⟩ := Option.map_eq_some_iff.1 h
    refine ⟨?_, ?_, ?_, ?_⟩
    · simp [hwords, haddress]
    · simp [hwords, SymbolKind.ofColumn_eq_function_iff]
    · simp [hwords, SymbolKind.ofColumn_eq_object_iff]
    · simp [hwords, List.getLast?_eq_some_getLast]
  · nomatch h

/-- A symbol is read from the rows and from no other line. -/
theorem Symbol.exists_ofRow?_iff : (∃ s, ofRow? line = some s) ↔ IsSymbolLine line := by
  unfold ofRow? IsSymbolLine
  match Text.words line with
  | first :: second :: column :: more =>
    simp only [Option.map_eq_some_iff]
    constructor
    · rintro ⟨s, address, haddress, -⟩
      exact ⟨by simp, address, haddress⟩
    · rintro ⟨-, address, haddress⟩
      exact ⟨_, address, haddress, rfl⟩
  | [] | [first] | [first, second] => simp

instance (line : String) : Decidable (IsSymbolLine line) :=
  decidable_of_iff ((Symbol.ofRow? line).isSome = true)
    (Option.isSome_iff_exists.trans Symbol.exists_ofRow?_iff)

/-- The rows are read from the lines that are rows, one from each. -/
theorem map_line_filterMap_ofLine? (lines : List String) :
    (lines.filterMap SymbolRow.ofLine?).map (·.line) = lines.filter IsSymbolLine := by
  induction lines with
  | nil => rfl
  | cons line lines ih =>
    cases hrow : Symbol.ofRow? line with
    | none =>
      have hline : ¬ IsSymbolLine line := by
        rw [← Symbol.exists_ofRow?_iff]
        simp [hrow]
      rw [List.filterMap_cons_none (by simp [SymbolRow.ofLine?, hrow]), ih,
        List.filter_cons_of_neg (by simpa using hline)]
    | some s =>
      have hline : IsSymbolLine line := Symbol.exists_ofRow?_iff.1 ⟨s, hrow⟩
      have hread : SymbolRow.ofLine? line = some ⟨s, line⟩ := by simp [SymbolRow.ofLine?, hrow]
      rw [List.filterMap_cons_some hread, List.map_cons, ih,
        List.filter_cons_of_pos (by simpa using hline)]

/-- **Nothing is lost and nothing is made up.**  Behind the table of a listing stand its rows: exactly
    the lines that have three words or more and an address as the first, each as often as it is listed.
    The table has the symbol that each of them spells.  They are sorted by address, and at one address by
    the bytes of the whole lines. -/
theorem symbol_table_exact (listing : String) :
    ∃ rows : List SymbolRow,
      (rows.map (·.line)).Perm ((Text.lines listing).filter IsSymbolLine) ∧
      (∀ r ∈ rows, r.symbol.IsSpelledBy r.line) ∧
      rows.Pairwise (fun a b => a.symbol.address < b.symbol.address ∨
        (a.symbol.address = b.symbol.address ∧ Utf8.encode a.line ≤ Utf8.encode b.line)) ∧
      symbolTable listing = rows.map (·.symbol) := by
  refine ⟨symbolRows listing, ?_, ?_, ?_, rfl⟩
  · rw [← map_line_filterMap_ofLine?]
    exact (perm_symbolRows listing).map _
  · intro r hr
    exact Symbol.isSpelledBy_of_ofRow? (genuine_of_mem_symbolRows hr)
  · refine (pairwise_symbolRows listing).imp fun hab => ?_
    rw [Utf8.encode_le_iff]
    exact SymbolRow.notAfter_iff.1 hab

end FaultPlan
