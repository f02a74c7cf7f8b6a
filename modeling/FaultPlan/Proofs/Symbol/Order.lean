/-
  The order of the symbol table.

  `SymbolRow.notAfter` compares addresses first and the text of the lines second.  It is total and
  transitive, so inserting the rows one by one leaves them sorted (`pairwise_symbolRows`), and the
  symbols of the table never go down in address (`pairwise_symbolTable`).  Nothing is lost in the
  insertions (`perm_symbolRows`).  On the rows of a listing the order is also antisymmetric, because
  a line says all about its symbol (`SymbolRow.eq_of_notAfter`).
-/
import FaultPlan.Symbol.Table

namespace FaultPlan

namespace SymbolRow

/-- The order in words: a lower address, or the same address and a line that is not greater. -/
theorem notAfter_iff {a b : SymbolRow} :
    a.notAfter b = true ↔ a.symbol.address < b.symbol.address ∨
      (a.symbol.address = b.symbol.address ∧ a.line ≤ b.line) := by
  simp [notAfter]

theorem notAfter_total (a b : SymbolRow) : a.notAfter b = true ∨ b.notAfter a = true := by
  simp only [notAfter_iff]
  by_cases h : a.symbol.address = b.symbol.address
  · rcases String.le_total a.line b.line with hline | hline
    · exact Or.inl (Or.inr ⟨h, hline⟩)
    · exact Or.inr (Or.inr ⟨h.symm, hline⟩)
  · rcases UInt64.lt_or_lt_of_ne h with h | h
    · exact Or.inl (Or.inl h)
    · exact Or.inr (Or.inl h)

theorem notAfter_trans {a b c : SymbolRow} (hab : a.notAfter b = true)
    (hbc : b.notAfter c = true) : a.notAfter c = true := by
  rw [notAfter_iff] at hab hbc ⊢
  rcases hab with hab | ⟨hab, hline⟩
  · rcases hbc with hbc | ⟨hbc, -⟩
    · exact Or.inl (UInt64.lt_trans hab hbc)
    · exact Or.inl (hbc ▸ hab)
  · rcases hbc with hbc | ⟨hbc, hline'⟩
    · exact Or.inl (hab ▸ hbc)
    · exact Or.inr ⟨hab.trans hbc, String.le_trans hline hline'⟩

/-- The row is what its line says. -/
def Genuine (r : SymbolRow) : Prop := Symbol.ofRow? r.line = some r.symbol

theorem genuine_of_ofLine? {line : String} {r : SymbolRow} (h : ofLine? line = some r) :
    r.Genuine := by
  obtain ⟨s, hs, rfl⟩ := Option.map_eq_some_iff.1 h
  exact hs

/-- Rows that may stand either way round are the same row, however their addresses are spelled:
    neither address is lower, so that the lines are equal, and with them the symbols. -/
theorem eq_of_notAfter {a b : SymbolRow} (ha : a.Genuine) (hb : b.Genuine)
    (hab : a.notAfter b = true) (hba : b.notAfter a = true) : a = b := by
  have hline : a.line = b.line := by
    rcases notAfter_iff.1 hab with hlt | ⟨haddress, hle⟩
    · rcases notAfter_iff.1 hba with hgt | ⟨heq, -⟩
      · exact absurd (UInt64.lt_trans hlt hgt) (UInt64.lt_irrefl _)
      · exact absurd hlt (heq ▸ UInt64.lt_irrefl _)
    · rcases notAfter_iff.1 hba with hgt | ⟨-, hge⟩
      · exact absurd hgt (haddress ▸ UInt64.lt_irrefl _)
      · exact String.le_antisymm hle hge
  have hsymbol : a.symbol = b.symbol := by
    rw [Genuine, hline, show Symbol.ofRow? b.line = some b.symbol from hb] at ha
    exact (Option.some.inj ha).symm
  obtain ⟨symbol, line⟩ := a
  exact congr (congrArg SymbolRow.mk hsymbol) hline

theorem address_le_of_notAfter {a b : SymbolRow} (h : a.notAfter b = true) :
    a.symbol.address ≤ b.symbol.address := by
  rcases notAfter_iff.1 h with h | ⟨h, -⟩
  · exact UInt64.le_of_lt h
  · exact UInt64.le_of_eq h

end SymbolRow

/-! ## Sorting by insertion -/

theorem mem_insertRow {r x : SymbolRow} :
    ∀ {rows : List SymbolRow}, x ∈ insertRow r rows ↔ x = r ∨ x ∈ rows
  | [] => by simp [insertRow]
  | y :: rows => by
    simp only [insertRow]
    split
    · exact List.mem_cons
    · simp only [List.mem_cons, @mem_insertRow r x rows]
      exact or_left_comm

/-- Insertion adds the row and loses none. -/
theorem perm_insertRow {r : SymbolRow} :
    ∀ {rows : List SymbolRow}, (insertRow r rows).Perm (r :: rows)
  | [] => .refl _
  | y :: rows => by
    simp only [insertRow]
    split
    · exact .refl _
    · exact (perm_insertRow.cons y).trans (.swap r y rows)

/-- Insertion keeps the order: what stands before the new row may precede it, because the row was
    not put in front of it. -/
theorem pairwise_insertRow {r : SymbolRow} : ∀ {rows : List SymbolRow},
    rows.Pairwise (fun a b => a.notAfter b = true) →
      (insertRow r rows).Pairwise (fun a b => a.notAfter b = true)
  | [], _ => List.pairwise_singleton _ _
  | y :: rows, h => by
    obtain ⟨hy, hrows⟩ := List.pairwise_cons.1 h
    simp only [insertRow]
    split
    · next hr =>
      refine List.pairwise_cons.2 ⟨fun x hx => ?_, h⟩
      rcases List.mem_cons.1 hx with rfl | hx
      · exact hr
      · exact SymbolRow.notAfter_trans hr (hy x hx)
    · next hr =>
      have hyr : y.notAfter r = true := (SymbolRow.notAfter_total r y).resolve_left hr
      refine List.pairwise_cons.2 ⟨fun x hx => ?_, pairwise_insertRow hrows⟩
      rcases mem_insertRow.1 hx with rfl | hx
      · exact hyr
      · exact hy x hx

/-- The rows of a listing stand in the order of the table. -/
theorem pairwise_symbolRows (listing : String) :
    (symbolRows listing).Pairwise (fun a b => a.notAfter b = true) := by
  unfold symbolRows
  induction (Text.lines listing).filterMap SymbolRow.ofLine? with
  | nil => exact List.Pairwise.nil
  | cons r rows ih => exact pairwise_insertRow ih

/-- The rows of a table are those that its lines spell, each as often as it is spelled. -/
theorem perm_symbolRows (listing : String) :
    (symbolRows listing).Perm ((Text.lines listing).filterMap SymbolRow.ofLine?) := by
  unfold symbolRows
  induction (Text.lines listing).filterMap SymbolRow.ofLine? with
  | nil => exact .nil
  | cons r rows ih => exact perm_insertRow.trans (ih.cons r)

theorem genuine_of_mem_symbolRows {listing : String} {r : SymbolRow}
    (h : r ∈ symbolRows listing) : r.Genuine := by
  obtain ⟨line, -, hline⟩ := List.mem_filterMap.1 ((perm_symbolRows listing).mem_iff.1 h)
  exact SymbolRow.genuine_of_ofLine? hline

/-- Symbols that are later in the table do not have lower addresses. -/
theorem pairwise_symbolTable (listing : String) :
    (symbolTable listing).Pairwise (fun a b => a.address ≤ b.address) :=
  List.pairwise_map.2 ((pairwise_symbolRows listing).imp SymbolRow.address_le_of_notAfter)

end FaultPlan
