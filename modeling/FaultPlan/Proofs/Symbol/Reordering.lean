/-
  The order of a symbol listing does not matter, and neither do the lines that say nothing.

  A symbol matters when it could be the start or a halt, open a span or end one (`matters`).  The scan
  passes over all others, so a survey sees only those that matter (`ofSymbols_filter_matters`).  Which
  symbols these are, and in what order the table has them, is settled by the lines as a multiset:
  the order of the table leaves no choice among the rows of a listing (`filter_symbolRows_eq`), although
  the scan itself depends on it wherever symbols share an address.
-/
import FaultPlan.Proofs.Symbol.Survey
import FaultPlan.Proofs.Text.Lines

namespace FaultPlan

/-- Listings that spell the same rows, as far as these satisfy `p`, have tables that agree as far:
    both hold these rows sorted, and rows that may stand either way round are equal. -/
theorem filter_symbolRows_eq (p : SymbolRow → Bool) {listing listing' : String}
    (h : (((Text.lines listing).filterMap SymbolRow.ofLine?).filter p).Perm
      (((Text.lines listing').filterMap SymbolRow.ofLine?).filter p)) :
    (symbolRows listing).filter p = (symbolRows listing').filter p := by
  have hperm : ((symbolRows listing).filter p).Perm ((symbolRows listing').filter p) :=
    ((perm_symbolRows listing).filter p).trans
      (h.trans ((perm_symbolRows listing').filter p).symm)
  refine hperm.eq_of_pairwise ?_ ((pairwise_symbolRows listing).filter p)
    ((pairwise_symbolRows listing').filter p)
  intro a b ha hb hab hba
  have ha' : a.Genuine := genuine_of_mem_symbolRows (List.mem_filter.1 ha).1
  have hb' : b.Genuine := genuine_of_mem_symbolRows (List.mem_filter.1 hb).1
  exact SymbolRow.eq_of_notAfter ha' hb' hab hba

namespace Survey

variable {o : Options} {endOfFlash : UInt64}

/-! ## Symbols that matter -/

/-- Tells whether a survey takes notice of the symbol: it is a function or an object, or has one of
    the names that the options give. -/
def matters (o : Options) (s : Symbol) : Bool :=
  s.kind != .other || s.name == o.start || o.isHalt s.name || o.isIgnored s.name

theorem matters_eq_false_iff {s : Symbol} : matters o s = false ↔
    s.kind = .other ∧ s.name ≠ o.start ∧ s.name ∉ o.halts ∧ s.name ∉ o.ignores.names := by
  rw [← Bool.not_eq_true]
  simp only [matters, Bool.or_eq_true, bne_iff_ne, beq_iff_eq, Options.isHalt_iff,
    Options.isIgnored_iff, not_or, ne_eq, Decidable.not_not, and_assoc]

theorem not_opens_of_not_matters {s : Symbol} (h : matters o s = false) : opens o s = false := by
  obtain ⟨hkind, -, -, hignored⟩ := matters_eq_false_iff.1 h
  refine Bool.eq_false_iff.2 fun hopens => ?_
  obtain ⟨-, -, hobject | hname⟩ := opens_iff.1 hopens
  · rw [hkind] at hobject
    nomatch hobject
  · exact hignored hname

theorem not_closes_of_not_matters {s : Symbol} (h : matters o s = false) :
    closes o s = false := by
  refine Bool.eq_false_iff.2 fun hcloses => ?_
  have hkind := (closes_iff.1 hcloses).1
  rw [(matters_eq_false_iff.1 h).1] at hkind
  nomatch hkind

theorem startAddress?_filter_matters (symbols : List Symbol) :
    startAddress? o (symbols.filter (matters o)) = startAddress? o symbols := by
  unfold startAddress?
  rw [List.filter_filter]
  congr 2
  refine List.filter_congr fun s _ => ?_
  by_cases hname : s.name = o.start
  · simp [matters, hname]
  · simp [hname]

theorem haltPoints_filter_matters (symbols : List Symbol) :
    haltPoints o (symbols.filter (matters o)) = haltPoints o symbols := by
  unfold haltPoints
  rw [List.filter_filter]
  congr 1
  refine List.filter_congr fun s _ => ?_
  cases hhalt : o.isHalt s.name with
  | true => simp [matters, isHaltSymbol, hhalt]
  | false => simp [isHaltSymbol, hhalt]

/-- The scan passes over symbols that do not matter: they give no range and leave the span as it
    is. -/
theorem spans_filter_matters (symbols : List Symbol) : ∀ span : Option UInt64,
    spans o endOfFlash span (symbols.filter (matters o)) = spans o endOfFlash span symbols := by
  induction symbols with
  | nil =>
    intro span
    rfl
  | cons s rest ih =>
    intro span
    cases hmatters : matters o s with
    | true =>
      rw [List.filter_cons_of_pos hmatters, spans, spans, ih]
    | false =>
      have hcloses : closes o s = false := not_closes_of_not_matters hmatters
      have hclosed : closedAt o endOfFlash span s = none := by
        cases span with
        | none => rfl
        | some lower => simp [closedAt, hcloses]
      have hafter : openAfter o s span = span := by
        rw [openAfter_of_not_opens (not_opens_of_not_matters hmatters), hcloses]
        simp
      rw [List.filter_cons_of_neg (Bool.eq_false_iff.1 hmatters), ih, spans, hclosed, hafter]
      rfl

/-- **A survey sees only symbols that matter.** -/
theorem ofSymbols_filter_matters (symbols : List Symbol) :
    ofSymbols o endOfFlash (symbols.filter (matters o)) = ofSymbols o endOfFlash symbols := by
  simp only [ofSymbols_eq, startAddress?_filter_matters, haltPoints_filter_matters,
    spans_filter_matters]

/-! ## Lines that matter -/

/-- The line is no row of the table, or the row of a symbol that a survey passes over: of another
    kind than functions and objects, and with none of the names that the options give. -/
def Irrelevant (o : Options) (line : String) : Prop :=
  ∀ s, Symbol.ofRow? line = some s →
    s.kind = .other ∧ s.name ≠ o.start ∧ s.name ∉ o.halts ∧ s.name ∉ o.ignores.names

instance (o : Options) (line : String) : Decidable (Irrelevant o line) :=
  decidable_of_iff (∀ s ∈ Symbol.ofRow? line, matters o s = false)
    (forall_congr' fun _ => imp_congr Iff.rfl matters_eq_false_iff)

/-- The rows that matter among some lines. -/
def rowsThatMatter (o : Options) (lines : List String) : List SymbolRow :=
  (lines.filterMap SymbolRow.ofLine?).filter fun r => matters o r.symbol

theorem rowsThatMatter_eq_nil {lines : List String} (h : ∀ l ∈ lines, Irrelevant o l) :
    rowsThatMatter o lines = [] := by
  refine List.filter_eq_nil_iff.2 fun r hr => ?_
  obtain ⟨line, hline, hrow⟩ := List.mem_filterMap.1 hr
  obtain ⟨s, hs, rfl⟩ := Option.map_eq_some_iff.1 hrow
  exact Bool.eq_false_iff.1 (matters_eq_false_iff.2 (h line hline s hs))

theorem rowsThatMatter_append (lines lines' : List String) :
    rowsThatMatter o (lines ++ lines') = rowsThatMatter o lines ++ rowsThatMatter o lines' := by
  simp only [rowsThatMatter, List.filterMap_append, List.filter_append]

/-- The rows that matter are on lines that are not irrelevant. -/
theorem rowsThatMatter_filter (lines : List String) :
    rowsThatMatter o (lines.filter fun l => ¬ Irrelevant o l) = rowsThatMatter o lines := by
  induction lines with
  | nil => rfl
  | cons line rest ih =>
    have hcons : ∀ ls, rowsThatMatter o (line :: ls) =
        rowsThatMatter o [line] ++ rowsThatMatter o ls := rowsThatMatter_append [line]
    by_cases h : Irrelevant o line
    · have hnil : rowsThatMatter o [line] = [] := rowsThatMatter_eq_nil (by simpa using h)
      rw [List.filter_cons_of_neg (by simpa using h), ih, hcons, hnil, List.nil_append]
    · rw [List.filter_cons_of_pos (by simpa using h), hcons, ih, ← hcons]

/-- **The rows that matter decide**, in whatever order they are listed. -/
theorem ofSymbols_eq_of_perm {lines lines' : List String} (hl : ∀ l ∈ lines, Text.IsLine l)
    (hl' : ∀ l ∈ lines', Text.IsLine l)
    (h : (rowsThatMatter o lines).Perm (rowsThatMatter o lines')) :
    ofSymbols o endOfFlash (symbolTable (Text.unlines lines)) =
      ofSymbols o endOfFlash (symbolTable (Text.unlines lines')) := by
  have hspelled : (((Text.lines (Text.unlines lines)).filterMap SymbolRow.ofLine?).filter
      fun r => matters o r.symbol).Perm (((Text.lines (Text.unlines lines')).filterMap
        SymbolRow.ofLine?).filter fun r => matters o r.symbol) := by
    rwa [Text.lines_unlines hl, Text.lines_unlines hl']
  have hrows := filter_symbolRows_eq (fun r => matters o r.symbol) hspelled
  have htable : (symbolTable (Text.unlines lines)).filter (matters o) =
      (symbolTable (Text.unlines lines')).filter (matters o) := by
    simp only [symbolTable, List.filter_map]
    exact congrArg _ hrows
  rw [← ofSymbols_filter_matters, htable, ofSymbols_filter_matters]

/-- **A survey does not depend on the order of the listing**, nor on irrelevant lines.  The lines of
    a symbol listing may be put into any order, and lines that are no rows, or rows of symbols
    without interest, may be put in or taken out anywhere: the survey stays what it is, its halts and
    ignore ranges in their order, and so does the failure if there is one. -/
theorem survey_unchanged_by_reordering (o : Options) (endOfFlash : UInt64) :
    (∀ lines lines' : List String, (∀ l ∈ lines, Text.IsLine l) → lines.Perm lines' →
      ofSymbols o endOfFlash (symbolTable (Text.unlines lines)) =
        ofSymbols o endOfFlash (symbolTable (Text.unlines lines'))) ∧
    ∀ lines lines' : List String, (∀ l ∈ lines, Text.IsLine l) → (∀ l ∈ lines', Text.IsLine l) →
      lines.filter (fun l => ¬ Irrelevant o l) = lines'.filter (fun l => ¬ Irrelevant o l) →
      ofSymbols o endOfFlash (symbolTable (Text.unlines lines)) =
        ofSymbols o endOfFlash (symbolTable (Text.unlines lines')) := by
  constructor
  · intro lines lines' hl hperm
    have hl' : ∀ l ∈ lines', Text.IsLine l := fun l h => hl l (hperm.mem_iff.2 h)
    exact ofSymbols_eq_of_perm hl hl' ((hperm.filterMap _).filter _)
  · intro lines lines' hl hl' hfilter
    refine ofSymbols_eq_of_perm hl hl' (List.Perm.of_eq ?_)
    rw [← rowsThatMatter_filter lines, hfilter, rowsThatMatter_filter]

/-- A function and an object at one address, spelled in two ways: the line of the function is the
    lesser one, so the object opens its span behind it wherever the two are listed. -/
theorem survey_unchanged_by_reordering_at_one_address :
    let o := (Options.new "main").withHalt "win"
    let rows := ["0x20 g O key", "10 g F main", "0020 g F win"]
    let sorted := ["10 g F main", "0020 g F win", "0x20 g O key"]
    let headed := ["SYMBOL TABLE:", "20 l d .text"] ++ rows
    (∀ l ∈ headed, Text.IsLine l) ∧ rows.Perm sorted ∧
      (∀ l ∈ ["SYMBOL TABLE:", "20 l d .text"], Irrelevant o l) ∧
      ofSymbols o 0x100 (symbolTable (Text.unlines headed)) =
        .ok ⟨0x10, [⟨"win", 0x20⟩], [⟨0x20, 0x100⟩]⟩ := by
  intro o rows sorted headed
  have hl : ∀ l ∈ headed, Text.IsLine l := by decide
  have hperm : rows.Perm sorted := by decide
  have hextra : ∀ l ∈ ["SYMBOL TABLE:", "20 l d .text"], Irrelevant o l := by decide
  have hsorted : ofSymbols o 0x100 (symbolTable (Text.unlines sorted)) =
      .ok ⟨0x10, [⟨"win", 0x20⟩], [⟨0x20, 0x100⟩]⟩ :=
    ofSymbols_eq_ok_iff.2 ⟨by decide, by decide, by decide, by decide⟩
  have hlrows : ∀ l ∈ rows, Text.IsLine l := fun l h => hl l (List.mem_append_right _ h)
  have hrows := (survey_unchanged_by_reordering o 0x100).1 rows sorted hlrows hperm
  have hheaded := (survey_unchanged_by_reordering o 0x100).2 headed rows hl hlrows (by decide)
  exact ⟨hl, hperm, hextra, hheaded.trans (hrows.trans hsorted)⟩

end Survey
end FaultPlan
