/-
  Which rows of a symbol listing give the start and the halts of its survey.

  The survey goes through the table and lets the last symbol with the start symbol's name be the
  start.  Said of the listing, whose rows come in any order, the start is the greatest address among
  the rows of that name: the table is sorted, so that its last one is its greatest
  (`startAddress?_eq_some`).  The halts are the rows with the name of a halt, sorted and with nothing
  lost or doubled (`haltPoints_symbolTable`).  A survey fails exactly if one of the two is missing, and
  for want of a start if both are.
-/
import FaultPlan.Proofs.Symbol.Survey

namespace FaultPlan

/-- The rows of a symbol listing as they are listed. -/
def listedRows (listing : String) : List SymbolRow :=
  (Text.lines listing).filterMap SymbolRow.ofLine?

theorem mem_symbolTable_iff {listing : String} {s : Symbol} :
    s ∈ symbolTable listing ↔ ∃ r ∈ listedRows listing, r.symbol = s := by
  rw [symbolTable, List.mem_map]
  exact exists_congr fun r => and_congr_left fun _ => (perm_symbolRows listing).mem_iff

namespace Survey

variable {o : Options} {endOfFlash : UInt64} {symbols : List Symbol} {text : String}

/-! ## Failures -/

theorem startAddress?_eq_none_iff :
    startAddress? o symbols = none ↔ ∀ s ∈ symbols, s.name ≠ o.start := by
  simp [startAddress?]

/-- A survey misses the start exactly if no symbol has its name. -/
theorem ofSymbols_eq_missingStart_iff :
    ofSymbols o endOfFlash symbols = .error (.missingStart o.start) ↔
      startAddress? o symbols = none := by
  rw [ofSymbols_eq]
  unfold ofPass
  dsimp only
  split
  · next hnone => simp [hnone]
  · next hsome hnil => simp [hsome]
  · next hsome hhalts => simp [hsome]

/-- A survey misses the halts exactly if it has a start and no halt. -/
theorem ofSymbols_eq_missingHalt_iff :
    ofSymbols o endOfFlash symbols = .error (.missingHalt o.halts) ↔
      startAddress? o symbols ≠ none ∧ haltPoints o symbols = [] := by
  rw [ofSymbols_eq]
  unfold ofPass
  dsimp only
  split
  · next hnone => simp [hnone]
  · next hsome hnil => simp [hsome, hnil]
  · next hsome hhalts => simpa [hsome] using hhalts

theorem exists_ofSymbols_eq_ok_iff :
    (∃ survey, ofSymbols o endOfFlash symbols = .ok survey) ↔
      startAddress? o symbols ≠ none ∧ haltPoints o symbols ≠ [] := by
  constructor
  · rintro ⟨survey, h⟩
    obtain ⟨hstart, hhalts, hne, -⟩ := ofSymbols_eq_ok_iff.1 h
    exact ⟨by simp [hstart], hhalts ▸ hne⟩
  · rintro ⟨hstart, hhalts⟩
    obtain ⟨start, hsome⟩ := Option.ne_none_iff_exists'.1 hstart
    exact ⟨⟨start, haltPoints o symbols, spans o endOfFlash none symbols⟩,
      ofSymbols_eq_ok_iff.2 ⟨hsome, rfl, hhalts, rfl⟩⟩

/-! ## Findings -/

/-- **The last is the greatest.**  Among sorted symbols the start is at the greatest address that
    bears the start symbol's name. -/
theorem startAddress?_eq_some (hsorted : symbols.Pairwise (fun a b => a.address ≤ b.address))
    {start : UInt64} (h : startAddress? o symbols = some start) :
    (∃ s ∈ symbols, s.name = o.start ∧ s.address = start) ∧
      ∀ s ∈ symbols, s.name = o.start → s.address ≤ start := by
  obtain ⟨last, hlast, rfl⟩ := Option.map_eq_some_iff.1 h
  obtain ⟨front, hfront⟩ := List.getLast?_eq_some_iff.1 hlast
  have hnamed : ∀ s, s ∈ front ++ [last] ↔ s ∈ symbols ∧ s.name = o.start := by
    intro s
    rw [← hfront]
    simp
  have hpair : (front ++ [last]).Pairwise (fun a b => a.address ≤ b.address) :=
    hfront ▸ hsorted.filter _
  constructor
  · obtain ⟨hmem, hname⟩ := (hnamed last).1 (by simp)
    exact ⟨last, hmem, hname, rfl⟩
  · intro s hs hname
    rcases List.mem_append.1 ((hnamed s).2 ⟨hs, hname⟩) with hs | hs
    · exact (List.pairwise_append.1 hpair).2.2 s hs last List.mem_cons_self
    · obtain rfl := List.mem_singleton.1 hs
      exact UInt64.le_refl _

/-- The halts of a listing are its halt rows in the order of the table. -/
theorem haltPoints_symbolTable (o : Options) (listing : String) :
    ∃ sorted : List SymbolRow,
      sorted.Perm ((listedRows listing).filter
        fun r => r.symbol.name ∈ o.halts ∧ r.symbol.name ≠ o.start) ∧
      sorted.Pairwise (fun a b => a.notAfter b = true) ∧
      haltPoints o (symbolTable listing) =
        sorted.map fun r => ⟨r.symbol.name, r.symbol.address⟩ := by
  have hhalt : (fun s => isHaltSymbol o s) ∘ SymbolRow.symbol =
      fun r => decide (r.symbol.name ∈ o.halts ∧ r.symbol.name ≠ o.start) := by
    funext r
    rw [Bool.eq_iff_iff, decide_eq_true_iff]
    exact isHaltSymbol_iff
  refine ⟨(symbolRows listing).filter _, (perm_symbolRows listing).filter _,
    (pairwise_symbolRows listing).filter _, ?_⟩
  rw [haltPoints, symbolTable, List.filter_map, List.map_map, ← hhalt]
  rfl

/-- **What a survey finds in a listing.**  It fails for want of the start exactly if no row has the
    start symbol's name; else for want of a halt exactly if no row has the name of a halt, other
    than the start symbol's.  Otherwise it succeeds, and its start is the greatest address of the rows
    with the start symbol's name; its halts are all rows with a halt's name, each as often as it is
    listed, by address and then by the text of the row. -/
theorem survey_finds_start_and_halts (o : Options) (endOfFlash : UInt64) (text : String) :
    let found := ofSymbols o endOfFlash (symbolTable text)
    let starts := (listedRows text).filter fun r => r.symbol.name = o.start
    let halts := (listedRows text).filter
      fun r => r.symbol.name ∈ o.halts ∧ r.symbol.name ≠ o.start
    (found = .error (.missingStart o.start) ↔ starts = []) ∧
    (found = .error (.missingHalt o.halts) ↔ starts ≠ [] ∧ halts = []) ∧
    ((∃ survey, found = .ok survey) ↔ starts ≠ [] ∧ halts ≠ []) ∧
    ∀ survey, found = .ok survey →
      (∃ r ∈ starts, r.symbol.address = survey.start) ∧
      (∀ r ∈ starts, r.symbol.address ≤ survey.start) ∧
      ∃ sorted : List SymbolRow, sorted.Perm halts ∧
        sorted.Pairwise (fun a b => a.symbol.address < b.symbol.address ∨
          (a.symbol.address = b.symbol.address ∧ a.line ≤ b.line)) ∧
        survey.halts = sorted.map fun r => ⟨r.symbol.name, r.symbol.address⟩ := by
  intro found starts halts
  have hstarts : startAddress? o (symbolTable text) = none ↔ starts = [] := by
    rw [startAddress?_eq_none_iff, List.filter_eq_nil_iff]
    simp [mem_symbolTable_iff]
  obtain ⟨sorted, hperm, hsorted, hpoints⟩ := haltPoints_symbolTable o text
  have hhalts : haltPoints o (symbolTable text) = [] ↔ halts = [] := by
    rw [hpoints, List.map_eq_nil_iff, ← List.length_eq_zero_iff, hperm.length_eq,
      List.length_eq_zero_iff]
  refine ⟨?_, ?_, ?_, ?_⟩
  · rw [← hstarts]
    exact ofSymbols_eq_missingStart_iff
  · rw [ne_eq, ← hstarts, ← hhalts]
    exact ofSymbols_eq_missingHalt_iff
  · rw [ne_eq, ne_eq, ← hstarts, ← hhalts]
    exact exists_ofSymbols_eq_ok_iff
  · intro survey h
    obtain ⟨hstart, hsurvey, -, -⟩ := ofSymbols_eq_ok_iff.1 h
    obtain ⟨hlisted, hgreatest⟩ := startAddress?_eq_some (pairwise_symbolTable text) hstart
    refine ⟨?_, ?_, sorted, hperm, ?_, ?_⟩
    · obtain ⟨s, hs, hname, haddress⟩ := hlisted
      obtain ⟨r, hr, rfl⟩ := mem_symbolTable_iff.1 hs
      exact ⟨r, List.mem_filter.2 ⟨hr, by simpa using hname⟩, haddress⟩
    · intro r hr
      obtain ⟨hr, hname⟩ := List.mem_filter.1 hr
      exact hgreatest _ (mem_symbolTable_iff.2 ⟨r, hr, rfl⟩) (by simpa using hname)
    · exact hsorted.imp SymbolRow.notAfter_iff.1
    · exact hsurvey.symm.trans hpoints

/-- The start symbol is listed twice, and is named as a halt as well; a halt is listed twice at one
    address, with the greater line first. -/
theorem survey_finds_start_and_halts_listed_twice :
    let o := (Options.new "main").withHalts ["win", "main"]
    let text := "30 l F main\n20 l F win\n20 g F win\n10 g F main\n"
    ∃ survey, ofSymbols o 0x100 (symbolTable text) = .ok survey ∧ survey.start = 0x30 ∧
      survey.halts = [⟨"win", 0x20⟩, ⟨"win", 0x20⟩] ∧
      ∀ r ∈ listedRows text, r.symbol.name = "main" → r.symbol.address ≤ survey.start := by
  intro o text
  have h : ofSymbols o 0x100 (symbolTable text) =
      .ok ⟨0x30, [⟨"win", 0x20⟩, ⟨"win", 0x20⟩], []⟩ :=
    ofSymbols_eq_ok_iff.2 ⟨by decide, by decide, by decide, by decide⟩
  obtain ⟨-, -, -, hfound⟩ := survey_finds_start_and_halts o 0x100 text
  obtain ⟨-, hgreatest, -⟩ := hfound _ h
  refine ⟨_, h, rfl, rfl, ?_⟩
  intro r hr hname
  exact hgreatest r (List.mem_filter.2 ⟨hr, decide_eq_true hname⟩)

end Survey
end FaultPlan
