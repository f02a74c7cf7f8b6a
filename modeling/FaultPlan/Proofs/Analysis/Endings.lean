/-
  What ends the lines of the listings does not matter.

  Three of the four readers go through their listing line by line, and the fourth looks at one line
  only, so that each reads in a listing with carriage returns what it reads in the listing without.
  Nothing that an analysis takes over spans the end of a line, and so the two analyses are the same
  in every respect: the listings asked for, the findings, and the failure down to the line that it
  quotes.
-/
import FaultPlan.Proofs.Analysis.Stages
import FaultPlan.Proofs.Text.Endings

namespace FaultPlan

open Text (withReturns)

variable {s : String}

/-! ## The readers -/

theorem Isa.classify_withReturns (s : String) : classify (withReturns s) = classify s := by
  have hname : cpuName? (withReturns s) = cpuName? s := by
    rw [cpuName?, cpuName?, withReturns, String.toList_ofList,
      Text.afterFirst?_returned (by decide) (by decide) (by decide), Option.map_map]
    congr 1
    funext rest
    simp only [Function.comp_apply, Text.takeWhile_returned]
  rw [classify, classify, hname]

theorem Layout.ofMap_withReturns (h : '\r' ∉ s.toList) : ofMap (withReturns s) = ofMap s := by
  have hregions : Regions.ofMap (withReturns s) = Regions.ofMap s := by
    rw [Regions.ofMap, Regions.ofMap, Text.lines_withReturns h]
  rw [ofMap, ofMap, hregions]

theorem symbolTable_withReturns (h : '\r' ∉ s.toList) :
    symbolTable (withReturns s) = symbolTable s := by
  rw [symbolTable, symbolTable, symbolRows, symbolRows, Text.lines_withReturns h]

theorem SectionHeader.ofListing_withReturns (h : '\r' ∉ s.toList) :
    ofListing (withReturns s) = ofListing s := by
  rw [ofListing, ofListing, Text.lines_withReturns h]

/-! ## The whole analysis -/

namespace Source

/-- The source with carriage returns in the chosen listings. -/
def withReturns (source : Source) (chosen : Listing → Bool) : Source where
  answer listing :=
    ⟨source.starts listing,
      if chosen listing then (source listing).map Text.withReturns else source listing⟩

/-- No listing of the source holds a carriage return. -/
def NoReturns (source : Source) : Prop :=
  ∀ listing text, source listing = .ok text → '\r' ∉ text.toList

theorem noReturns_ofTexts {attributes map symbols headers : String}
    (h : ∀ text ∈ [attributes, map, symbols, headers], '\r' ∉ text.toList) :
    (Source.ofTexts attributes map symbols headers).NoReturns := by
  intro listing text htext
  cases listing <;> obtain rfl := Except.ok.inj htext <;> exact h _ (by simp)

/-- A stage does not notice the returns if its reader does not. -/
theorem stage_withReturns {α : Type} {source : Source} {listing : Listing}
    {read : String → Except Failure α} (hsource : source.NoReturns) (chosen : Listing → Bool)
    (hread : ∀ text, '\r' ∉ text.toList → read (Text.withReturns text) = read text) :
    (source.withReturns chosen).stage listing read = source.stage listing read := by
  have hstarts : (source.withReturns chosen).starts listing = source.starts listing := rfl
  rw [stage_eq, stage_eq, hstarts]
  by_cases hchosen : chosen listing = true
  · have hlisting : source.withReturns chosen listing = (source listing).map Text.withReturns :=
      if_pos hchosen
    rw [hlisting]
    cases h : source listing with
    | error failure => rfl
    | ok text =>
      have htext : read (Text.withReturns text) = read text := hread text (hsource listing text h)
      exact congrArg (Inquiry.mk _ _) htext
  · have hlisting : source.withReturns chosen listing = source listing := if_neg hchosen
    rw [hlisting]

/-- **Line endings do not matter.**  If no listing of a source holds a carriage return, then the
    analysis stays what it is when every line feed of some of the listings, whichever they are, is
    replaced by a carriage return and a line feed: it asks for the same listings and has the same
    outcome, be it an analysis or a failure. -/
theorem analyze_withReturns {source : Source} (hsource : source.NoReturns)
    (chosen : Listing → Bool) (o : Options) :
    (source.withReturns chosen).analyze o = source.analyze o := by
  have hisa : (source.withReturns chosen).stage .attributes Isa.classify =
      source.stage .attributes Isa.classify :=
    stage_withReturns hsource chosen fun text _ => Isa.classify_withReturns text
  have hlayout : (source.withReturns chosen).stage .linkerMap Layout.ofMap =
      source.stage .linkerMap Layout.ofMap :=
    stage_withReturns hsource chosen fun text => Layout.ofMap_withReturns
  have hsurvey (layout : Layout) :
      (source.withReturns chosen).stage .symbolTable
          (fun text => Survey.ofSymbols o layout.endOfFlash (symbolTable text)) =
        source.stage .symbolTable
          (fun text => Survey.ofSymbols o layout.endOfFlash (symbolTable text)) :=
    stage_withReturns hsource chosen fun text h => by rw [symbolTable_withReturns h]
  have hheaders :
      (source.withReturns chosen).stage .sectionHeaders
          (fun text => (SectionHeader.ofListing text).mapError Failure.ofMetadata) =
        source.stage .sectionHeaders
          (fun text => (SectionHeader.ofListing text).mapError Failure.ofMetadata) :=
    stage_withReturns hsource chosen fun text h => by rw [SectionHeader.ofListing_withReturns h]
  simp only [analyze, hisa, hlayout, hsurvey, hheaders]

/-- All listings but the map have returns, and the failure quotes the header line without one. -/
theorem analyze_withReturns_quoted :
    let o := (Options.new "main").withHalt "win"
    let source := Source.ofTexts "Tag_CPU_name: \"7-M\"\n" "flash 0 100\nram 200 10\n"
      "10 g F main\n40 g F win\n" "Idx Name\n0 .text 8 0 zz 0 2\nALLOC"
    source.NoReturns ∧
      ((source.withReturns (· != .linkerMap)).analyze o).outcome =
        .error (.metadata (.malformedHeader "0 .text 8 0 zz 0 2")) := by
  intro o source
  have hsource : source.NoReturns := noReturns_ofTexts (by decide)
  have h : (source.analyze o).outcome =
      .error (.metadata (.malformedHeader "0 .text 8 0 zz 0 2")) := by rfl
  refine ⟨hsource, ?_⟩
  rw [analyze_withReturns hsource]
  exact h

end Source
end FaultPlan
