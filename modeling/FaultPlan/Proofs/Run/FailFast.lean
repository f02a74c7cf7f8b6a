/-
  An analysis fails at its first fault, and a derivation with it.

  `Source.FailsAt` says what it is for the stage of a listing to fail, whether or not the stage is
  reached.  `Source.Course` says how far an analysis comes: it asks for the listings in their order, up
  to the first whose stage fails, and answers with that stage's failure.  An analysis takes such a
  course (`course_analyze`) and no other (`Course.unique`), and the course depends on no listing
  that is not asked for (`Course.of_agree`).  A derivation whose analysis fails has done nothing.
-/
import FaultPlan.Derivation
import FaultPlan.Proofs.Analysis.Stages

namespace FaultPlan

/-- The listings in the order in which an analysis asks for them. -/
def Listing.inOrder : List Listing := [.attributes, .linkerMap, .symbolTable, .sectionHeaders]

theorem Listing.mem_inOrder (l : Listing) : l ∈ Listing.inOrder := by
  cases l <;> decide

namespace Source

variable {source source' : Source} {o : Options}

/-! ## Stages that fail -/

/-- The reader of a listing rejects its text.  The symbols are read under the layout that the linker
    map describes. -/
def Rejects (source : Source) (o : Options) : Listing → String → Failure → Prop
  | .attributes, text, f => Isa.classify text = .error f
  | .linkerMap, text, f => Layout.ofMap text = .error f
  | .symbolTable, text, f => ∃ map layout, source .linkerMap = .ok map ∧
      Layout.ofMap map = .ok layout ∧
      Survey.ofSymbols o layout.endOfFlash (symbolTable text) = .error f
  | .sectionHeaders, text, f => ∃ cause, SectionHeader.ofListing text = .error cause ∧
      f = .ofMetadata cause

/-- The stage of a listing fails: the listing cannot be had, or its reader rejects the text. -/
def FailsAt (source : Source) (o : Options) (listing : Listing) (f : Failure) : Prop :=
  (∃ cause, source listing = .error cause ∧ f = .ofMetadata cause) ∨
    ∃ text, source listing = .ok text ∧ source.Rejects o listing text f

theorem Rejects.unique {listing : Listing} {text : String} {f g : Failure}
    (hf : source.Rejects o listing text f) (hg : source.Rejects o listing text g) : f = g := by
  cases listing with
  | attributes => exact Except.error.inj (hf.symm.trans hg)
  | linkerMap => exact Except.error.inj (hf.symm.trans hg)
  | symbolTable =>
    obtain ⟨map, layout, hmap, hlayout, hf⟩ := hf
    obtain ⟨map', layout', hmap', hlayout', hg⟩ := hg
    obtain rfl := Except.ok.inj (hmap.symm.trans hmap')
    obtain rfl := Except.ok.inj (hlayout.symm.trans hlayout')
    exact Except.error.inj (hf.symm.trans hg)
  | sectionHeaders =>
    obtain ⟨cause, hcause, rfl⟩ := hf
    obtain ⟨cause', hcause', rfl⟩ := hg
    exact congrArg _ (Except.error.inj (hcause.symm.trans hcause'))

/-- A stage has one failure at most. -/
theorem FailsAt.unique {listing : Listing} {f g : Failure} (hf : source.FailsAt o listing f)
    (hg : source.FailsAt o listing g) : f = g := by
  rcases hf with ⟨cause, hcause, rfl⟩ | ⟨text, htext, hf⟩
  · rcases hg with ⟨cause', hcause', rfl⟩ | ⟨text', htext', -⟩
    · exact congrArg _ (Except.error.inj (hcause.symm.trans hcause'))
    · nomatch hcause.symm.trans htext'
  · rcases hg with ⟨cause', hcause', rfl⟩ | ⟨text', htext', hg⟩
    · nomatch htext.symm.trans hcause'
    · obtain rfl := Except.ok.inj (htext.symm.trans htext')
      exact hf.unique hg

/-- The reader is the one that decides about the listing's text. -/
def Reads {α : Type} (source : Source) (o : Options) (listing : Listing)
    (read : String → Except Failure α) : Prop :=
  ∀ text f, read text = .error f ↔ source.Rejects o listing text f

theorem reads_attributes : source.Reads o .attributes Isa.classify := fun _ _ => Iff.rfl

theorem reads_linkerMap : source.Reads o .linkerMap Layout.ofMap := fun _ _ => Iff.rfl

theorem reads_symbolTable {layout : Layout}
    (hlayout : (source.stage .linkerMap Layout.ofMap).outcome = .ok layout) :
    source.Reads o .symbolTable
      fun text => Survey.ofSymbols o layout.endOfFlash (symbolTable text) := by
  obtain ⟨map, hmap, hlayout⟩ := stage_eq_ok_iff.1 hlayout
  intro text f
  constructor
  · intro h
    exact ⟨map, layout, hmap, hlayout, h⟩
  · rintro ⟨map', layout', hmap', hlayout', h⟩
    obtain rfl := Except.ok.inj (hmap.symm.trans hmap')
    obtain rfl := Except.ok.inj (hlayout.symm.trans hlayout')
    exact h

theorem reads_sectionHeaders : source.Reads o .sectionHeaders
    fun text => (SectionHeader.ofListing text).mapError Failure.ofMetadata := by
  intro text f
  rw [mapError_eq_error_iff]
  exact exists_congr fun _ => and_congr_right fun _ => eq_comm

section

variable {α : Type} {listing : Listing} {read : String → Except Failure α}

theorem failsAt_iff (hread : source.Reads o listing read) {f : Failure} :
    source.FailsAt o listing f ↔ (source.stage listing read).outcome = .error f := by
  rw [stage_eq_error_iff]
  exact or_congr Iff.rfl (exists_congr fun text => and_congr_right fun _ => (hread text f).symm)

theorem not_failsAt (hread : source.Reads o listing read) {a : α}
    (h : (source.stage listing read).outcome = .ok a) (f : Failure) : ¬ source.FailsAt o listing f := by
  rw [failsAt_iff hread, h]
  exact nofun

/-- A stage asks for nothing but its own listing. -/
theorem stage_congr (h : source' listing = source listing) :
    (source'.stage listing read).outcome = (source.stage listing read).outcome := by
  rw [outcome_stage, outcome_stage, h]

end

/-! ## Courses -/

/-- How far an analysis comes: to the end, or up to the stage of one of the listings.  What it asks
    for, and its outcome, are those of the course. -/
inductive Course (source : Source) (o : Options) :
    List Listing → Except Failure Analysis → Prop where
  | attributes {f : Failure}
    (hisa : (source.stage .attributes Isa.classify).outcome = .error f) :
    Course source o [.attributes] (.error f)
  | linkerMap {isa : Isa} {f : Failure}
    (hisa : (source.stage .attributes Isa.classify).outcome = .ok isa)
    (hlayout : (source.stage .linkerMap Layout.ofMap).outcome = .error f) :
    Course source o [.attributes, .linkerMap] (.error f)
  | symbolTable {isa : Isa} {layout : Layout} {f : Failure}
    (hisa : (source.stage .attributes Isa.classify).outcome = .ok isa)
    (hlayout : (source.stage .linkerMap Layout.ofMap).outcome = .ok layout)
    (hsurvey : (source.stage .symbolTable fun text =>
      Survey.ofSymbols o layout.endOfFlash (symbolTable text)).outcome = .error f) :
    Course source o [.attributes, .linkerMap, .symbolTable] (.error f)
  | sectionHeaders {isa : Isa} {layout : Layout} {survey : Survey} {f : Failure}
    (hisa : (source.stage .attributes Isa.classify).outcome = .ok isa)
    (hlayout : (source.stage .linkerMap Layout.ofMap).outcome = .ok layout)
    (hsurvey : (source.stage .symbolTable fun text =>
      Survey.ofSymbols o layout.endOfFlash (symbolTable text)).outcome = .ok survey)
    (hheaders : (source.stage .sectionHeaders fun text =>
      (SectionHeader.ofListing text).mapError Failure.ofMetadata).outcome = .error f) :
    Course source o Listing.inOrder (.error f)
  | completed {isa : Isa} {layout : Layout} {survey : Survey} {headers : List SectionHeader}
    (hisa : (source.stage .attributes Isa.classify).outcome = .ok isa)
    (hlayout : (source.stage .linkerMap Layout.ofMap).outcome = .ok layout)
    (hsurvey : (source.stage .symbolTable fun text =>
      Survey.ofSymbols o layout.endOfFlash (symbolTable text)).outcome = .ok survey)
    (hheaders : (source.stage .sectionHeaders fun text =>
      (SectionHeader.ofListing text).mapError Failure.ofMetadata).outcome = .ok headers) :
    Course source o Listing.inOrder (.ok ⟨isa, layout, survey, SectionHeader.loadable headers⟩)

theorem course_analyze (source : Source) (o : Options) :
    source.Course o (source.analyze o).asked (source.analyze o).outcome := by
  unfold analyze
  cases hisa : (source.stage .attributes Isa.classify).outcome with
  | error f =>
    rw [Inquiry.bind_of_error hisa]
    exact .attributes hisa
  | ok isa =>
  rw [Inquiry.bind_of_ok hisa]
  cases hlayout : (source.stage .linkerMap Layout.ofMap).outcome with
  | error f =>
    rw [Inquiry.bind_of_error hlayout]
    exact .linkerMap hisa hlayout
  | ok layout =>
  rw [Inquiry.bind_of_ok hlayout]
  cases hsurvey : (source.stage .symbolTable fun text =>
      Survey.ofSymbols o layout.endOfFlash (symbolTable text)).outcome with
  | error f =>
    rw [Inquiry.bind_of_error hsurvey]
    exact .symbolTable hisa hlayout hsurvey
  | ok survey =>
  rw [Inquiry.bind_of_ok hsurvey]
  cases hheaders : (source.stage .sectionHeaders fun text =>
      (SectionHeader.ofListing text).mapError Failure.ofMetadata).outcome with
  | error f =>
    rw [Inquiry.bind_of_error hheaders]
    exact .sectionHeaders hisa hlayout hsurvey hheaders
  | ok headers =>
  rw [Inquiry.bind_of_ok hheaders]
  exact .completed hisa hlayout hsurvey hheaders

namespace Course

variable {asked asked' : List Listing} {outcome outcome' : Except Failure Analysis}

/-- There is one course only: each stage has one outcome. -/
theorem unique (h : source.Course o asked outcome) (h' : source.Course o asked' outcome') :
    asked = asked' ∧ outcome = outcome' := by
  cases h <;> cases h' <;> simp_all

theorem asked_prefix (h : source.Course o asked outcome) : asked <+: Listing.inOrder := by
  cases h with
  | attributes => exact ⟨[.linkerMap, .symbolTable, .sectionHeaders], rfl⟩
  | linkerMap => exact ⟨[.symbolTable, .sectionHeaders], rfl⟩
  | symbolTable => exact ⟨[.sectionHeaders], rfl⟩
  | sectionHeaders | completed => exact List.prefix_refl _

/-- The course depends on no listing that is not asked for. -/
theorem of_agree (h : source.Course o asked outcome)
    (hagree : ∀ l ∈ asked, source' l = source l) : source'.Course o asked outcome := by
  have keep : ∀ {α : Type} {l : Listing} {read : String → Except Failure α} {r : Except Failure α},
      l ∈ asked → (source.stage l read).outcome = r → (source'.stage l read).outcome = r :=
    fun hl h => (stage_congr (hagree _ hl)).trans h
  cases h with
  | attributes hisa => exact .attributes (keep (by simp) hisa)
  | linkerMap hisa hlayout =>
    exact .linkerMap (keep (by simp) hisa) (keep (by simp) hlayout)
  | symbolTable hisa hlayout hsurvey =>
    exact .symbolTable (keep (by simp) hisa) (keep (by simp) hlayout) (keep (by simp) hsurvey)
  | sectionHeaders hisa hlayout hsurvey hheaders =>
    exact .sectionHeaders (keep (Listing.mem_inOrder _) hisa)
      (keep (Listing.mem_inOrder _) hlayout) (keep (Listing.mem_inOrder _) hsurvey)
      (keep (Listing.mem_inOrder _) hheaders)
  | completed hisa hlayout hsurvey hheaders =>
    exact .completed (keep (Listing.mem_inOrder _) hisa) (keep (Listing.mem_inOrder _) hlayout)
      (keep (Listing.mem_inOrder _) hsurvey) (keep (Listing.mem_inOrder _) hheaders)

/-- A course that ends in a failure ends at a stage that fails, and no stage before it does. -/
theorem failsAt (h : source.Course o asked outcome) {f : Failure} (hf : outcome = .error f) :
    ∃ before l, asked = before ++ [l] ∧ (∀ l' ∈ before, ∀ g, ¬ source.FailsAt o l' g) ∧
      source.FailsAt o l f := by
  cases h with
  | attributes hisa =>
    obtain rfl := Except.error.inj hf
    exact ⟨[], .attributes, rfl, by simp, (failsAt_iff reads_attributes).2 hisa⟩
  | linkerMap hisa hlayout =>
    obtain rfl := Except.error.inj hf
    refine ⟨[.attributes], .linkerMap, rfl, ?_, (failsAt_iff reads_linkerMap).2 hlayout⟩
    simpa using not_failsAt reads_attributes hisa
  | symbolTable hisa hlayout hsurvey =>
    obtain rfl := Except.error.inj hf
    refine ⟨[.attributes, .linkerMap], .symbolTable, rfl, ?_,
      (failsAt_iff (reads_symbolTable hlayout)).2 hsurvey⟩
    simpa using ⟨not_failsAt reads_attributes hisa, not_failsAt reads_linkerMap hlayout⟩
  | sectionHeaders hisa hlayout hsurvey hheaders =>
    obtain rfl := Except.error.inj hf
    refine ⟨[.attributes, .linkerMap, .symbolTable], .sectionHeaders, rfl, ?_,
      (failsAt_iff reads_sectionHeaders).2 hheaders⟩
    simpa using ⟨not_failsAt reads_attributes hisa, not_failsAt reads_linkerMap hlayout,
      not_failsAt (reads_symbolTable hlayout) hsurvey⟩
  | completed => nomatch hf

/-- A course that does not end in a failure goes through all stages, and none of them fails. -/
theorem completes (h : source.Course o asked outcome) {a : Analysis} (ha : outcome = .ok a) :
    asked = Listing.inOrder ∧ ∀ l f, ¬ source.FailsAt o l f := by
  cases h with
  | completed hisa hlayout hsurvey hheaders =>
    refine ⟨rfl, fun l => ?_⟩
    cases l with
    | attributes => exact not_failsAt reads_attributes hisa
    | linkerMap => exact not_failsAt reads_linkerMap hlayout
    | symbolTable => exact not_failsAt (reads_symbolTable hlayout) hsurvey
    | sectionHeaders => exact not_failsAt reads_sectionHeaders hheaders
  | attributes | linkerMap | symbolTable | sectionHeaders => nomatch ha

end Course
end Source

/-! ## Derivations -/

/-- A derivation whose analysis fails ends with it, before anything is cleared or extracted. -/
theorem derive_of_analyze_eq_error {o : Options} {source : Source} {f : Failure}
    (h : (source.analyze o).outcome = .error f) (storage : Storage) (x : Extractor) (dir : Path)
    (t : FileTree) :
    derive storage o source x dir t =
      ⟨(source.analyze o).asked, [], (source.analyze o).started, [], t, .error f⟩ := by
  simp only [derive, h]

/-- **An analysis fails fast.**  It asks for the listings in their order.  It fails exactly when the
    stage of the listing asked for last is the first to fail, and with that stage's failure; else all
    are asked for, and no stage fails.  A source that agrees on the listings asked for is analysed
    alike.  When the analysis fails, the derivation fails with it, having called no extractor and
    changed no file. -/
theorem analysis_fails_fast (o : Options) (source : Source) :
    let q := source.analyze o
    q.asked <+: [.attributes, .linkerMap, .symbolTable, .sectionHeaders] ∧
    (∀ f, q.outcome = .error f ↔ ∃ before l, q.asked = before ++ [l] ∧
      (∀ l' ∈ before, ∀ g, ¬ source.FailsAt o l' g) ∧ source.FailsAt o l f) ∧
    (∀ a, q.outcome = .ok a →
      q.asked = [.attributes, .linkerMap, .symbolTable, .sectionHeaders] ∧
        ∀ l f, ¬ source.FailsAt o l f) ∧
    (∀ source' : Source, (∀ l ∈ q.asked, source' l = source l) →
      (source'.analyze o).asked = q.asked ∧ (source'.analyze o).outcome = q.outcome) ∧
    ∀ f, q.outcome = .error f →
      ∀ (storage : Storage) (x : Extractor) (dir : Path) (t : FileTree),
        derive storage o source x dir t = ⟨q.asked, [], q.started, [], t, .error f⟩ := by
  intro q
  have hcourse : source.Course o q.asked q.outcome := Source.course_analyze source o
  refine ⟨hcourse.asked_prefix, fun f => ⟨hcourse.failsAt, ?_⟩, fun a => hcourse.completes,
    fun source' hagree => (Source.course_analyze source' o).unique (hcourse.of_agree hagree),
    fun f hf => derive_of_analyze_eq_error hf⟩
  rintro ⟨before, l, hasked, -, hfails⟩
  cases hq : q.outcome with
  | ok a => exact absurd hfails ((hcourse.completes hq).2 l f)
  | error g =>
    -- the stage that failed is the one asked for last, and it has only one failure
    obtain ⟨before', l', hasked', -, hfails'⟩ := hcourse.failsAt hq
    obtain ⟨-, hl⟩ := List.append_inj' (hasked.symm.trans hasked') rfl
    obtain rfl := List.singleton_inj.1 hl
    rw [hfails'.unique hfails]

/-- A map without RAM comes before a symbol table that cannot be had. -/
theorem analysis_fails_fast_two_faults :
    let texts := Source.ofTexts "Tag_CPU_name:\"6-M\"" "flash 0 100\n" "" ""
    let source := Source.ofText fun l =>
      if l = .symbolTable then .error (.spawn "objdump" .notFound) else texts l
    let o := (Options.new "main").withHalt "win"
    (source.analyze o).outcome = .error (.missingRegion .ram) ∧
      (source.analyze o).asked = [.attributes, .linkerMap] ∧
      (texts.analyze o).asked = [.attributes, .linkerMap] ∧
      (texts.analyze o).outcome = .error (.missingRegion .ram) ∧
      ∀ (storage : Storage) (x : Extractor) (dir : Path) (t : FileTree),
        derive storage o source x dir t =
          ⟨[.attributes, .linkerMap], [], [], [], t, .error (.missingRegion .ram)⟩ := by
  intro texts source o
  have houtcome : (source.analyze o).outcome = .error (.missingRegion .ram) := by rfl
  have hasked : (source.analyze o).asked = [.attributes, .linkerMap] := by rfl
  obtain ⟨-, -, -, hagree, hderive⟩ := analysis_fails_fast o source
  have hagreed : ∀ l ∈ (source.analyze o).asked, texts l = source l := by
    intro l hl
    rw [hasked] at hl
    rcases List.mem_cons.1 hl with rfl | hl
    · rfl
    · obtain rfl := List.mem_singleton.1 hl
      rfl
  obtain ⟨hsame, hfailure⟩ := hagree texts hagreed
  exact ⟨houtcome, hasked, hsame.trans hasked, hfailure.trans houtcome, hderive _ houtcome⟩

end FaultPlan
