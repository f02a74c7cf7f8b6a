/-
  The stages of an analysis, taken apart.

  A stage succeeds when its listing can be had and read.  An analysis succeeds when its four stages
  do, and then it is what they read: `Source.Yields` names what each found (`analyze_eq_ok_iff`).
  What the layout stage promises to later ones is stated beside it (`Layout.length_ne_zero_of_require`).
-/
import FaultPlan.Analysis
import FaultPlan.Proofs.Outcomes

namespace FaultPlan

/-- The source of a build whose four listings are known. -/
def Source.ofTexts (attributes map symbols headers : String) : Source := .ofText fun
  | .attributes => .ok attributes
  | .linkerMap => .ok map
  | .symbolTable => .ok symbols
  | .sectionHeaders => .ok headers

/-! ## One inquiry after the other -/

namespace Inquiry

variable {α β : Type} {q : Inquiry α} {next : α → Inquiry β}

theorem bind_of_ok {a : α} (h : q.outcome = .ok a) :
    q >>= next =
      ⟨q.asked ++ (next a).asked, q.started ++ (next a).started, (next a).outcome⟩ := by
  show q.andThen next = _
  rw [andThen, h]

theorem bind_of_error {f : Failure} (h : q.outcome = .error f) :
    q >>= next = ⟨q.asked, q.started, .error f⟩ := by
  show q.andThen next = _
  rw [andThen, h]

theorem outcome_bind : (q >>= next).outcome = q.outcome >>= fun a => (next a).outcome := by
  cases h : q.outcome with
  | error f => rw [bind_of_error h]; rfl
  | ok a => rw [bind_of_ok h]; rfl

/-- The programs that were started are those that the source starts for what was asked. -/
def Logged (source : Source) (q : Inquiry α) : Prop :=
  q.started = q.asked.flatMap source.starts

theorem Logged.bind {source : Source} (hq : q.Logged source)
    (hnext : ∀ a, (next a).Logged source) : (q >>= next).Logged source := by
  cases h : q.outcome with
  | error f => rw [bind_of_error h]; exact hq
  | ok a =>
    rw [bind_of_ok h]
    show q.started ++ (next a).started = (q.asked ++ (next a).asked).flatMap source.starts
    rw [List.flatMap_append, hq, hnext a]

end Inquiry

/-! ## One stage -/

namespace Source

variable {α : Type} {source : Source} {listing : Listing} {read : String → Except Failure α}

theorem stage_eq :
    source.stage listing read = ⟨[listing], source.starts listing,
      (source listing).mapError Failure.ofMetadata >>= read⟩ := by
  unfold stage starts Source.text
  rcases source.answer listing with ⟨started, failure | text⟩
  · rfl
  · rfl

theorem outcome_stage :
    (source.stage listing read).outcome =
      (source listing).mapError Failure.ofMetadata >>= read := by
  rw [stage_eq]

theorem stage_eq_ok_iff {a : α} :
    (source.stage listing read).outcome = .ok a ↔
      ∃ text, source listing = .ok text ∧ read text = .ok a := by
  simp only [outcome_stage, bind_eq_ok_iff, mapError_eq_ok_iff]

theorem stage_eq_error_iff {failure : Failure} :
    (source.stage listing read).outcome = .error failure ↔
      (∃ cause, source listing = .error cause ∧ failure = .ofMetadata cause) ∨
        ∃ text, source listing = .ok text ∧ read text = .error failure := by
  rw [outcome_stage]
  cases source listing with
  | error cause =>
    show Except.error (Failure.ofMetadata cause) = .error failure ↔ _
    simp [eq_comm]
  | ok text =>
    show read text = .error failure ↔ _
    simp

theorem logged_stage : (source.stage listing read).Logged source := by
  rw [stage_eq, Inquiry.Logged, List.flatMap_singleton]

end Source

/-! ## The layout -/

/-- A region that was required has some length. -/
theorem Layout.length_ne_zero_of_require {kind : RegionKind} {rs : Regions} {r : Region}
    (h : Layout.require kind rs = .ok r) : r.length ≠ 0 := by
  unfold Layout.require at h
  split at h
  · split at h
    · nomatch h
    · next hlength =>
      obtain rfl := Except.ok.inj h
      exact hlength
  · nomatch h

/-- A layout is the two regions that its map was required to give. -/
theorem Layout.ofMap_eq_ok_iff {map : String} {l : Layout} :
    Layout.ofMap map = .ok l ↔
      Layout.require .flash (Regions.ofMap map) = .ok l.flash ∧
        Layout.require .ram (Regions.ofMap map) = .ok l.ram := by
  obtain ⟨flash, ram⟩ := l
  unfold Layout.ofMap
  dsimp only
  cases Layout.require .flash (Regions.ofMap map) with
  | error failure => simp [bind, Except.bind]
  | ok f =>
    cases Layout.require .ram (Regions.ofMap map) with
    | error failure => simp [bind, Except.bind]
    | ok r => simp [bind, Except.bind, pure, Except.pure]

/-! ## The whole analysis -/

/-- The analysis is what its stages read in the listings of the source. -/
structure Source.Yields (source : Source) (o : Options) (a : Analysis) : Prop where
  isa : ∃ text, source .attributes = .ok text ∧ Isa.classify text = .ok a.isa
  layout : ∃ text, source .linkerMap = .ok text ∧ Layout.ofMap text = .ok a.layout
  survey : ∃ text, source .symbolTable = .ok text ∧
    Survey.ofSymbols o a.layout.endOfFlash (symbolTable text) = .ok a.survey
  sections : ∃ text headers, source .sectionHeaders = .ok text ∧
    SectionHeader.ofListing text = .ok headers ∧ SectionHeader.loadable headers = a.sections

theorem Source.analyze_eq_ok_iff {source : Source} {o : Options} {a : Analysis} :
    (source.analyze o).outcome = .ok a ↔ source.Yields o a := by
  simp only [analyze, Inquiry.outcome_bind, bind_eq_ok_iff, stage_eq_ok_iff]
  constructor
  · rintro ⟨isa, hisa, layout, hlayout, survey, hsurvey, headers, ⟨text, htext, hread⟩, h⟩
    obtain rfl := Except.ok.inj h
    exact ⟨hisa, hlayout, hsurvey, text, headers, htext, mapError_eq_ok_iff.1 hread, rfl⟩
  · rintro ⟨hisa, hlayout, hsurvey, text, headers, htext, hheaders, hsections⟩
    refine ⟨a.isa, hisa, a.layout, hlayout, a.survey, hsurvey, headers,
      ⟨text, htext, mapError_eq_ok_iff.2 hheaders⟩, ?_⟩
    rw [hsections]
    rfl

theorem Source.logged_analyze (source : Source) (o : Options) :
    (source.analyze o).Logged source :=
  logged_stage.bind fun _ => logged_stage.bind fun _ => logged_stage.bind fun _ =>
    logged_stage.bind fun _ => rfl

end FaultPlan
