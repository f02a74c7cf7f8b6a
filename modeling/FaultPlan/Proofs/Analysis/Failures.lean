/-
  How an analysis fails.

  Each reader has failures of its own, which lie in the text that it reads (`Failure.IsTextual`).  A
  listing that cannot be had at all is a failure of another kind, and a stage has no third
  (`Source.FailsAt.isTextual_or`).  In particular an analysis never fails with the engine's refusal of
  an argument list (`Failure.IsRefusal`).
-/
import FaultPlan.Proofs.Run.FailFast

namespace FaultPlan

/-! ## Kinds of failures -/

/-- The failure is the engine's refusal of an argument list. -/
def Failure.IsRefusal (f : Failure) : Prop := ∃ fault, f = .invalidArguments fault

/-- The failure lies in the text of a listing. -/
inductive Failure.IsTextual : Failure → Prop where
  | missingMetadata : IsTextual .missingMetadata
  | unsupportedArchitecture (cpuName : String) : IsTextual (.unsupportedArchitecture cpuName)
  | missingRegion (kind : RegionKind) : IsTextual (.missingRegion kind)
  | missingStart (name : String) : IsTextual (.missingStart name)
  | missingHalt (names : List String) : IsTextual (.missingHalt names)
  | malformedHeader (line : String) : IsTextual (.metadata (.malformedHeader line))

theorem Failure.IsTextual.not_isRefusal {f : Failure} (h : f.IsTextual) : ¬ f.IsRefusal := by
  rintro ⟨fault, rfl⟩
  nomatch h

theorem Failure.not_isRefusal_ofMetadata (cause : MetadataFailure) :
    ¬ (Failure.ofMetadata cause).IsRefusal := by
  rintro ⟨fault, h⟩
  cases cause <;> nomatch h

/-! ## The readers -/

theorem Isa.isTextual_of_classify {attributes : String} {f : Failure}
    (h : Isa.classify attributes = .error f) : f.IsTextual := by
  unfold Isa.classify at h
  split at h
  · obtain rfl := Except.error.inj h
    exact .missingMetadata
  · nomatch h
  · nomatch h
  · obtain rfl := Except.error.inj h
    exact .unsupportedArchitecture _

theorem Layout.isTextual_of_require {kind : RegionKind} {rs : Regions} {f : Failure}
    (h : Layout.require kind rs = .error f) : f.IsTextual := by
  unfold Layout.require at h
  split at h
  · split at h
    · obtain rfl := Except.error.inj h
      exact .missingRegion kind
    · nomatch h
  · obtain rfl := Except.error.inj h
    exact .missingRegion kind

theorem Layout.isTextual_of_ofMap {map : String} {f : Failure}
    (h : Layout.ofMap map = .error f) : f.IsTextual := by
  unfold Layout.ofMap at h
  dsimp only at h
  cases hflash : Layout.require .flash (Regions.ofMap map) with
  | error g =>
    rw [hflash] at h
    obtain rfl := Except.error.inj h
    exact Layout.isTextual_of_require hflash
  | ok flash =>
    cases hram : Layout.require .ram (Regions.ofMap map) with
    | error g =>
      rw [hflash, hram] at h
      obtain rfl := Except.error.inj h
      exact Layout.isTextual_of_require hram
    | ok ram =>
      rw [hflash, hram] at h
      nomatch h

theorem Survey.isTextual_of_ofSymbols {o : Options} {endOfFlash : UInt64}
    {symbols : List Symbol} {f : Failure}
    (h : Survey.ofSymbols o endOfFlash symbols = .error f) : f.IsTextual := by
  unfold Survey.ofSymbols Survey.ofPass at h
  split at h
  · obtain rfl := Except.error.inj h
    exact .missingStart _
  · obtain rfl := Except.error.inj h
    exact .missingHalt _
  · nomatch h

/-- Header lines are read in order, and what fails is the first malformed one. -/
theorem SectionHeader.isTextual_of_ofLines {lines : List String} {cause : MetadataFailure}
    (h : SectionHeader.ofLines lines = .error cause) : (Failure.ofMetadata cause).IsTextual := by
  fun_induction SectionHeader.ofLines lines with
  | case1 | case4 => nomatch h
  | case2 line rest _ ih => exact ih h
  | case3 line =>
    obtain rfl := Except.error.inj h
    exact .malformedHeader line
  | case5 line header _ flags rest ih =>
    cases hrest : SectionHeader.ofLines rest with
    | error cause' =>
      rw [hrest] at h
      obtain rfl := Except.error.inj h
      exact ih hrest
    | ok headers =>
      rw [hrest] at h
      nomatch h

theorem SectionHeader.isTextual_of_ofListing {text : String} {cause : MetadataFailure}
    (h : SectionHeader.ofListing text = .error cause) : (Failure.ofMetadata cause).IsTextual :=
  SectionHeader.isTextual_of_ofLines h

/-! ## The whole analysis -/

namespace Source

variable {source : Source} {o : Options} {listing : Listing} {f : Failure}

theorem Rejects.isTextual {text : String} (h : source.Rejects o listing text f) : f.IsTextual := by
  cases listing with
  | attributes => exact Isa.isTextual_of_classify h
  | linkerMap => exact Layout.isTextual_of_ofMap h
  | symbolTable =>
    obtain ⟨map, layout, -, -, hsurvey⟩ := h
    exact Survey.isTextual_of_ofSymbols hsurvey
  | sectionHeaders =>
    obtain ⟨cause, hcause, rfl⟩ := h
    exact SectionHeader.isTextual_of_ofListing hcause

/-- A stage fails over the text of its listing, or because there is none. -/
theorem FailsAt.isTextual_or (h : source.FailsAt o listing f) :
    f.IsTextual ∨ ∃ cause, source listing = .error cause ∧ f = .ofMetadata cause := by
  rcases h with hcause | ⟨text, -, hrejects⟩
  · exact Or.inr hcause
  · exact Or.inl hrejects.isTextual

/-- An analysis never fails with a refusal. -/
theorem not_isRefusal_of_analyze (h : (source.analyze o).outcome = .error f) : ¬ f.IsRefusal := by
  obtain ⟨-, listing, -, -, hfails⟩ := (course_analyze source o).failsAt h
  rcases hfails.isTextual_or with htextual | ⟨cause, -, rfl⟩
  · exact htextual.not_isRefusal
  · exact Failure.not_isRefusal_ofMetadata cause

end Source
end FaultPlan
