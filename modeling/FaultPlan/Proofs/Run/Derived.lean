/-
  What a derivation answers with.

  A derivation goes through its steps up to the first that fails: the analysis, the clearing, and a
  call of the extractor for each section (`course_derive`).  One that succeeds answers with the
  configuration of its analysis, with one blob for each section in order (`derive_eq_ok`).  Such a
  configuration is usable for the engine, because the guarantees of the analysis are what the engine
  asks for (`Source.Yields.usable`).  One that fails never does so with a refusal.
-/
import FaultPlan.Derivation
import FaultPlan.Proofs.Analysis.Failures
import FaultPlan.Proofs.Analysis.Guarantees
import FaultPlan.Proofs.Engine.RoundTrip
import FaultPlan.Proofs.Section.Extracting

namespace FaultPlan

variable {storage : Storage} {o : Options} {source : Source} {x : Extractor} {dir : Path}
  {t cleared t' : FileTree} {a : Analysis}

/-- A derivation whose analysis and clearing succeed is an extraction. -/
theorem derive_of_cleared (ha : (source.analyze o).outcome = .ok a)
    (hclear : clearBlobs storage dir t = (cleared, .ok ())) :
    derive storage o source x dir t =
      let q := source.analyze o
      let e := extractAll storage x dir a.sections cleared
      ⟨q.asked, e.calls, q.started ++ e.started, e.leftovers, e.tree,
        (e.outcome.mapError .ofMetadata).map (a.configuration o)⟩ := by
  simp only [derive, ha, hclear]
  cases (extractAll storage x dir a.sections cleared).outcome with
  | error failure => rfl
  | ok blobs => rfl

/-- A derivation whose clearing fails ends there, with what the clearing left. -/
theorem derive_of_uncleared {left : FileTree} {cause : IoFault}
    (ha : (source.analyze o).outcome = .ok a)
    (hclear : clearBlobs storage dir t = (left, .error cause)) :
    derive storage o source x dir t =
      ⟨(source.analyze o).asked, [], (source.analyze o).started, [], left, .error (.io cause)⟩ := by
  simp only [derive, ha, hclear]

/-- Steps that all succeed make a derivation. -/
theorem derive_of_extracts (ha : (source.analyze o).outcome = .ok a)
    (hclear : clearBlobs storage dir t = (cleared, .ok ()))
    (hrow : x.Extracts dir 0 a.sections cleared t') :
    derive storage o source x dir t =
      ⟨(source.analyze o).asked, a.sections.map (·.callIn dir),
        (source.analyze o).started ++ x.startsFor dir 0 a.sections cleared, [], t',
        .ok (a.configuration o (a.sections.map (·.blobIn dir)))⟩ := by
  rw [derive_of_cleared ha hclear, extractAll, hrow.extractAfter rfl]
  rfl

/-- A call that fails ends a derivation, and what may have been written until then is discarded. -/
theorem derive_of_fails {before after : List LoadableSection} {s : LoadableSection}
    {t'' : FileTree} {failure : MetadataFailure} (ha : (source.analyze o).outcome = .ok a)
    (hclear : clearBlobs storage dir t = (cleared, .ok ()))
    (hsections : a.sections = before ++ s :: after) (hbefore : x.Extracts dir 0 before cleared t')
    (hfails : x before.length s.name (blobPath dir s.name) t' = (t'', .error failure)) :
    derive storage o source x dir t =
      let r := discard storage ((before ++ [s]).map fun s => blobPath dir s.name) t''
      ⟨(source.analyze o).asked, (before ++ [s]).map (·.callIn dir),
        (source.analyze o).started ++ x.startsFor dir 0 (before ++ [s]) cleared, r.2, r.1,
        .error (.ofMetadata failure)⟩ := by
  rw [← Nat.zero_add before.length] at hfails
  rw [derive_of_cleared ha hclear, extractAll, hsections,
    hbefore.extractAfter_fails hfails after [] rfl]
  rfl

/-- How a derivation goes. -/
inductive Derivation.Course (storage : Storage) (o : Options) (source : Source) (x : Extractor)
    (dir : Path) (t : FileTree) : Derivation → Prop where
  | unanalysed {f : Failure} (ha : (source.analyze o).outcome = .error f) :
    Course storage o source x dir t
      ⟨(source.analyze o).asked, [], (source.analyze o).started, [], t, .error f⟩
  | uncleared {a : Analysis} {left : FileTree} {cause : IoFault}
    (ha : (source.analyze o).outcome = .ok a)
    (hclear : clearBlobs storage dir t = (left, .error cause)) :
    Course storage o source x dir t
      ⟨(source.analyze o).asked, [], (source.analyze o).started, [], left, .error (.io cause)⟩
  | unextracted {a : Analysis} {cleared t' t'' : FileTree} {before after : List LoadableSection}
    {s : LoadableSection} {failure : MetadataFailure} (ha : (source.analyze o).outcome = .ok a)
    (hclear : clearBlobs storage dir t = (cleared, .ok ()))
    (hsections : a.sections = before ++ s :: after) (hbefore : x.Extracts dir 0 before cleared t')
    (hfails : x before.length s.name (blobPath dir s.name) t' = (t'', .error failure)) :
    Course storage o source x dir t
      ⟨(source.analyze o).asked, (before ++ [s]).map (·.callIn dir),
        (source.analyze o).started ++ x.startsFor dir 0 (before ++ [s]) cleared,
        (discard storage ((before ++ [s]).map fun s => blobPath dir s.name) t'').2,
        (discard storage ((before ++ [s]).map fun s => blobPath dir s.name) t'').1,
        .error (.ofMetadata failure)⟩
  | derived {a : Analysis} {cleared t' : FileTree} (ha : (source.analyze o).outcome = .ok a)
    (hclear : clearBlobs storage dir t = (cleared, .ok ()))
    (hrow : x.Extracts dir 0 a.sections cleared t') :
    Course storage o source x dir t
      ⟨(source.analyze o).asked, a.sections.map (·.callIn dir),
        (source.analyze o).started ++ x.startsFor dir 0 a.sections cleared, [], t',
        .ok (a.configuration o (a.sections.map (·.blobIn dir)))⟩

/-- **A derivation** ends with the first of its steps that fails. -/
theorem course_derive (storage : Storage) (o : Options) (source : Source) (x : Extractor)
    (dir : Path) (t : FileTree) :
    Derivation.Course storage o source x dir t (derive storage o source x dir t) := by
  cases ha : (source.analyze o).outcome with
  | error f =>
    rw [derive_of_analyze_eq_error ha]
    exact .unanalysed ha
  | ok a =>
    rcases hclear : clearBlobs storage dir t with ⟨cleared, cause | ⟨⟩⟩
    · rw [derive_of_uncleared ha hclear]
      exact .uncleared ha hclear
    · rcases x.extracts_or_fails dir 0 a.sections cleared with
        ⟨t', hrow⟩ | ⟨before, s, after, t', t'', failure, hsections, hbefore, hfails⟩
      · rw [derive_of_extracts ha hclear hrow]
        exact .derived ha hclear hrow
      · rw [Nat.zero_add] at hfails
        rw [derive_of_fails ha hclear hsections hbefore hfails]
        exact .unextracted ha hclear hsections hbefore hfails

/-- A derivation that succeeds has cleared the blobs and then extracted all sections. -/
theorem derive_of_ok {c : Configuration}
    (h : (derive storage o source x dir t).outcome = .ok c) :
    ∃ a cleared t', source.Yields o a ∧ clearBlobs storage dir t = (cleared, .ok ()) ∧
      x.Extracts dir 0 a.sections cleared t' ∧
      derive storage o source x dir t =
        ⟨(source.analyze o).asked, a.sections.map (·.callIn dir),
          (source.analyze o).started ++ x.startsFor dir 0 a.sections cleared, [], t',
          .ok (a.configuration o (a.sections.map (·.blobIn dir)))⟩ := by
  have hcourse := course_derive storage o source x dir t
  generalize derive storage o source x dir t = d at h hcourse ⊢
  cases hcourse with
  | derived ha hclear hrow =>
    exact ⟨_, _, _, Source.analyze_eq_ok_iff.1 ha, hclear, hrow, rfl⟩
  | unanalysed | uncleared | unextracted => nomatch h

/-- A derivation that fails after the blobs have been cleared fails with a call of the extractor: it
    has extracted the sections before some section, and has discarded what was extracted when the
    call for that section failed. -/
theorem derive_of_error {f : Failure} (ha : (source.analyze o).outcome = .ok a)
    (hclear : clearBlobs storage dir t = (cleared, .ok ()))
    (h : (derive storage o source x dir t).outcome = .error f) :
    ∃ before s after t' t'' failure, a.sections = before ++ s :: after ∧
      x.Extracts dir 0 before cleared t' ∧
      x before.length s.name (blobPath dir s.name) t' = (t'', .error failure) ∧
      f = .ofMetadata failure ∧
      derive storage o source x dir t =
        let r := discard storage ((before ++ [s]).map fun s => blobPath dir s.name) t''
        ⟨(source.analyze o).asked, (before ++ [s]).map (·.callIn dir),
          (source.analyze o).started ++ x.startsFor dir 0 (before ++ [s]) cleared, r.2, r.1,
          .error f⟩ := by
  rcases x.extracts_or_fails dir 0 a.sections cleared with
    ⟨t', hrow⟩ | ⟨before, s, after, t', t'', failure, hsections, hbefore, hfails⟩
  · rw [derive_of_extracts ha hclear hrow] at h
    nomatch h
  · rw [Nat.zero_add] at hfails
    rw [derive_of_fails ha hclear hsections hbefore hfails] at h ⊢
    obtain rfl := Except.error.inj h
    exact ⟨before, s, after, t', t'', failure, hsections, hbefore, hfails, rfl, rfl⟩

/-- A derived configuration is that of the analysis, with the blobs of its sections. -/
theorem derive_eq_ok {c : Configuration} (h : (derive storage o source x dir t).outcome = .ok c) :
    ∃ a, source.Yields o a ∧
      c = a.configuration o (a.sections.map (LoadableSection.blobIn dir)) := by
  obtain ⟨a, _, _, ha, -, -, hderive⟩ := derive_of_ok h
  rw [hderive] at h
  exact ⟨a, ha, (Except.ok.inj h).symm⟩

/-- The guarantees of an analysis are what the engine asks for. -/
theorem Source.Yields.usable (h : source.Yields o a) (blobs : List SectionBlob) :
    (a.configuration o blobs).Usable where
  halts := h.halts_ne_nil
  ignores r hr := (h.ignores_shape.1 r hr).1
  ram := h.ram_length_ne_zero
  flash := h.flash_length_ne_zero

/-- A derivation never fails with a refusal. -/
theorem not_isRefusal_of_derive {f : Failure}
    (h : (derive storage o source x dir t).outcome = .error f) : ¬ f.IsRefusal := by
  have hcourse := course_derive storage o source x dir t
  generalize derive storage o source x dir t = d at h hcourse
  cases hcourse with
  | unanalysed ha =>
    obtain rfl := Except.error.inj h
    exact Source.not_isRefusal_of_analyze ha
  | uncleared =>
    obtain rfl := Except.error.inj h
    rintro ⟨fault, hfault⟩
    nomatch hfault
  | unextracted =>
    obtain rfl := Except.error.inj h
    exact Failure.not_isRefusal_ofMetadata _
  | derived => nomatch h

end FaultPlan
