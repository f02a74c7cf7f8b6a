/-
  The tool calls that a derivation makes.

  A call is logged when its program has been started, so that a step that succeeds has logged its call,
  and a step that fails has if its program could be started (`Build.starts_source`,
  `Build.starts_extractor`).  A derivation has a plan: three calls for listings, and one for each
  section (`Build.plan`).  It keeps to the plan up to the first step that fails (`Build.CallsUpTo`).
-/
import FaultPlan.Command.Commands
import FaultPlan.Proofs.Bench.Copying
import FaultPlan.Proofs.Run.Derived
import FaultPlan.Proofs.Run.FailFast

namespace FaultPlan

variable {storage : Storage} {t t' : FileTree} {b : Build} {bench : Bench} {o : Options} {dir : Path}

/-- The sections that an analysis found, none if it failed. -/
def Inquiry.sections (q : Inquiry Analysis) : List LoadableSection :=
  match q.outcome with
  | .ok a => a.sections
  | .error _ => []

namespace Build

/-! ## The plan -/

/-- The call that has a listing printed, if a tool prints it. -/
def listingCall? (b : Build) (l : Listing) : Option Call :=
  (b.command? l).map fun c => ⟨c.1, c.2, none⟩

/-- The call that has a section copied. -/
def copyCall (b : Build) (dir : Path) (s : LoadableSection) : Call :=
  ⟨b.copier, b.copyArgs s.name (blobPath dir s.name), none⟩

/-- All calls of a derivation that nothing stops. -/
def plan (b : Build) (dir : Path) (sections : List LoadableSection) : List Call :=
  [⟨b.toolchain.tool "readelf", ["-A", b.elf], none⟩,
    ⟨b.toolchain.tool "objdump", [b.elf, "-t"], none⟩,
    ⟨b.toolchain.tool "objdump", [b.elf, "-h"], none⟩]
    ++ sections.map (b.copyCall dir)

theorem filterMap_inOrder (b : Build) (dir : Path) :
    Listing.inOrder.filterMap b.listingCall? = b.plan dir [] := rfl

theorem plan_nil_append (b : Build) (dir : Path) (sections : List LoadableSection) :
    b.plan dir [] ++ sections.map (b.copyCall dir) = b.plan dir sections := rfl

theorem plan_mono {before sections : List LoadableSection} (h : before <+: sections) (b : Build)
    (dir : Path) : b.plan dir before <+: b.plan dir sections := by
  obtain ⟨after, rfl⟩ := h
  refine ⟨after.map (b.copyCall dir), ?_⟩
  rw [plan, plan, List.map_append, List.append_assoc]

/-! ## What a step starts -/

/-- **Asking for a listing** starts its tool, if that can be started. -/
theorem starts_source (b : Build) (bench : Bench) (t : FileTree) (l : Listing) :
    (b.source bench t).starts l =
      (b.listingCall? l).toList.filter fun c => (bench.ask t c.tool c.args).isOk := by
  unfold Source.starts source listingCall?
  dsimp only
  cases b.command? l with
  | none => rfl
  | some c =>
    dsimp only [Option.map_some, Option.toList_some]
    rw [List.filter_singleton]
    cases bench.ask t c.1 c.2 <;> rfl

theorem starts_source_of_ok {l : Listing} {text : String} (h : b.source bench t l = .ok text) :
    (b.source bench t).starts l = (b.listingCall? l).toList := by
  unfold Source.text source at h
  unfold Source.starts source listingCall?
  dsimp only at h ⊢
  cases hcommand : b.command? l with
  | none => rfl
  | some c =>
    rw [hcommand] at h
    dsimp only at h ⊢
    cases hask : bench.ask t c.1 c.2 with
    | error cause =>
      rw [hask] at h
      nomatch h
    | ok ending => rfl

/-- **Extracting a section** starts the copier, if that can be started. -/
theorem starts_extractor (b : Build) (bench : Bench) (turn : Nat) (dir : Path) (s : LoadableSection)
    (t : FileTree) : (b.extractor bench).starts turn s.name (blobPath dir s.name) t =
      [b.copyCall dir s].filter fun c => (bench.copy t c.tool c.args).isOk := by
  rw [List.filter_singleton]
  unfold Extractor.starts extractor copyCall
  dsimp only
  cases bench.copy t b.copier (b.copyArgs s.name (blobPath dir s.name)) <;> rfl

/-- Sections that are extracted have been copied, each by a call. -/
theorem startsFor_of_extracts {turn : Nat} {sections : List LoadableSection}
    (h : (b.extractor bench).Extracts dir turn sections t t') :
    (b.extractor bench).startsFor dir turn sections t = sections.map (b.copyCall dir) := by
  induction h with
  | nil => rfl
  | @cons turn s rest t₀ t₁ t₂ hcall _ ih =>
    obtain ⟨ending, hcopy, -⟩ := extractor_eq_ok_iff.1 hcall
    have hstarts : (b.extractor bench).starts turn s.name (blobPath dir s.name) t₀ = [b.copyCall dir s] := by
      have hok : (bench.copy t₀ (b.copyCall dir s).tool (b.copyCall dir s).args).isOk = true := by
        show (bench.copy t₀ b.copier (b.copyArgs s.name (blobPath dir s.name))).isOk = true
        rw [hcopy]
        rfl
      rw [starts_extractor, List.filter_singleton, hok, cond_true]
    rw [Extractor.startsFor, hstarts, hcall, ih]
    rfl

/-! ## How far the calls come -/

/-- The calls of a derivation by how it goes: all those of the plan that come before the step that
    fails, and the one of this step if its program can be started. -/
inductive CallsUpTo (storage : Storage) (b : Build) (bench : Bench) (o : Options) (dir : Path)
    (t : FileTree) : List Call → Prop where
  /-- A tool fails or a listing is rejected.  The linker map has no call. -/
  | listing {before after : List Listing} {l : Listing} {f : Failure}
    (horder : Listing.inOrder = before ++ l :: after)
    (hbefore : ∀ l' ∈ before, ∀ g, ¬ (b.source bench t).FailsAt o l' g)
    (hfails : (b.source bench t).FailsAt o l f) :
    CallsUpTo storage b bench o dir t (before.filterMap b.listingCall? ++
      (b.listingCall? l).toList.filter fun c => (bench.ask t c.tool c.args).isOk)
  /-- The blobs of earlier derivations cannot be cleared. -/
  | clearing {a : Analysis} {left : FileTree} {cause : IoFault}
    (ha : ((b.source bench t).analyze o).outcome = .ok a)
    (hclear : clearBlobs storage dir t = (left, .error cause)) :
    CallsUpTo storage b bench o dir t (b.plan dir [])
  /-- A section cannot be copied. -/
  | extraction {a : Analysis} {cleared t' t'' : FileTree} {before after : List LoadableSection}
    {s : LoadableSection} {failure : MetadataFailure}
    (ha : ((b.source bench t).analyze o).outcome = .ok a)
    (hclear : clearBlobs storage dir t = (cleared, .ok ()))
    (hsections : a.sections = before ++ s :: after)
    (hbefore : (b.extractor bench).Extracts dir 0 before cleared t')
    (hfails : b.extractor bench before.length s.name (blobPath dir s.name) t' = (t'', .error failure)) :
    CallsUpTo storage b bench o dir t (b.plan dir before ++
      [b.copyCall dir s].filter fun c => (bench.copy t' c.tool c.args).isOk)
  | all {a : Analysis} {cleared t' : FileTree}
    (ha : ((b.source bench t).analyze o).outcome = .ok a)
    (hclear : clearBlobs storage dir t = (cleared, .ok ()))
    (hrow : (b.extractor bench).Extracts dir 0 a.sections cleared t') :
    CallsUpTo storage b bench o dir t (b.plan dir a.sections)

/-- Listings whose stages do not fail have been printed. -/
theorem starts_of_not_failsAt {listings : List Listing}
    (h : ∀ l ∈ listings, ∀ f, ¬ (b.source bench t).FailsAt o l f) :
    listings.flatMap (b.source bench t).starts = listings.filterMap b.listingCall? := by
  rw [List.filterMap_eq_flatMap_toList]
  refine List.flatMap_congr fun l hl => ?_
  cases hsource : b.source bench t l with
  | error cause => exact absurd (Or.inl ⟨cause, hsource, rfl⟩) (h l hl _)
  | ok text => exact starts_source_of_ok hsource

theorem starts_of_analyze {a : Analysis} (dir : Path)
    (ha : ((b.source bench t).analyze o).outcome = .ok a) :
    ((b.source bench t).analyze o).started = b.plan dir [] := by
  obtain ⟨hasked, hnever⟩ := (Source.course_analyze (b.source bench t) o).completes ha
  rw [Source.logged_analyze, hasked, starts_of_not_failsAt fun l _ => hnever l, filterMap_inOrder b dir]

/-- **The calls of a derivation** keep to the plan up to the step that fails. -/
theorem callsUpTo_derive (storage : Storage) (b : Build) (bench : Bench) (o : Options) (dir : Path)
    (t : FileTree) : b.CallsUpTo storage bench o dir t
      (derive storage o (b.source bench t) (b.extractor bench) dir t).started := by
  have hcourse := course_derive storage o (b.source bench t) (b.extractor bench) dir t
  generalize derive storage o (b.source bench t) (b.extractor bench) dir t = d at hcourse
  cases hcourse with
  | @unanalysed f ha =>
    have hanalysis := Source.course_analyze (b.source bench t) o
    obtain ⟨before, l, hasked, hbefore, hfails⟩ := hanalysis.failsAt ha
    obtain ⟨after, horder⟩ := hanalysis.asked_prefix
    rw [hasked, List.append_assoc, List.singleton_append] at horder
    dsimp only
    rw [Source.logged_analyze, hasked, List.flatMap_append, List.flatMap_singleton,
      starts_of_not_failsAt hbefore, starts_source]
    exact .listing horder.symm hbefore hfails
  | @uncleared a left cause ha hclear =>
    dsimp only
    rw [starts_of_analyze dir ha]
    exact .clearing ha hclear
  | @unextracted a cleared t' t'' before after s failure ha hclear hsections hbefore hfails =>
    have hcopies : (b.extractor bench).startsFor dir 0 (before ++ [s]) cleared =
        before.map (b.copyCall dir) ++
          [b.copyCall dir s].filter fun c => (bench.copy t' c.tool c.args).isOk := by
      rw [hbefore.startsFor_append, startsFor_of_extracts hbefore, Nat.zero_add, Extractor.startsFor,
        Extractor.startsFor, starts_extractor, List.append_nil]
    dsimp only
    rw [starts_of_analyze dir ha, hcopies, ← List.append_assoc, plan_nil_append]
    exact .extraction ha hclear hsections hbefore hfails
  | @derived a cleared t' ha hclear hrow =>
    dsimp only
    rw [starts_of_analyze dir ha, startsFor_of_extracts hrow, plan_nil_append]
    exact .all ha hclear hrow

/-- **The calls of a derivation are a beginning of the plan** for the sections that the analysis
    found, if it came so far. -/
theorem CallsUpTo.isPrefix {calls : List Call} (h : b.CallsUpTo storage bench o dir t calls) :
    calls <+: b.plan dir ((b.source bench t).analyze o).sections := by
  have hone : ∀ (c : Call) (keep : Call → Bool), [c].filter keep <+: [c] := by
    intro c keep
    rw [List.filter_singleton]
    cases keep c
    · exact List.nil_prefix
    · exact List.prefix_refl _
  cases h with
  | @listing before after l f horder hbefore hfails =>
    refine List.IsPrefix.trans ?_ (plan_mono (List.nil_prefix) b dir)
    rw [← filterMap_inOrder, horder, List.filterMap_append, List.filterMap_cons]
    refine (List.prefix_append_right_inj _).2 ?_
    cases b.listingCall? l with
    | none => exact List.nil_prefix
    | some c => exact (hone c _).trans ⟨_, rfl⟩
  | @clearing a left cause ha hclear => exact plan_mono List.nil_prefix b dir
  | @extraction a cleared t' t'' before after s failure ha hclear hsections hbefore hfails =>
    rw [Inquiry.sections, ha]
    dsimp only
    have hbegins : before ++ [s] <+: a.sections := ⟨after, by simp [hsections]⟩
    refine List.IsPrefix.trans ?_ (plan_mono hbegins b dir)
    rw [← plan_nil_append, ← plan_nil_append b dir (before ++ [s]), List.map_append,
      ← List.append_assoc]
    exact (List.prefix_append_right_inj _).2 (hone _ _)
  | @all a cleared t' ha hclear hrow =>
    have hsections : ((b.source bench t).analyze o).sections = a.sections := by
      rw [Inquiry.sections, ha]
    exact hsections ▸ List.prefix_refl _

end Build
end FaultPlan
