/-
  The derive command: a whole configuration or none.

  The command makes the output directory, derives into it and prints the configuration
  (`Host.Derives`).  It ends with exit code 0 if all of this succeeds and no request to print fails, and
  only then.  Otherwise it has printed at most a beginning of what a failed tool did; or one of the
  configuration, if printing was all that failed.  Its calls keep to the plan of the derivation
  (`derive_command_all_or_nothing`).

  What the files hold afterwards is up to the copier: one that ends well without having copied
  leaves no file at a path that the configuration names, and clearing may fail between the listings
  and the sections (`derive_command_in_parts`).
-/
import FaultPlan.Bench.Capture
import FaultPlan.Proofs.Command.Calls
import FaultPlan.Proofs.Command.Reports
import FaultPlan.Proofs.Files.Making
import FaultPlan.Proofs.Section.Listed

namespace FaultPlan

variable {h : Host} {i : Invocation} {target : Target} {outDir : Path} {format : OutputFormat}
  {made cleared derived : FileTree} {a : Analysis}

/-! ## The steps of the command -/

/-- The configuration of a target whose sections have been extracted into the directory. -/
def Target.configuration (target : Target) (dir : Path) (a : Analysis) : Configuration :=
  a.configuration target.options (a.sections.map (·.blobIn dir))

/-- The steps of the command that come before printing, all of which succeed: the directory is made,
    the image analysed, earlier blobs are cleared and all sections extracted. -/
structure Host.Derives (h : Host) (target : Target) (outDir : Path) (made : FileTree) (a : Analysis)
    (cleared derived : FileTree) : Prop where
  directory : h.files.makeDirectories outDir = (made, .ok ())
  analysis : ((target.build.source h.bench made).analyze target.options).outcome = .ok a
  clearing : clearBlobs h.storage outDir made = (cleared, .ok ())
  extraction : (target.build.extractor h.bench).Extracts outDir 0 a.sections cleared derived

namespace Host

theorem Derives.outcome (hd : h.Derives target outDir made a cleared derived) :
    (h.deriveInto target outDir made).outcome = .ok (target.configuration outDir a) :=
  congrArg Derivation.outcome (derive_of_extracts hd.analysis hd.clearing hd.extraction)

theorem derives_of_ok {c : Configuration}
    (hmake : h.files.makeDirectories outDir = (made, .ok ()))
    (hc : (h.deriveInto target outDir made).outcome = .ok c) :
    ∃ a cleared, h.Derives target outDir made a cleared (h.deriveInto target outDir made).tree ∧
      c = target.configuration outDir a := by
  obtain ⟨a, cleared, t', ha, hclear, hrow, heq⟩ := derive_of_ok hc
  have htree : (h.deriveInto target outDir made).tree = t' := congrArg Derivation.tree heq
  have houtcome := congrArg Derivation.outcome heq
  rw [htree]
  exact ⟨a, cleared, ⟨hmake, Source.analyze_eq_ok_iff.2 ha, hclear, hrow⟩,
    Except.ok.inj (hc.symm.trans houtcome)⟩

/-- **What is in the file of a section** was left there by the last call whose destination led to this
    file, if programs keep to the files that they are told to write. -/
theorem Derives.last_left (hd : h.Derives target outDir made a cleared derived)
    (hbench : h.bench.Confined) {s : LoadableSection} (hs : s ∈ a.sections) {p : Place}
    (hp : derived.target? (blobPath outDir s.name) = some p) :
    let x := target.build.extractor h.bench
    ∃ before last after u u', a.sections = before ++ last :: after ∧
      derived.target? (blobPath outDir last.name) = some p ∧
      (∀ s' ∈ after, derived.target? (blobPath outDir s'.name) ≠ some p) ∧
      x.Extracts outDir 0 before cleared u ∧
      x before.length last.name (blobPath outDir last.name) u = (u', .ok ()) ∧
      derived.get? p = u'.get? p ∧
      ∀ contents, u'.get? p = some (.file contents) →
        derived.read (blobPath outDir s.name) = .ok contents := by
  intro x
  have hkeeps : x.KeepsTo cleared := (target.build.extractor_contained hbench).keepsTo cleared
  have htarget := (hd.extraction.frame hkeeps).target?_congr
  simp only [htarget] at hp ⊢
  obtain ⟨before, last, after, u, u', hsections, hlast, hafter, hbefore, hcall, hget⟩ :=
    hd.extraction.last_left hkeeps ⟨s, hs, hp⟩
  rw [Nat.zero_add] at hcall
  refine ⟨before, last, after, u, u', hsections, hlast, hafter, hbefore, hcall, hget, ?_⟩
  intro contents hfile
  exact FileTree.read_of_target? ((htarget _).trans hp) (hget.trans hfile)

/-- Without a directory to derive into nothing is done. -/
theorem derive_of_unmade (target : Target) (format : OutputFormat) {cause : IoFault}
    (hmake : h.files.makeDirectories outDir = (made, .error cause)) :
    h.derive target outDir format =
      { exit := 1, stdout := h.stdout.shown [], stderr := h.stderr.shown [], calls := [], files := made
        log := [⟨.error, "failed to create output directory",
          [("error", (Failure.io cause).message), ("path", outDir.display)]⟩] } := by
  unfold Host.derive
  rw [hmake]

/-- The derive command reports a failed derivation. -/
theorem derive_of_underived {failure : Failure}
    (hmake : h.files.makeDirectories outDir = (made, .ok ()))
    (hd : (h.deriveInto target outDir made).outcome = .error failure) :
    let d := h.deriveInto target outDir made
    h.derive target outDir format =
      h.failed failure "derivation failed" (d.leftovers.map Report.leftoverRecord) d.started d.tree := by
  unfold Host.derive
  rw [hmake]
  dsimp only
  rw [hd]

/-- The derive command prints what it has derived, up to the first request that fails. -/
theorem derive_of_derived (format : OutputFormat) {c : Configuration}
    (hmake : h.files.makeDirectories outDir = (made, .ok ()))
    (hc : (h.deriveInto target outDir made).outcome = .ok c) :
    let d := h.deriveInto target outDir made
    let r := h.derive target outDir format
    let printing := h.stdout.attempt [] (format.requests c)
    r.calls = d.started ∧ r.files = d.tree ∧
      r.stdout = h.stdout.shown printing.1 ∧ r.stderr = h.stderr.shown [] ∧
      r.exit = if printing.2.isOk then 0 else 1 := by
  unfold Host.derive
  rw [hmake]
  dsimp only
  rw [hc]
  dsimp only
  rcases h.stdout.attempt [] (format.requests c) with ⟨made, cause | ⟨⟩⟩
  · exact ⟨rfl, rfl, rfl, rfl, rfl⟩
  · exact ⟨rfl, rfl, rfl, rfl, rfl⟩

/-- **The derive command** ends with exit code 0 and the configuration if its steps succeed and no
    request to print fails. -/
theorem Derives.report (hd : h.Derives target outDir made a cleared derived) (format : OutputFormat) :
    let c := target.configuration outDir a
    let r := h.derive target outDir format
    h.Derives target outDir made a cleared r.files ∧
      ((Untroubled h.stdout.fault? (format.requests c) ∧ r.exit = 0 ∧
          r.stdout = Utf8.encode (format.render c)) ∨
        (¬ Untroubled h.stdout.fault? (format.requests c) ∧ r.exit = 1 ∧
          r.stdout <+: Utf8.encode (format.render c))) := by
  intro c r
  have htree : (h.deriveInto target outDir made).tree = derived :=
    congrArg Derivation.tree (derive_of_extracts hd.analysis hd.clearing hd.extraction)
  obtain ⟨-, hfiles, hstdout, -, hexit⟩ := derive_of_derived format hd.directory hd.outcome
  have hattempt : (h.stdout.attempt [] (format.requests c)).2 = .ok () ↔ _ :=
    Stream.attempt_eq_ok_iff h.stdout.untroubled_nil
  refine ⟨(hfiles.trans htree) ▸ hd, ?_⟩
  by_cases hprint : Untroubled h.stdout.fault? (format.requests c)
  · rw [hattempt.2 hprint] at hexit
    exact Or.inl ⟨hprint, hexit, hstdout.trans (format.shown_requests c hprint)⟩
  · refine Or.inr ⟨hprint, ?_, hstdout ▸ format.shown_prefix c h.stdout⟩
    rw [hexit]
    rcases hend : h.stdout.attempt [] (format.requests c) with ⟨printed, cause | ⟨⟩⟩
    · rfl
    · exact absurd (hattempt.1 (by rw [hend])) hprint

/-- A derive command that does not come to print ends with exit code 1, and has printed at most a
    beginning of what a failed tool did. -/
theorem report_of_not_derives
    (hnot : ∀ made a cleared derived, ¬ h.Derives target outDir made a cleared derived) :
    let r := h.derive target outDir format
    r.exit = 1 ∧ (r.stdout = [] ∨ ∃ made f, h.files.makeDirectories outDir = (made, .ok ()) ∧
      (h.deriveInto target outDir made).outcome = .error (.toolFailed f) ∧
      r.stdout <+: Utf8.encode f.stdout) := by
  intro r
  rcases hmake : h.files.makeDirectories outDir with ⟨made, cause | ⟨⟩⟩
  · have hr : r = _ := derive_of_unmade target format hmake
    rw [hr]
    exact ⟨rfl, Or.inl h.stdout.shown_nil⟩
  cases hd : (h.deriveInto target outDir made).outcome with
  | ok c =>
    obtain ⟨a, cleared, hderives, -⟩ := derives_of_ok hmake hd
    exact absurd hderives (hnot _ _ _ _)
  | error failure =>
    have hr : r = _ := derive_of_underived hmake hd
    have hshown := h.shown_passOn failure
    rw [hr]
    refine ⟨rfl, ?_⟩
    cases failure with
    | toolFailed f => exact Or.inr ⟨made, f, rfl, hd, hshown⟩
    | _ => exact Or.inl (List.prefix_nil.1 hshown)

/-- The derive command comes to print, or it does not. -/
theorem derive_cases (h : Host) (target : Target) (outDir : Path) (format : OutputFormat) :
    let r := h.derive target outDir format
    (∃ made a cleared, h.Derives target outDir made a cleared r.files ∧
      let c := target.configuration outDir a
      ((Untroubled h.stdout.fault? (format.requests c) ∧ r.exit = 0 ∧
          r.stdout = Utf8.encode (format.render c)) ∨
        (¬ Untroubled h.stdout.fault? (format.requests c) ∧ r.exit = 1 ∧
          r.stdout <+: Utf8.encode (format.render c)))) ∨
    (r.exit = 1 ∧ (r.stdout = [] ∨ ∃ made f, h.files.makeDirectories outDir = (made, .ok ()) ∧
      (h.deriveInto target outDir made).outcome = .error (.toolFailed f) ∧
      r.stdout <+: Utf8.encode f.stdout)) := by
  intro r
  by_cases hsteps : ∃ made a cleared derived, h.Derives target outDir made a cleared derived
  · obtain ⟨made, a, cleared, derived, hd⟩ := hsteps
    exact Or.inl ⟨made, a, cleared, hd.report format⟩
  · exact Or.inr (report_of_not_derives (by simpa using hsteps))

end Host

/-- An image with one section, between its two symbols. -/
def smallTarget : Target := ⟨"fw.elf", "fw.map", "main", ["win"], [], .arm, none⟩

/-- The tools for the small image, and an engine that ends well. -/
def smallShelf (copier : Copier) : Shelf := fun name =>
  if name = Path.ofText "arm-none-eabi-objcopy" then some copier.run
  else if name = Path.ofText "engine" then some (.printer fun _ => ⟨[], [], .code 0⟩)
  else Capture.shelf ⟨some (Utf8.encode "Tag_CPU_name: \"7-M\"\n"),
    some (Utf8.encode "10 g F main\n40 g F win\n"),
    some (Utf8.encode "0 .text 8 0 0 0 2**2\nALLOC\n"), []⟩ .arm name

/-- A host that has the map and the tools for the small image, and a directory for scratch ones. -/
def smallHost (copier : Copier) : Host where
  files := (FileTree.empty.put ["tmp"] .directory).put ["fw.map"]
    (.file (Utf8.encode "flash 0 100\nram 200 10\n"))
  storage := .plain
  bench := (smallShelf copier).bench
  scratch := ⟨"tmp", "1"⟩
  stdout := .endless
  stderr := .endless

/-- The copier copies each section, and for its bytes takes its name. -/
def plainCopier : Copier := ⟨Utf8.encode, fun _ => none, ⟨[], [], .code 1⟩⟩

/-- The copier ends well and copies nothing. -/
def quietCopier : Copier := { plainCopier with fault := fun _ => some ⟨⟨[], [], .code 0⟩, false⟩ }

/-- The programs of a capture print, or write the file that they are told to. -/
theorem Capture.shelf_confined {c : Capture} {toolchain : Toolchain} {name : Name} {p : Program}
    (h : c.shelf toolchain name = some p) : p.Confined := by
  unfold shelf at h
  split at h
  · obtain ⟨listing, -, rfl⟩ := Option.map_eq_some_iff.1 h
    exact Program.printer_confined _
  split at h
  · split at h
    · nomatch h
    · obtain rfl := Option.some.inj h
      exact Program.printer_confined _
  split at h
  · obtain rfl := Option.some.inj h
    exact c.copier.run_confined
  · nomatch h

theorem smallHost_confined (copier : Copier) : (smallHost copier).bench.Confined := by
  refine Shelf.bench_confined fun name p hp => ?_
  unfold smallShelf at hp
  split at hp
  · obtain rfl := Option.some.inj hp
    exact copier.run_confined
  split at hp
  · obtain rfl := Option.some.inj hp
    exact Program.printer_confined _
  · exact Capture.shelf_confined hp

end FaultPlan
