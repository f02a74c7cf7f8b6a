/-
  The engine is handed what was derived, and never refuses it.

  A derived configuration is usable, so the check before the launch never fails
  (`Run.ofDerivation_derive`), and a run ends as its derivation did or as the launch did
  (`run_of_make`).
-/
import FaultPlan.Proofs.Run.Derived
import FaultPlan.Proofs.Section.Displays
import FaultPlan.Run

namespace FaultPlan

open Engine (Arguments)

variable {ε : Type} {storage : Storage} {o : Options} {source : Source} {x : Extractor} {dir : Path}
  {t : FileTree}

/-- What the engine is to read for an analysed image: the findings of the analysis, each section with
    the path of its blob in the directory as that is displayed, and the time limit of the options. -/
def Analysis.engineArguments (a : Analysis) (o : Options) (dir : Path) : Arguments where
  start := a.survey.start
  halts := a.survey.halts
  symbols := []
  sections := a.sections.map fun s => ((blobPath dir s.name).display, s.address)
  flash := a.layout.flash
  ram := a.layout.ram
  ignores := a.survey.ignores
  timeout := o.timeout.getD 0
  isa := a.isa

/-- What the engine reads in the arguments of a derived configuration. -/
theorem exists_yields_of_derive {c : Configuration}
    (h : (derive storage o source x dir t).outcome = .ok c) :
    ∃ a, source.Yields o a ∧ Arguments.parse c.arguments = .ok (a.engineArguments o dir) := by
  obtain ⟨a, ha, rfl⟩ := derive_eq_ok h
  refine ⟨a, ha, ?_⟩
  rw [(ha.usable _).parse_arguments, Configuration.engineArguments, Analysis.configuration,
    List.map_map]
  rfl

/-- After a derivation the engine is launched with the derived arguments, or not at all. -/
theorem Run.ofDerivation_derive (launch : Launcher ε) (engine : Path) :
    let d := derive storage o source x dir t
    Run.ofDerivation launch engine d = match d.outcome with
      | .error failure => ⟨some d, none, d.started, d.tree, .error failure⟩
      | .ok c =>
        let r := launch engine c.arguments d.tree
        ⟨some d, some c.arguments, d.started ++ r.started, r.tree,
          r.outcome.mapError (.engineLaunch engine.display)⟩ := by
  intro d
  cases hd : d.outcome with
  | error failure => rw [Run.ofDerivation, hd]
  | ok c =>
    obtain ⟨a, -, hparse⟩ := exists_yields_of_derive hd
    rw [Run.ofDerivation, hd]
    dsimp only
    rw [hparse]

/-- **A run** derives into the scratch directory that it made, and then launches the engine with the
    derived arguments, or not at all; what is left of the directory is taken away at the end. -/
theorem run_of_make (storage : Storage) (o : Options) (source : FileTree → Source) (x : Extractor)
    (launch : Launcher ε) (engine : Path) {scratch : Scratch} {place : Place} {begun : FileTree}
    (h : scratch.make t = .ok (place, begun)) :
    let d := derive storage o (source begun) x scratch.path begun
    run storage o source x launch engine scratch t = match d.outcome with
      | .error failure =>
        ⟨some d, none, d.started, storage.sweep d.tree place, .error failure⟩
      | .ok c =>
        let r := launch engine c.arguments d.tree
        ⟨some d, some c.arguments, d.started ++ r.started, storage.sweep r.tree place,
          r.outcome.mapError (.engineLaunch engine.display)⟩ := by
  intro d
  have hrun : run storage o source x launch engine scratch t =
      let r := Run.ofDerivation launch engine d
      { r with tree := storage.sweep r.tree place } := by
    unfold run
    rw [h]
  rw [hrun, Run.ofDerivation_derive]
  cases d.outcome <;> rfl

/-- A run that has no directory to derive into does nothing. -/
theorem run_of_not_make {source : FileTree → Source} {launch : Launcher ε} {engine : Path}
    {scratch : Scratch} {cause : IoFault} (h : scratch.make t = .error cause) :
    run storage o source x launch engine scratch t = ⟨none, none, [], t, .error (.io cause)⟩ := by
  unfold run
  rw [h]

/-- A run never ends with a refusal: the derivation has none to give, the check before the launch
    never fails, and a launch that fails is a failure of its own. -/
theorem not_isRefusal_of_run {source : FileTree → Source} {launch : Launcher ε} {engine : Path}
    {scratch : Scratch} {f : Failure}
    (h : (run storage o source x launch engine scratch t).outcome = .error f) : ¬ f.IsRefusal := by
  cases hmake : scratch.make t with
  | error cause =>
    rw [run_of_not_make hmake] at h
    obtain rfl := Except.error.inj h
    rintro ⟨fault, hfault⟩
    nomatch hfault
  | ok made =>
    rw [run_of_make storage o source x launch engine hmake] at h
    dsimp only at h
    split at h
    · next failure hd =>
      obtain rfl := Except.error.inj h
      exact not_isRefusal_of_derive hd
    · obtain ⟨cause, -, rfl⟩ := mapError_eq_error_iff.1 h
      rintro ⟨fault, hfault⟩
      nomatch hfault

/-- **A derived configuration satisfies the engine.**  The engine reads in its arguments what the
    analysis of the same source found, each section with the path of its blob as it is displayed, and
    the time limit of the options.  What is displayed is the path of the blob exactly if the directory
    is a text.  A run therefore never ends with a refused argument list: the engine is launched with
    exactly the arguments of the derived configuration whenever there is one, and is started with them
    unless it cannot be started. -/
theorem derived_arguments_accepted (storage : Storage) (o : Options) (x : Extractor) :
    (∀ (source : Source) (dir : Path) (t : FileTree) (c : Configuration),
      (derive storage o source x dir t).outcome = .ok c →
      ∃ a, (source.analyze o).outcome = .ok a ∧
        Arguments.parse c.arguments = .ok {
          start := a.survey.start
          halts := a.survey.halts
          symbols := []
          sections := a.sections.map fun s => ((blobPath dir s.name).display, s.address)
          flash := a.layout.flash
          ram := a.layout.ram
          ignores := a.survey.ignores
          timeout := o.timeout.getD 0
          isa := a.isa } ∧
        c.blobs = a.sections.map (fun s => ⟨s.name, s.address, blobPath dir s.name⟩) ∧
        ∀ s, Path.ofText (blobPath dir s).display = blobPath dir s ↔ ∃ text : String, dir = text) ∧
    ∀ (ε : Type) (source : FileTree → Source) (launch : Launcher ε) (engine : Path)
      (scratch : Scratch) (t : FileTree),
      let r := run storage o source x launch engine scratch t
      (∀ fault, r.outcome ≠ .error (.invalidArguments fault)) ∧
      match scratch.make t with
      | .error cause =>
        r = ⟨none, none, [], t, .error (.io cause)⟩
      | .ok (place, begun) =>
        let d := derive storage o (source begun) x scratch.path begun
        r = match d.outcome with
          | .error failure =>
            ⟨some d, none, d.started, storage.sweep d.tree place, .error failure⟩
          | .ok c =>
            let launched := launch engine c.arguments d.tree
            ⟨some d, some c.arguments, d.started ++ launched.started,
              storage.sweep launched.tree place,
              launched.outcome.mapError (.engineLaunch engine.display)⟩ := by
  constructor
  · intro source dir t c h
    obtain ⟨a, ha, hc⟩ := derive_eq_ok h
    obtain ⟨a', ha', hparse⟩ := exists_yields_of_derive h
    obtain rfl : a = a' := Except.ok.inj
      ((Source.analyze_eq_ok_iff.2 ha).symm.trans (Source.analyze_eq_ok_iff.2 ha'))
    refine ⟨a, Source.analyze_eq_ok_iff.2 ha, hparse, ?_, ofText_display_blobPath_iff⟩
    rw [hc]
    rfl
  · intro ε source launch engine scratch t r
    refine ⟨fun fault h => not_isRefusal_of_run h ⟨fault, rfl⟩, ?_⟩
    cases hmake : scratch.make t with
    | error cause => exact run_of_not_make hmake
    | ok made => exact run_of_make storage o source x launch engine hmake

/-- A small image with a data object and one section. -/
theorem derived_arguments_accepted_small :
    ∃ c, (derive .plain ((Options.new "main").withHalt "win")
        (Source.ofTexts "Tag_CPU_name:\"6-M\"" "flash 0 100\nram 200 10\n"
          "10 g F main\n20 g O key\n40 g F win\n" "0 .text 8 0 0 0 2\nALLOC\n")
        (.ofAct fun _ _ _ t => (t, .ok ())) "out" FileTree.empty).outcome = .ok c ∧
      c.arguments = ["--start", "0x10", "--halt", "win", "0x40", "--ignore", "0x20", "0x40",
        "--flash", "0x0", "0x100", "--ram", "0x200", "0x10", "--armv6m",
        "--section", "out/code_section.text", "0x0"] ∧
      ∃ e, Arguments.parse c.arguments = .ok e ∧
        e.sections = [("out/code_section.text", 0)] ∧
        Path.ofText "out/code_section.text" = blobPath "out" ".text" := by
  have h : (derive .plain ((Options.new "main").withHalt "win")
      (Source.ofTexts "Tag_CPU_name:\"6-M\"" "flash 0 100\nram 200 10\n"
        "10 g F main\n20 g O key\n40 g F win\n" "0 .text 8 0 0 0 2\nALLOC\n")
      (.ofAct fun _ _ _ t => (t, .ok ())) "out" FileTree.empty).outcome
      = .ok ⟨.armv6m, ⟨⟨0, 0x100⟩, ⟨0x200, 0x10⟩⟩, 0x10, [⟨"win", 0x40⟩], [⟨0x20, 0x40⟩],
        [⟨".text", 0, "out/code_section.text"⟩], none⟩ := by rfl
  obtain ⟨a, ha, hparse, -, hpath⟩ := (derived_arguments_accepted .plain _ _).1 _ _ _ _ h
  have hsections : a.sections = [⟨".text", 0⟩] := by
    have hanalysis : (Source.analyze (Source.ofTexts "Tag_CPU_name:\"6-M\""
        "flash 0 100\nram 200 10\n" "10 g F main\n20 g O key\n40 g F win\n"
        "0 .text 8 0 0 0 2\nALLOC\n") ((Options.new "main").withHalt "win")).outcome
        = .ok ⟨.armv6m, ⟨⟨0, 0x100⟩, ⟨0x200, 0x10⟩⟩,
          ⟨0x10, [⟨"win", 0x40⟩], [⟨0x20, 0x40⟩]⟩, [⟨".text", 0⟩]⟩ := by rfl
    rw [← Except.ok.inj (hanalysis.symm.trans ha)]
  refine ⟨_, h, by decide, _, hparse, ?_, (hpath ".text").2 ⟨"out", rfl⟩⟩
  rw [hsections]
  show [((blobPath "out" ".text").display, (0 : UInt64))] = _
  decide

/-- Below a directory that is no text, what the engine reads is no blob's path; and an engine that
    cannot be started is handed nothing. -/
theorem derived_arguments_lossy_or_unsent :
    let o := (Options.new "main").withHalt "win"
    let source := Source.ofTexts "Tag_CPU_name:\"6-M\"" "flash 0 100\nram 200 10\n"
      "10 g F main\n40 g F win\n" "0 .text 8 0 0 0 2\nALLOC\n"
    let x := Extractor.ofAct fun _ _ _ t => (t, .ok ())
    let dir := Path.ofText "out" ++ [0xFF]
    (∃ c e, (derive .plain o source x dir FileTree.empty).outcome = .ok c ∧
      c.blobs.map (·.path) = [blobPath dir ".text"] ∧ Arguments.parse c.arguments = .ok e ∧
      e.sections = [("out\uFFFD/code_section.text", 0)] ∧
      Path.ofText "out\uFFFD/code_section.text" ≠ blobPath dir ".text") ∧
    let r := run .plain o (fun _ => source) x
      (fun _ _ t => (⟨t, [], .error .notFound⟩ : Launched Unit)) "engine" ⟨"", "0"⟩ FileTree.empty
    (∃ d c, r.derivation = some d ∧ d.outcome = .ok c) ∧ r.started = [] ∧
      r.outcome = .error (.engineLaunch "engine" .notFound) := by
  intro o source x dir
  have h : (derive .plain o source x dir FileTree.empty).outcome
      = .ok ⟨.armv6m, ⟨⟨0, 0x100⟩, ⟨0x200, 0x10⟩⟩, 0x10, [⟨"win", 0x40⟩], [],
        [⟨".text", 0, blobPath dir ".text"⟩], none⟩ := by rfl
  obtain ⟨a, ha, hc⟩ := derive_eq_ok h
  refine ⟨⟨_, _, h, rfl, hc ▸ (ha.usable _).parse_arguments, ?_, by decide⟩, ?_⟩
  · show [((blobPath dir ".text").display, (0 : UInt64))] = _
    decide
  let begun := FileTree.empty.put ["faultcfg-0"] .directory
  have hmake : Scratch.make ⟨"", "0"⟩ FileTree.empty = .ok (["faultcfg-0"], begun) := by rfl
  have hd : (derive .plain o source x "faultcfg-0" begun).outcome
      = .ok ⟨.armv6m, ⟨⟨0, 0x100⟩, ⟨0x200, 0x10⟩⟩, 0x10, [⟨"win", 0x40⟩], [],
        [⟨".text", 0, "faultcfg-0/code_section.text"⟩], none⟩ := by rfl
  have hstarted : (derive .plain o source x "faultcfg-0" begun).started = [] := by rfl
  have hrun := run_of_make .plain o (fun _ => source) x
    (fun _ _ t => (⟨t, [], .error .notFound⟩ : Launched Unit)) "engine" hmake
  have hpath : Scratch.path ⟨"", "0"⟩ = "faultcfg-0" := by rfl
  dsimp only at hrun
  rw [hpath, hd, hstarted] at hrun
  intro r
  rw [show r = _ from hrun]
  refine ⟨⟨_, _, rfl, hd⟩, rfl, ?_⟩
  show Except.error (Failure.engineLaunch (Path.ofText "engine").display .notFound) = _
  rw [Path.display_ofText]

end FaultPlan
