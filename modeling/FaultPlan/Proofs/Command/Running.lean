/-
  The run command: the engine's answer, and no trace.

  The command derives into a scratch directory, hands the arguments of the configuration to the engine
  and takes the directory away (`Host.run_of_underived`, `Host.run_of_derived`).  If programs keep to
  the file that they are told to write, what a derivation changes lies in the scratch directory, so that
  the files are afterwards what they were before, unless the directory cannot be removed
  (`Host.deriveInto_scratch`, `Host.Ready`, `run_command_transparent`).

  While the engine runs, the blobs are there for it to read, as the copier has left them.  A copier
  that ends well without having copied leaves the engine without them, and so does a scratch directory
  whose path is no text: the engine is told another path (`run_command_not_transparent`).
-/
import FaultPlan.Proofs.Command.Deriving
import FaultPlan.Proofs.Files.Scratch
import FaultPlan.Proofs.Run.Arguments
import FaultPlan.Proofs.Run.Namespace

namespace FaultPlan

variable {h : Host} {i : Invocation} {target : Target} {engine : Path} {place : Place}
  {t begun derived : FileTree} {a : Analysis} {b : Build}

/-! ## Engines and tools -/

/-- The program is none of the three tools of the build. -/
def Build.NoTool (b : Build) (program : Path) : Prop :=
  ∀ tool ∈ ["readelf", "objdump", "objcopy"], program ≠ Path.ofText (b.toolchain.tool tool)

/-- Only tools are called by the plan. -/
theorem Build.NoTool.ne_of_mem_plan {dir : Path} {sections : List LoadableSection} {c : Call}
    (hengine : b.NoTool engine) (hc : c ∈ b.plan dir sections) : c.tool ≠ engine := by
  rintro rfl
  rcases List.mem_append.1 hc with hc | hc
  · simp only [List.mem_cons, List.not_mem_nil, or_false] at hc
    rcases hc with rfl | rfl | rfl
    · exact hengine "readelf" (by decide) rfl
    · exact hengine "objdump" (by decide) rfl
    · exact hengine "objdump" (by decide) rfl
  · obtain ⟨s, -, rfl⟩ := List.mem_map.1 hc
    exact hengine "objcopy" (by decide) rfl

/-! ## Section files that an engine reads -/

theorem mem_sectionsNamed_cons {found : Path × Option Bytes} {arg : Path} {args : List Path}
    (h : found ∈ sectionsNamed t args) : found ∈ sectionsNamed t (arg :: args) := by
  cases args with
  | nil => nomatch h
  | cons path rest =>
    rw [sectionsNamed]
    split
    · exact List.mem_cons_of_mem _ h
    · exact h

theorem mem_sectionsNamed {path : Path} {rest args : List Path}
    (h : Path.ofText "--section" :: path :: rest <:+ args) :
    (path, (t.read path).toOption) ∈ sectionsNamed t args := by
  induction args with
  | nil => nomatch List.suffix_nil.1 h
  | cons arg args ih =>
    rcases List.suffix_cons_iff.1 h with heq | h
    · rw [← heq, sectionsNamed, if_pos rfl]
      exact List.mem_cons_self
    · exact mem_sectionsNamed_cons (ih h)

/-- An engine looks for each blob of its configuration at the path that is displayed. -/
theorem Configuration.mem_sectionsNamed {c : Configuration} {blob : SectionBlob}
    (h : blob ∈ c.blobs) (t : FileTree) :
    (Path.ofText blob.path.display, (t.read (Path.ofText blob.path.display)).toOption) ∈
      sectionsNamed t (c.arguments.map Path.ofText) := by
  have hgroup : Engine.Group.load blob.path.display blob.address ∈ c.groups := by
    refine List.mem_append_left _ (List.mem_append_right _ ?_)
    exact List.mem_map.2 ⟨blob, h, rfl⟩
  obtain ⟨before, after, hgroups⟩ := List.append_of_mem hgroup
  have harguments : c.arguments = before.flatMap Engine.Group.tokens ++
      "--section" :: blob.path.display :: Hex.render blob.address ::
        after.flatMap Engine.Group.tokens := by
    rw [arguments, hgroups, List.flatMap_append, List.flatMap_cons]
    rfl
  have hsuffix : Path.ofText "--section" :: Path.ofText blob.path.display ::
      (Hex.render blob.address :: after.flatMap Engine.Group.tokens).map Path.ofText <:+
        c.arguments.map Path.ofText := by
    refine ⟨(before.flatMap Engine.Group.tokens).map Path.ofText, ?_⟩
    rw [harguments, List.map_append]
    rfl
  exact FaultPlan.mem_sectionsNamed hsuffix

/-! ## Runs -/

namespace Host

theorem run_of_unmade (target : Target) (engine : Path) {cause : IoFault}
    (hmake : h.scratch.make h.files = .error cause) :
    h.run target engine = h.failed (.io cause) "run failed" [] [] h.files := by
  unfold Host.run
  rw [run_of_not_make hmake]
  rfl

/-- A run with a scratch directory goes on from the derivation into it. -/
theorem run_eq_of_make (target : Target) (engine : Path)
    (hmake : h.scratch.make h.files = .ok (place, begun)) :
    let d := h.deriveInto target h.scratch.path begun
    FaultPlan.run h.storage target.options (target.build.source h.bench)
        (target.build.extractor h.bench) h.launcher engine h.scratch h.files =
      match d.outcome with
      | .error failure => ⟨some d, none, d.started, h.storage.sweep d.tree place, .error failure⟩
      | .ok c =>
        let r := h.launcher engine c.arguments d.tree
        ⟨some d, some c.arguments, d.started ++ r.started, h.storage.sweep r.tree place,
          r.outcome.mapError (.engineLaunch engine.display)⟩ :=
  run_of_make h.storage _ _ _ h.launcher engine hmake

/-- The run command reports a failed derivation. -/
theorem run_of_underived {failure : Failure}
    (hmake : h.scratch.make h.files = .ok (place, begun)) :
    let d := h.deriveInto target h.scratch.path begun
    d.outcome = .error failure →
      h.run target engine = h.failed failure "run failed" (d.leftovers.map Report.leftoverRecord)
        d.started (h.storage.sweep d.tree place) := by
  intro d hd
  unfold Host.run
  rw [run_eq_of_make target engine hmake]
  dsimp only
  rw [hd]
  rfl

/-- The run command launches the engine with the derived arguments, which no check refuses. -/
theorem run_of_derived {c : Configuration} (engine : Path)
    (hmake : h.scratch.make h.files = .ok (place, begun)) :
    let d := h.deriveInto target h.scratch.path begun
    let r := h.run target engine
    let args := c.arguments.map Path.ofText
    d.outcome = .ok c → match h.bench.ask d.tree engine args with
      | .error cause => r = h.failed (.engineLaunch engine.display cause) "run failed"
          (d.leftovers.map Report.leftoverRecord) d.started (h.storage.sweep d.tree place)
      | .ok ending =>
        r.exit = ending.status.code?.getD 1 ∧
          r.calls = d.started ++ [⟨engine, args, some (sectionsNamed d.tree args)⟩] ∧
          r.files = h.storage.sweep d.tree place := by
  intro d r args hd
  have hr : r = h.run target engine := rfl
  clear_value r
  unfold Host.run at hr
  rw [run_eq_of_make target engine hmake] at hr
  dsimp only at hr
  rw [hd] at hr
  dsimp only [launcher] at hr
  cases hask : h.bench.ask d.tree engine args with
  | error cause =>
    rw [hask] at hr
    simpa [Except.mapError] using hr
  | ok ending =>
    rw [hask] at hr
    subst hr
    exact ⟨rfl, rfl, rfl⟩

/-- The steps of the command that come before the engine, all of which succeed: the image is
    analysed, the new scratch directory is listed to its end, so that there is nothing in it to be
    cleared, and all sections are extracted into it. -/
structure Ready (h : Host) (target : Target) (place : Place) (begun : FileTree) (a : Analysis)
    (derived : FileTree) : Prop where
  analysis : ((target.build.source h.bench begun).analyze target.options).outcome = .ok a
  listing : (h.storage.list begun place).fault? = none
  extraction : (target.build.extractor h.bench).Extracts h.scratch.path 0 a.sections begun derived

theorem Ready.derives (hready : h.Ready target place begun a derived)
    (hmade : h.scratch.Made h.files place begun) :
    let d := h.deriveInto target h.scratch.path begun
    d.outcome = .ok (target.configuration h.scratch.path a) ∧ d.tree = derived := by
  intro d
  have hclear : clearBlobs h.storage h.scratch.path begun = (begun, .ok ()) := by
    rw [hmade.clearBlobs, hready.listing]
  have hd : d = _ := derive_of_extracts hready.analysis hclear hready.extraction
  rw [hd]
  exact ⟨rfl, rfl⟩

theorem ready_of_ok {c : Configuration} (hmade : h.scratch.Made h.files place begun)
    (hc : (h.deriveInto target h.scratch.path begun).outcome = .ok c) :
    ∃ a, h.Ready target place begun a (h.deriveInto target h.scratch.path begun).tree ∧
      c = target.configuration h.scratch.path a := by
  obtain ⟨a, cleared, derived, ha, hclear, hrow, heq⟩ := derive_of_ok hc
  obtain ⟨rfl, hlist⟩ := Prod.mk.inj ((hmade.clearBlobs h.storage).symm.trans hclear)
  have htree : (h.deriveInto target h.scratch.path begun).tree = derived :=
    congrArg Derivation.tree heq
  rw [htree]
  refine ⟨a, ⟨Source.analyze_eq_ok_iff.2 ha, ?_, hrow⟩,
    Except.ok.inj (hc.symm.trans (congrArg Derivation.outcome heq))⟩
  cases hfault : (h.storage.list begun place).fault? with
  | none => rfl
  | some fault =>
    rw [hfault] at hlist
    nomatch hlist

/-- A derivation into the scratch directory changes what lies in it and nothing else. -/
theorem deriveInto_scratch (target : Target) (hbench : h.bench.Confined)
    (hmade : h.scratch.Made h.files place begun) :
    let d := h.deriveInto target h.scratch.path begun
    d.tree.cwd = begun.cwd ∧ ∀ q, ¬ place <+: q → d.tree.get? q = begun.get? q := by
  intro d
  have hcourse : Derivation.Course _ _ _ _ _ _ d := course_derive _ _ _ _ _ _
  have hloses := hcourse.loses (target.build.extractor_contained hbench)
  refine ⟨hloses.cwd, fun q hq => hloses.same q ?_⟩
  rintro (hblob | ⟨call, hcall, hp⟩)
  · exact hmade.not_holdsBlob hblob
  · rw [hcourse.destination hcall] at hp
    rcases hp with htarget | hend
    · exact hq (hmade.target? htarget ▸ List.prefix_append _ _)
    · exact hq (hmade.endOf? hend ▸ List.prefix_append _ _)

/-- **What is in the file of a section** in the scratch directory was left there by the last call for a
    section of this name: sections with different names have different files. -/
theorem Ready.last_left (hready : h.Ready target place begun a derived) (hbench : h.bench.Confined)
    (hmade : h.scratch.Made h.files place begun) {s : LoadableSection} (hs : s ∈ a.sections)
    {p : Place} (hp : derived.target? (blobPath h.scratch.path s.name) = some p) :
    let x := target.build.extractor h.bench
    ∃ before last after u u', a.sections = before ++ last :: after ∧ last.name = s.name ∧
      (∀ s' ∈ after, s'.name ≠ s.name) ∧ x.Extracts h.scratch.path 0 before begun u ∧
      x before.length last.name (blobPath h.scratch.path last.name) u = (u', .ok ()) ∧
      ∀ contents, u'.get? p = some (.file contents) →
        derived.read (blobPath h.scratch.path s.name) = .ok contents := by
  intro x
  have hkeeps : x.KeepsTo begun := (target.build.extractor_contained hbench).keepsTo begun
  have htarget := (hready.extraction.frame hkeeps).target?_congr
  rw [htarget] at hp
  obtain ⟨before, last, after, u, u', hsections, hlast, hafter, hbefore, hcall, hget⟩ :=
    hready.extraction.last_left hkeeps ⟨s, hs, hp⟩
  rw [Nat.zero_add] at hcall
  have hname : last.name = s.name := by
    have hsame := (hmade.target? hlast).symm.trans (hmade.target? hp)
    simpa [Path.ofText, Utf8.encode_inj] using hsame
  refine ⟨before, last, after, u, u', hsections, hname, fun s' hs' heq => ?_, hbefore, hcall, ?_⟩
  · exact hafter s' hs' (heq ▸ hp)
  · intro contents hfile
    exact FileTree.read_of_target? ((htarget _).trans hp) (hget.trans hfile)

/-- The engine is called when everything is ready and it can be started. -/
theorem Ready.run_eq {ending : Ending} (hready : h.Ready target place begun a derived)
    (hmake : h.scratch.make h.files = .ok (place, begun)) :
    let args := (target.configuration h.scratch.path a).arguments.map Path.ofText
    h.bench.ask derived engine args = .ok ending →
    let r := h.run target engine
    r.calls = (h.deriveInto target h.scratch.path begun).started
        ++ [⟨engine, args, some (sectionsNamed derived args)⟩] ∧
      r.exit = ending.status.code?.getD 1 := by
  intro args hask r
  obtain ⟨houtcome, htree⟩ := hready.derives (Scratch.made_of_make hmake)
  have hr := run_of_derived engine hmake houtcome
  rw [htree, hask] at hr
  exact ⟨hr.2.1, hr.1⟩

/-- When the engine is called everything is ready; when it is not, the exit code is 1. -/
theorem ready_or_uncalled (target : Target) (engine : Path)
    (hmake : h.scratch.make h.files = .ok (place, begun)) :
    let d := h.deriveInto target h.scratch.path begun
    let r := h.run target engine
    r.files = h.storage.sweep d.tree place ∧
    ((∃ a derived ending, h.Ready target place begun a derived ∧ h.bench.ask derived engine
        ((target.configuration h.scratch.path a).arguments.map Path.ofText) = .ok ending) ∨
      r.exit = 1 ∧ r.calls = d.started) := by
  intro d r
  cases hd : d.outcome with
  | error failure =>
    have hr : r = _ := run_of_underived hmake hd
    rw [hr]
    exact ⟨rfl, Or.inr ⟨rfl, rfl⟩⟩
  | ok c =>
    have hr := run_of_derived engine hmake hd
    cases hask : h.bench.ask d.tree engine (c.arguments.map Path.ofText) with
    | error cause =>
      rw [hask] at hr
      have hr : r = _ := hr
      rw [hr]
      exact ⟨rfl, Or.inr ⟨rfl, rfl⟩⟩
    | ok ending =>
      rw [hask] at hr
      obtain ⟨a, hready, rfl⟩ := ready_of_ok (Scratch.made_of_make hmake) hd
      exact ⟨hr.2.2, Or.inl ⟨a, _, ending, hready, hask⟩⟩

end Host

/-- **The run command is transparent and leaves no trace**, if programs keep to the file that they are
    told to write.  The current directory and what every place holds are afterwards what they were
    before, however the run ends; only what could not be removed of the scratch directory is left.  The
    engine is called exactly if the image can be analysed, the new scratch directory can be listed, all
    sections can be extracted into it and the engine can be started.  This call is then the last one and
    the only one of the engine.  It has the arguments of the derived configuration, and its exit code,
    or 1 for a signal, is the command's.  Each section's operand is its path as it is displayed, which
    is its path exactly if that of the scratch directory is a text; and the file there holds what the
    last call for a section of this name left in it.  Otherwise the exit code is 1. -/
theorem run_command_transparent (h : Host) (filter : LogFilter) (i : Invocation) {engine : Path}
    (hi : i.action = .run engine) (hengine : i.target.build.NoTool engine)
    (hbench : h.bench.Confined) :
    let r := h.executeUnder filter i
    let x := i.target.build.extractor h.bench
    r.files.cwd = h.files.cwd ∧
    match h.scratch.make h.files with
    | .error _ => r.exit = 1 ∧ r.calls = [] ∧ r.files = h.files
    | .ok (place, begun) =>
      let dir := h.scratch.path
      let d := h.deriveInto i.target dir begun
      let args (a : Analysis) := (i.target.configuration dir a).arguments.map Path.ofText
      h.files.get? place = none ∧
      (∀ p, ¬ place <+: p → r.files.get? p = h.files.get? p) ∧
      (h.storage.broken? d.tree place = none → ∀ p, r.files.get? p = h.files.get? p) ∧
      (∀ call ∈ d.started, call.tool ≠ engine) ∧
      ((∃ call ∈ r.calls, call.tool = engine) ↔ ∃ a derived ending,
        h.Ready i.target place begun a derived ∧ h.bench.ask derived engine (args a) = .ok ending) ∧
      (∀ a derived ending, h.Ready i.target place begun a derived →
        h.bench.ask derived engine (args a) = .ok ending →
        let seen := sectionsNamed derived (args a)
        r.calls = d.started ++ [⟨engine, args a, some seen⟩] ∧
        r.exit = ending.status.code?.getD 1 ∧
        ∀ s ∈ a.sections,
          let path := blobPath dir s.name
          let shown := Path.ofText path.display
          (shown, (derived.read shown).toOption) ∈ seen ∧
          (shown = path ↔ ∃ text : String, dir = text) ∧
          ∀ p, derived.target? path = some p →
            ∃ before last after u u', a.sections = before ++ last :: after ∧ last.name = s.name ∧
              (∀ s' ∈ after, s'.name ≠ s.name) ∧ x.Extracts dir 0 before begun u ∧
              x before.length last.name (blobPath dir last.name) u = (u', .ok ()) ∧
              ∀ contents, u'.get? p = some (.file contents) → derived.read path = .ok contents) ∧
      ((∀ call ∈ r.calls, call.tool ≠ engine) → r.exit = 1 ∧ r.calls = d.started) := by
  intro r x
  have hr : r = _ := h.executeUnder_of_run filter hi
  simp only [hr, Report.logged_exit, Report.logged_files, Report.logged_calls]
  cases hmake : h.scratch.make h.files with
  | error cause =>
    rw [Host.run_of_unmade i.target engine hmake]
    exact ⟨rfl, rfl, rfl, rfl⟩
  | ok made =>
    obtain ⟨place, begun⟩ := made
    dsimp only
    have hmade := Scratch.made_of_make hmake
    obtain ⟨hfiles, hends⟩ := Host.ready_or_uncalled i.target engine hmake
    obtain ⟨hcwd, hbelow⟩ := Host.deriveInto_scratch i.target hbench hmade
    obtain ⟨hcwd', houtside, hget⟩ := hmade.get?_sweep h.storage hcwd hbelow
    have htools : ∀ call ∈ (h.deriveInto i.target h.scratch.path begun).started,
        call.tool ≠ engine := fun call hcall =>
      hengine.ne_of_mem_plan ((i.target.build.callsUpTo_derive h.storage h.bench i.target.options
        h.scratch.path begun).isPrefix.subset hcall)
    rw [hfiles]
    refine ⟨hcwd', hmade.vacant, houtside, hget, htools, ⟨?_, ?_⟩, ?_, ?_⟩
    · rintro ⟨call, hcall, htool⟩
      rcases hends with hready | ⟨-, hcalls⟩
      · exact hready
      · exact absurd htool (htools call (hcalls ▸ hcall))
    · rintro ⟨a, derived, ending, hready, hask⟩
      obtain ⟨hcalls, -⟩ := hready.run_eq hmake hask
      exact ⟨_, hcalls ▸ List.mem_append_right _ (List.mem_singleton_self _), rfl⟩
    · intro a derived ending hready hask
      obtain ⟨hcalls, hexit⟩ := hready.run_eq hmake hask
      refine ⟨hcalls, hexit, fun s hs => ⟨?_, ofText_display_blobPath_iff s.name, ?_⟩⟩
      · have hblob : s.blobIn h.scratch.path ∈
            (i.target.configuration h.scratch.path a).blobs := List.mem_map_of_mem hs
        exact Configuration.mem_sectionsNamed hblob derived
      · exact fun p hp => hready.last_left hbench hmade hs hp
    · intro huncalled
      rcases hends with ⟨a, derived, ending, hready, hask⟩ | hends
      · obtain ⟨hcalls, -⟩ := hready.run_eq hmake hask
        exact absurd rfl (huncalled _ (hcalls ▸ List.mem_append_right _ (List.mem_singleton_self _)))
      · exact hends

/-- What the small image is analysed to. -/
def smallAnalysis : Analysis :=
  ⟨.armv7m, ⟨⟨0, 0x100⟩, ⟨0x200, 0x10⟩⟩, ⟨0x10, [⟨"win", 0x40⟩], []⟩, [⟨".text", 0⟩]⟩

/-- The small host with its new scratch directory. -/
def smallBegun : FileTree :=
  (((smallHost plainCopier).scratch.make (smallHost plainCopier).files).toOption.map
    Prod.snd).getD .empty

theorem smallHost_make : (smallHost plainCopier).scratch.make (smallHost plainCopier).files =
    .ok (["tmp", "faultcfg-1"], smallBegun) := by
  have hplace : ((smallHost plainCopier).scratch.make (smallHost plainCopier).files).toOption.map
      Prod.fst = some (["tmp", "faultcfg-1"] : Place) := by decide +kernel
  unfold smallBegun
  cases hmake : (smallHost plainCopier).scratch.make (smallHost plainCopier).files with
  | error cause =>
    rw [hmake] at hplace
    nomatch hplace
  | ok made =>
    rw [hmake] at hplace
    exact congrArg Except.ok (Prod.ext (Option.some.inj hplace) rfl)

/-- The small host with the section in its scratch directory. -/
def smallDerived : FileTree :=
  let h := smallHost plainCopier
  (smallTarget.build.extractor h.bench 0 ".text" (blobPath h.scratch.path ".text") smallBegun).1

/-- Everything is ready for the engine of the small host. -/
theorem smallHost_ready : (smallHost plainCopier).Ready smallTarget ["tmp", "faultcfg-1"] smallBegun
    smallAnalysis smallDerived where
  analysis := by decide +kernel
  listing := rfl
  extraction := .cons (Prod.ext rfl (by decide +kernel)) .nil

/-- The engine of the small host ends well, and reads the section on its way. -/
theorem run_command_transparent_small :
    let h := smallHost plainCopier
    let r := h.executeUnder .unset ⟨false, false, smallTarget, .run "engine"⟩
    let path := Path.ofText "tmp/faultcfg-1/code_section.text"
    let args : List String := ["--start", "0x10", "--halt", "win", "0x40", "--flash", "0x0", "0x100",
      "--ram", "0x200", "0x10", "--armv7m", "--section", "tmp/faultcfg-1/code_section.text", "0x0"]
    (∀ p, r.files.get? p = h.files.get? p) ∧ r.exit = 0 ∧
      r.calls.getLast? = some ⟨"engine", args.map Path.ofText,
        some [(path, some (Utf8.encode ".text"))]⟩ := by
  intro h r path args
  have hengine : smallTarget.build.NoTool "engine" := by
    unfold Build.NoTool
    decide +kernel
  have hmake : h.scratch.make h.files = .ok (["tmp", "faultcfg-1"], smallBegun) := smallHost_make
  have hask : h.bench.ask smallDerived "engine" ((smallTarget.configuration h.scratch.path
      smallAnalysis).arguments.map Path.ofText) = .ok ⟨[], [], .code 0⟩ := by
    decide +kernel
  have hargs : (smallTarget.configuration h.scratch.path smallAnalysis).arguments = args := by
    decide +kernel
  have hseen : sectionsNamed smallDerived (args.map Path.ofText) =
      [(path, some (Utf8.encode ".text"))] := by decide +kernel
  obtain ⟨-, hrun⟩ := run_command_transparent h .unset ⟨false, false, smallTarget, .run "engine"⟩
    rfl hengine (smallHost_confined plainCopier)
  rw [hmake] at hrun
  obtain ⟨-, -, hfiles, -, -, hcalled, -⟩ := hrun
  obtain ⟨hcalls, hexit, -⟩ := hcalled smallAnalysis smallDerived _ smallHost_ready hask
  dsimp only at hcalls
  rw [hargs, hseen] at hcalls
  refine ⟨hfiles rfl, hexit, ?_⟩
  rw [hcalls, List.getLast?_append]
  rfl

/-- A storage that lists as the tree does, and refuses to remove directories. -/
def Storage.lasting : Storage :=
  { Storage.plain with
    broken? := fun t _ => some t
    broken?_within := fun t _ left h => by
      obtain rfl := Option.some.inj h
      exact ⟨rfl, fun _ => Or.inl rfl⟩ }

/-- **A run may be neither transparent nor traceless.**  If the copier ends well and copies nothing, the
    engine is called without its section, and if the scratch directory cannot be removed, it is left.
    The engine misses its section as well if the path of the scratch directory is no text, because the
    path that it is told is another.  And if the scratch directory cannot be listed, the engine is not
    called, though every copy would succeed. -/
theorem run_command_not_transparent :
    let i : Invocation := ⟨false, false, smallTarget, .run "engine"⟩
    let seen (r : Report) : Option (List (Path × Option Bytes)) := r.calls.getLast?.bind (·.sections)
    smallTarget.build.NoTool "engine" ∧
    (let r := { smallHost quietCopier with storage := .lasting }.execute i
     r.exit = 0 ∧ seen r = some [(Path.ofText "tmp/faultcfg-1/code_section.text", none)] ∧
       r.files.get? ["tmp", "faultcfg-1"] = some .directory) ∧
    (let files := (smallHost plainCopier).files.put [Path.ofText "tmp" ++ [0xFF]] .directory
     let scratch : Scratch := ⟨Path.ofText "tmp" ++ [0xFF], "1"⟩
     let r := { smallHost plainCopier with files, scratch }.execute i
     r.exit = 0 ∧ seen r = some [(Path.ofText "tmp\uFFFD/faultcfg-1/code_section.text", none)]) ∧
    (let r := { smallHost plainCopier with storage := .unlisted .permissionDenied }.execute i
     r.exit = 1 ∧ r.calls.length = 3) := by
  refine ⟨?_, by decide +kernel, by decide +kernel, by decide +kernel⟩
  unfold Build.NoTool
  decide +kernel

end FaultPlan
