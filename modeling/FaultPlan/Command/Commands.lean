/-
  The three commands: derive, run, check.

  `derive` makes the output directory, derives into it and prints the configuration.  `run` derives
  into a scratch directory, hands the arguments to the engine and removes the directory again,
  however the run ends.  `check` only analyses and shows a summary on the standard error; it is
  aborted when that cannot be written.
-/
import FaultPlan.Bench.Binutils
import FaultPlan.Command.Report
import FaultPlan.Command.Summary
import FaultPlan.Run

namespace FaultPlan

/-- The build that a target names. -/
def Target.build (t : Target) : Build := ⟨t.toolchain, t.elf, t.map⟩

/-- The lines on which a configuration is printed. -/
def OutputFormat.linesOf (f : OutputFormat) (c : Configuration) : List String :=
  match f with
  | .line => [c.line]
  | .lines => optionLines c.arguments

/-- A configuration is written line by line, and each line feed by itself. -/
def OutputFormat.requests (f : OutputFormat) (c : Configuration) : List Request :=
  (f.linesOf c).flatMap fun line => [.text line, .text "\n"]

/-- How an engine that was launched ended. -/
structure EngineRun where
  ending : Ending

namespace Host

/-- The derivation of a target by the host's tools, with blobs in a directory. -/
def deriveInto (h : Host) (target : Target) (dir : Path) (t : FileTree) : Derivation :=
  FaultPlan.derive h.storage target.options (target.build.source h.bench t)
    (target.build.extractor h.bench) dir t

/-! ## Derive -/

def derive (h : Host) (target : Target) (outDir : Path) (format : OutputFormat) : Report :=
  match h.files.makeDirectories outDir with
  | (t, .error cause) =>
    { exit := 1, stdout := h.stdout.shown [], stderr := h.stderr.shown [], calls := [], files := t
      log := [⟨.error, "failed to create output directory",
        [("error", (Failure.io cause).message), ("path", outDir.display)]⟩] }
  | (t, .ok ()) =>
    let d := h.deriveInto target outDir t
    let warnings := d.leftovers.map Report.leftoverRecord
    match d.outcome with
    | .error failure => h.failed failure "derivation failed" warnings d.started d.tree
    | .ok configuration =>
      let (made, result) := h.stdout.attempt [] (format.requests configuration)
      match result with
      | .ok () =>
        { exit := 0, stdout := h.stdout.shown made, stderr := h.stderr.shown [], log := warnings
          calls := d.started, files := d.tree }
      | .error cause =>
        { exit := 1, stdout := h.stdout.shown made, stderr := h.stderr.shown []
          calls := d.started, files := d.tree
          log := warnings ++
            [⟨.error, "failed to write configuration", [("error", cause.message)]⟩] }

/-! ## Run -/

/-- The engine is a program of the bench, and leaves the files alone. -/
def launcher (h : Host) : Launcher EngineRun := fun engine args t =>
  let args := args.map Path.ofText
  match h.bench.ask t engine args with
  | .error cause => ⟨t, [], .error cause⟩
  | .ok ending => ⟨t, [⟨engine, args, some (sectionsNamed t args)⟩], .ok ⟨ending⟩⟩

/-- The engine's own output and exit code are the command's. -/
def run (h : Host) (target : Target) (engine : Path) : Report :=
  let r := FaultPlan.run h.storage target.options (target.build.source h.bench)
    (target.build.extractor h.bench) h.launcher engine h.scratch h.files
  match r.outcome with
  | .error failure =>
    let leftovers := (r.derivation.map (·.leftovers)).getD []
    h.failed failure "run failed" (leftovers.map Report.leftoverRecord) r.started r.tree
  | .ok e =>
    { exit := e.ending.status.code?.getD 1
      stdout := h.stdout.shown [.write e.ending.stdout]
      stderr := h.stderr.shown [.write e.ending.stderr]
      log := if e.ending.status.code?.isSome then []
        else [⟨.warning, "engine terminated by a signal", []⟩]
      calls := r.started
      files := r.tree }

/-! ## Check -/

/-- The exit code of a command that was aborted. -/
def abortCode : Int := 101

/-- What is left to be said is said on the standard error, part by part; a part that cannot be
    written aborts the command. -/
def say (h : Host) (r : Report) (made : List Request) (parts : List String) : Report :=
  match h.stderr.attempt made (parts.map .text) with
  | (made, .ok ()) => { r with stderr := h.stderr.shown made }
  | (made, .error _) => { r with stderr := h.stderr.shown made, exit := abortCode }

def check (h : Host) (target : Target) : Report :=
  let inquiry := (target.build.source h.bench h.files).analyze target.options
  match inquiry.outcome with
  | .ok analysis =>
    let r : Report :=
      { exit := 0, stdout := h.stdout.shown [], stderr := h.stderr.shown [], log := []
        calls := inquiry.started, files := h.files }
    h.say r [] (Summary.ofAnalysis target.elf target.toolchain analysis)
  | .error failure =>
    h.say (h.failed failure "check failed" [] inquiry.started h.files)
      (h.passOn failure).stderr [Summary.failure failure.message]

/-! ## All three -/

/-- The command that an invocation asks for, with what it logs under a filter. -/
def executeUnder (h : Host) (filter : LogFilter) (i : Invocation) : Report :=
  let report := match i.action with
    | .derive outDir format => h.derive i.target outDir format
    | .run engine => h.run i.target engine
    | .check => h.check i.target
  report.logged (filter i.level)

/-- The command that an invocation asks for, where the environment has no say in the log. -/
def execute (h : Host) (i : Invocation) : Report := h.executeUnder .unset i

end Host
end FaultPlan
