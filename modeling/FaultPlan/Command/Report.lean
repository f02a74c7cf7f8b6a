/-
  Reports: what a command leaves behind for its caller to see.

  Standard output is reserved for results and for the output of tools and engine; warnings and
  errors go to a log.  When a tool has failed, what it printed is passed on before the failure is
  logged, in four steps: its standard output is written and flushed, and then its standard error.
  The first step that fails ends this, with a warning.
-/
import FaultPlan.Bench.Host
import FaultPlan.CommandLine.Invocation
import FaultPlan.Failure
import FaultPlan.Section.Extraction

namespace FaultPlan

inductive Severity where
  | warning
  | error
  deriving DecidableEq, Repr

def Severity.name : Severity → String
  | .warning => "WARN"
  | .error => "ERROR"

structure LogRecord where
  severity : Severity
  message : String
  /-- Named values, in the order in which they are shown. -/
  fields : List (String × String)
  deriving DecidableEq, Repr

/-- The message, then each field after a blank. -/
def LogRecord.text (r : LogRecord) : String :=
  r.message ++ String.join (r.fields.map fun f => " " ++ f.1 ++ "=" ++ f.2)

structure Report where
  exit : Int
  /-- What has come through of the standard output. -/
  stdout : Bytes
  /-- What has come through of the standard error, the log excepted. -/
  stderr : Bytes
  log : List LogRecord
  calls : List Call
  files : FileTree

/-! ## The log -/

/-- How much an invocation asks to be logged. -/
inductive LogLevel where
  | errors
  | normal
  | everything
  deriving DecidableEq, Repr

/-- Talkative output outweighs silence. -/
def Invocation.level (i : Invocation) : LogLevel :=
  if i.verbose then .everything else if i.silent then .errors else .normal

/-- Which records are let through, given how much is asked for.  The environment may have a say in
    it, for some records or for all. -/
abbrev LogFilter := LogLevel → LogRecord → Bool

/-- The environment is silent, and only the level counts. -/
def LogFilter.unset : LogFilter
  | .errors, r => r.severity == .error
  | _, _ => true

namespace Report

/-- The log holds what is let through. -/
def logged (r : Report) (keep : LogRecord → Bool) : Report := { r with log := r.log.filter keep }

/-- A file that could not be removed after a failed extraction. -/
def leftoverRecord (l : Leftover) : LogRecord :=
  ⟨.warning, "failed to remove section file",
    [("error", l.cause.message), ("path", l.path.display)]⟩

end Report

/-! ## Failed tools -/

/-- What was asked of the two outputs of a command, and what is to be logged of it. -/
structure PassedOn where
  stdout : List Request
  stderr : List Request
  log : List LogRecord

/-- The warning that what a tool printed could not be passed on. -/
def unprinted (cause : IoFault) : LogRecord :=
  ⟨.warning, "failed to print tool output", [("error", cause.message)]⟩

namespace Host

/-- The requests by which a failed tool's output is passed on, up to the first that fails. -/
def passThrough (h : Host) (f : ToolFailure) :
    List Request × List Request × Except IoFault Unit :=
  match h.stdout.attempt [] [.text f.stdout, .flush] with
  | (out, .error cause) => (out, [], .error cause)
  | (out, .ok ()) => (out, h.stderr.attempt [] [.text f.stderr, .flush])

/-- A failed tool's output is passed on; other failures print nothing. -/
def passOn (h : Host) : Failure → PassedOn
  | .toolFailed f =>
    match h.passThrough f with
    | (out, err, .ok ()) => ⟨out, err, []⟩
    | (out, err, .error cause) => ⟨out, err, [unprinted cause]⟩
  | _ => ⟨[], [], []⟩

/-- The report of a command that failed before it had a result to show. -/
def failed (h : Host) (f : Failure) (what : String) (before : List LogRecord)
    (calls : List Call) (files : FileTree) : Report :=
  let p := h.passOn f
  { exit := 1
    stdout := h.stdout.shown p.stdout
    stderr := h.stderr.shown p.stderr
    log := before ++ p.log ++ [⟨.error, what, [("error", f.message)]⟩]
    calls, files }

end Host
end FaultPlan
