/-
  Hosts: the machine on which a command runs.
-/
import FaultPlan.Bench.Program
import FaultPlan.Command.Stream
import FaultPlan.Files.Scratch
import FaultPlan.Files.Storage

namespace FaultPlan

structure Host where
  files : FileTree
  storage : Storage
  bench : Bench
  scratch : Scratch
  stdout : Stream
  stderr : Stream

end FaultPlan
