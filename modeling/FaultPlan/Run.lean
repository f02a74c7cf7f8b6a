/-
  Runs: a derivation into a scratch directory, and then the engine on its result.

  The directory is made before anything else and taken away after everything else, however the run
  ends.  The engine is launched only with an argument list that it accepts.  How an engine is
  launched, and what there is to tell of its end, is left to a `Launcher`.
-/
import FaultPlan.Derivation
import FaultPlan.Engine.Arguments
import FaultPlan.Files.Scratch

namespace FaultPlan

/-- What launching an engine did. -/
structure Launched (ε : Type) where
  tree : FileTree
  /-- The programs that were started. -/
  started : List Call
  outcome : Except IoFault ε

/-- Starts the engine at a path with arguments and waits for its end, unless it cannot be started. -/
abbrev Launcher (ε : Type) := (engine : Path) → (args : List String) → FileTree → Launched ε

/-- What a run did, and how it ended. -/
structure Run (ε : Type) where
  /-- The derivation, if there was a directory to derive into. -/
  derivation : Option Derivation
  /-- The argument list that was handed to the engine, if the run came that far. -/
  handed : Option (List String)
  /-- The programs that were started. -/
  started : List Call
  tree : FileTree
  outcome : Except Failure ε

/-- The engine is launched with the arguments of a derived configuration, if it accepts them. -/
def Run.ofDerivation {ε : Type} (launch : Launcher ε) (engine : Path) (d : Derivation) : Run ε :=
  match d.outcome with
  | .error failure => ⟨some d, none, d.started, d.tree, .error failure⟩
  | .ok configuration =>
    match Engine.Arguments.parse configuration.arguments with
    | .error fault => ⟨some d, none, d.started, d.tree, .error (.invalidArguments fault)⟩
    | .ok _ =>
      let r := launch engine configuration.arguments d.tree
      ⟨some d, some configuration.arguments, d.started ++ r.started, r.tree,
        r.outcome.mapError (.engineLaunch engine.display)⟩

/-- The run under the given options.  Listings come from the files as the derivation finds them. -/
def run {ε : Type} (storage : Storage) (o : Options) (source : FileTree → Source) (x : Extractor)
    (launch : Launcher ε) (engine : Path) (scratch : Scratch) (t : FileTree) : Run ε :=
  match scratch.make t with
  | .error cause => ⟨none, none, [], t, .error (.io cause)⟩
  | .ok (place, begun) =>
    let d := derive storage o (source begun) x scratch.path begun
    let r := Run.ofDerivation launch engine d
    { r with tree := storage.sweep r.tree place }

end FaultPlan
