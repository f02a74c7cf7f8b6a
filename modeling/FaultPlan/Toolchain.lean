/-
  The cross toolchain: binary tools that share the beginning of their names.
-/

namespace FaultPlan

/-- How the names of the tools begin. -/
structure Toolchain where
  stem : String
  deriving DecidableEq, Repr

namespace Toolchain

/-- The toolchain for bare ARM targets. -/
def arm : Toolchain := ⟨"arm-none-eabi-"⟩

/-- The full name of a tool. -/
def tool (t : Toolchain) (name : String) : String := t.stem ++ name

end Toolchain
end FaultPlan
