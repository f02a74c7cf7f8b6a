/-
  Switches: the options of the command line, and the values that they take.

  A switch has a long name and may have a one-letter name.  Where a switch takes a value, the value
  must fit: a path is any bytes but none at all, a cycle count is a decimal number of 64 bits, a
  format is one of the two.  Symbols and the toolchain may be any text.  Halt and ignore switches may
  be repeated.
-/
import FaultPlan.CommandLine.Invocation
import FaultPlan.Number.Decimal

namespace FaultPlan.CommandLine

/-- Why a command line is not carried out. -/
inductive Refusal where
  | help
  | version
  /-- Nothing was asked for, so help is shown. -/
  | helpOnMissing
  | missingSubcommand
  | missingRequired
  | unknownArgument
  /-- A value that is missing, empty where it must not be, or none of the allowed ones. -/
  | invalidValue
  /-- A value that is no text where it must be one. -/
  | invalidUtf8
  /-- A value that is no number. -/
  | badNumber
  | conflict
  | invalidSubcommand
  /-- A value for a switch that takes none. -/
  | tooManyValues
  deriving DecidableEq, Repr

/-- What is printed when the version is asked for. -/
def versionLine : String := "faultcfg 0.1.0\n"

/-- Showing help or the version on request is no error; all else is a usage error. -/
def Refusal.exit : Refusal → Int
  | .help | .version => 0
  | _ => 2

inductive Subcommand where
  | derive
  | run
  | check
  deriving DecidableEq, Repr

namespace Subcommand

def name : Subcommand → String
  | .derive => "derive"
  | .run => "run"
  | .check => "check"

/-- The subcommand that a word names. -/
def ofWord? (word : Bytes) : Option Subcommand :=
  [Subcommand.derive, .run, .check].find? (Utf8.encode ·.name == word)

end Subcommand

/-! ## Switches -/

inductive Switch where
  | verbose | silent | help | version
  | elf | map | start | halt | ignore | toolchain | timeout
  | outDir | format | engine
  deriving DecidableEq, Repr

namespace Switch

def long : Switch → String
  | .verbose => "verbose"
  | .silent => "silent"
  | .help => "help"
  | .version => "version"
  | .elf => "elf"
  | .map => "map"
  | .start => "start"
  | .halt => "halt"
  | .ignore => "ignore"
  | .toolchain => "toolchain"
  | .timeout => "timeout"
  | .outDir => "out-dir"
  | .format => "format"
  | .engine => "engine"

/-- The one-letter name, an ASCII letter. -/
def short? : Switch → Option UInt8
  | .verbose => some 'v'.toUInt8
  | .silent => some 's'.toUInt8
  | .help => some 'h'.toUInt8
  | .version => some 'V'.toUInt8
  | .outDir => some 'o'.toUInt8
  | _ => none

def takesValue : Switch → Bool
  | .verbose | .silent | .help | .version => false
  | _ => true

def repeatable : Switch → Bool
  | .halt | .ignore => true
  | _ => false

end Switch

/-! ## Settings -/

/-- A switch with the value that it was given. -/
inductive Setting where
  | verbose | silent
  | elf (path : Path) | map (path : Path) | start (name : String)
  | halt (name : String) | ignore (name : String) | toolchain (stem : String)
  | timeout (cycles : UInt64)
  | outDir (path : Path) | format (format : OutputFormat) | engine (path : Path)
  deriving DecidableEq, Repr

def Setting.switch : Setting → Switch
  | .verbose => .verbose
  | .silent => .silent
  | .elf _ => .elf
  | .map _ => .map
  | .start _ => .start
  | .halt _ => .halt
  | .ignore _ => .ignore
  | .toolchain _ => .toolchain
  | .timeout _ => .timeout
  | .outDir _ => .outDir
  | .format _ => .format
  | .engine _ => .engine

/-- The path that a setting of the switch holds. -/
def Setting.path? (s : Switch) (x : Setting) : Option Path :=
  if x.switch = s then
    match x with
    | .elf path | .map path | .outDir path | .engine path => some path
    | _ => none
  else none

/-- The text that a setting of the switch holds: a name, or how names begin. -/
def Setting.text? (s : Switch) (x : Setting) : Option String :=
  if x.switch = s then
    match x with
    | .start text | .halt text | .ignore text | .toolchain text => some text
    | _ => none
  else none

def Setting.cycles? : Setting → Option UInt64
  | .timeout n => some n
  | _ => none

def Setting.format? : Setting → Option OutputFormat
  | .format f => some f
  | _ => none

/-- A path must not be empty. -/
def pathValue (value : Bytes) : Except Refusal Path :=
  if value = [] then .error .invalidValue else .ok value

def textValue (value : Bytes) : Except Refusal String :=
  match Utf8.decode? value with
  | some text => .ok text
  | none => .error .invalidUtf8

def cyclesValue (value : Bytes) : Except Refusal UInt64 := do
  let text ← textValue value
  match Decimal.parse text with
  | some cycles => .ok cycles
  | none => .error .badNumber

def formatValue (value : Bytes) : Except Refusal OutputFormat :=
  match (Utf8.decode? value).bind OutputFormat.ofName? with
  | some format => .ok format
  | none => .error .invalidValue

/-- The setting that a switch and its value make; a switch without value gets the empty one. -/
def Switch.setting (s : Switch) (value : Bytes) : Except Refusal Setting :=
  match s with
  | .verbose => .ok .verbose
  | .silent => .ok .silent
  | .help => .error .help
  | .version => .error .version
  | .elf => (pathValue value).map .elf
  | .map => (pathValue value).map .map
  | .start => (textValue value).map .start
  | .halt => (textValue value).map .halt
  | .ignore => (textValue value).map .ignore
  | .toolchain => (textValue value).map .toolchain
  | .timeout => (cyclesValue value).map .timeout
  | .outDir => (pathValue value).map .outDir
  | .format => (formatValue value).map .format
  | .engine => (pathValue value).map .engine

/-! ## Levels -/

/-- Where a switch stands: before the subcommand or after it. -/
inductive Level where
  | top
  | sub (subcommand : Subcommand)
  deriving DecidableEq, Repr

namespace Level

/-- The switches that describe the target. -/
def targetSwitches : List Switch :=
  [.elf, .map, .start, .halt, .ignore, .toolchain, .timeout]

/-- The switches that are known at a level. -/
def switches : Level → List Switch
  | .top => [.verbose, .silent, .help, .version]
  | .sub .derive => targetSwitches ++ [.outDir, .format, .verbose, .silent, .help]
  | .sub .run => targetSwitches ++ [.engine, .verbose, .silent, .help]
  | .sub .check => targetSwitches ++ [.verbose, .silent, .help]

/-- The switch of a level that has the long name. -/
def findLong? (l : Level) (name : Bytes) : Option Switch :=
  l.switches.find? (Utf8.encode ·.long == name)

/-- The switch of a level that has the one-letter name. -/
def findShort? (l : Level) (letter : UInt8) : Option Switch :=
  l.switches.find? (·.short? == some letter)

end Level
end FaultPlan.CommandLine
