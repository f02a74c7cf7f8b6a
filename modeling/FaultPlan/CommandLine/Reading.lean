/-
  Reading a command line: from arguments to an invocation, or to the reason for refusing it.

  Arguments are bytes, which need not spell a text.  They are read from left to right, first at the
  top level and, once a subcommand has been met, at the level of that subcommand; each level knows its
  own switches.  A value that follows its switch as an argument of its own is kept and judged only when
  the next switch is met, or at the end of the level; an argument that is no switch and no value refuses
  the line at once.  The rules that concern a level as a whole are checked last, for the subcommand
  before the top level: quiet and talkative output exclude each other, and the target must be described.
-/
import FaultPlan.CommandLine.Switch
import FaultPlan.Text.Pieces

namespace FaultPlan.CommandLine

/-! ## Arguments -/

/-- What switches begin with. -/
def dash : UInt8 := '-'.toUInt8

/-- What sets a value off from its switch. -/
def equals : UInt8 := '='.toUInt8

/-- What an argument looks like. -/
inductive Argument where
  /-- The two dashes after which no switch is read. -/
  | escape
  | long (name : Bytes) (value : Option Bytes)
  /-- One-letter switches in one argument; the rest may be the value of one of them. -/
  | short (letters : Bytes)
  | plain
  deriving DecidableEq, Repr

/-- The name before the first equals sign and the value after it. -/
def Argument.ofLong (bytes : Bytes) : Argument :=
  .long (bytes.takeWhile (· != equals))
    (match bytes.dropWhile (· != equals) with
      | [] => none
      | _ :: value => some value)

/-- A lone dash is no switch. -/
def Argument.ofBytes : Bytes → Argument
  | first :: second :: rest =>
    if first != dash then .plain
    else if second != dash then .short (second :: rest)
    else if rest.isEmpty then .escape
    else .ofLong rest
  | _ => .plain

/-! ## Progress at one level -/

/-- What has been read at a level. -/
structure Progress where
  given : List Setting
  /-- The last switch, if it takes a value, with its value once that has been met. -/
  pending : Option (Switch × Option Bytes)

namespace Progress

def start : Progress := ⟨[], none⟩

def has (p : Progress) (s : Switch) : Bool := p.given.any (·.switch == s)

/-- A switch and its value are accepted.  One that is not repeatable may be given once. -/
def accept (p : Progress) (s : Switch) (value : Bytes) : Except Refusal Progress :=
  if !s.repeatable && p.has s then .error .conflict
  else (s.setting value).map fun x => { p with given := p.given ++ [x] }

/-- What is pending is accepted; a switch whose value has not come is refused. -/
def settle (p : Progress) : Except Refusal Progress :=
  match p.pending with
  | none => .ok p
  | some (_, none) => .error .invalidValue
  | some (s, some value) => accept ⟨p.given, none⟩ s value

/-- A switch that comes with its value, or needs none. -/
def take (p : Progress) (s : Switch) (value : Bytes) : Except Refusal Progress := do
  let p ← p.settle
  p.accept s value

/-- A switch whose value is the next argument. -/
def await (p : Progress) (s : Switch) : Except Refusal Progress := do
  let p ← p.settle
  return { p with pending := some (s, none) }

/-- A long switch. -/
def takeLong (p : Progress) (l : Level) (name : Bytes) (value : Option Bytes) :
    Except Refusal Progress :=
  match l.findLong? name with
  | none => .error .unknownArgument
  | some s =>
    match s.takesValue, value with
    | true, some value => p.take s value
    | true, none => p.await s
    | false, some _ => .error .tooManyValues
    | false, none => p.take s []

/-- One-letter switches.  The first that takes a value takes the rest of the argument, without an
    equals sign in front. -/
def takeShort (l : Level) : Progress → Bytes → Except Refusal Progress
  | p, [] => .ok p
  | p, letter :: rest =>
    match l.findShort? letter with
    | none => .error .unknownArgument
    | some s =>
      if s.takesValue then
        match rest with
        | [] => p.await s
        | first :: value => p.take s (if first == equals then value else first :: value)
      else do
        let p ← p.take s []
        takeShort l p rest

end Progress

/-! ## Scanning a level -/

/-- Where scanning a level ends. -/
inductive Stop where
  | finished
  | subcommand (c : Subcommand) (rest : List Bytes)
  /-- The request for help on the subcommands that follow. -/
  | help (rest : List Bytes)

/-- A word at a level that is neither a switch nor a value. -/
def Level.stray : Level → Refusal
  | .top => .invalidSubcommand
  | .sub _ => .unknownArgument

/-- What asks for help on the subcommands. -/
def helpWord : Bytes := Path.ofText "help"

/-- The subcommand, or help on subcommands, that a word asks for. -/
def Level.stopAt (l : Level) (word : Bytes) (rest : List Bytes) : Option Stop :=
  match l with
  | .sub _ => none
  | .top =>
    if word = helpWord then some (.help rest)
    else (Subcommand.ofWord? word).map (.subcommand · rest)

/-- The arguments of a level, up to a subcommand or the end. -/
def scan (l : Level) : Progress → List Bytes → Except Refusal (Progress × Stop)
  | p, [] => .ok (p, .finished)
  | p, arg :: rest =>
    match Argument.ofBytes arg with
    | .escape =>
      match rest with
      | [] => .ok (p, .finished)
      | next :: _ =>
        .error (if (l.stopAt next []).isSome then .unknownArgument else l.stray)
    | .long name value => do
      let p ← p.takeLong l name value
      scan l p rest
    | .short letters => do
      let p ← p.takeShort l letters
      scan l p rest
    | .plain =>
      match p.pending with
      | some (s, none) => scan l { p with pending := some (s, some arg) } rest
      | _ =>
        match l.stopAt arg rest with
        | some stop => .ok (p, stop)
        | none => .error l.stray

/-! ## The whole line -/

namespace Progress

/-- Quiet and talkative output exclude each other at one level. -/
def checkConflict (p : Progress) : Except Refusal Unit :=
  if p.has .silent && p.has .verbose then .error .conflict else .ok ()

/-- The path that a switch was given. -/
def path? (p : Progress) (s : Switch) : Option Path := p.given.findSome? (Setting.path? s)

/-- The text that a switch was given. -/
def text? (p : Progress) (s : Switch) : Option String := p.given.findSome? (Setting.text? s)

/-- The texts that a repeatable switch was given, in their order. -/
def texts (p : Progress) (s : Switch) : List String := p.given.filterMap (Setting.text? s)

/-- The target that the settings describe; both files and a halt symbol are required. -/
def target (p : Progress) : Except Refusal Target :=
  match p.path? .elf, p.path? .map with
  | some elf, some map =>
    if (p.texts .halt).isEmpty then .error .missingRequired
    else .ok {
      elf, map
      start := (p.text? .start).getD "main"
      halts := p.texts .halt
      ignores := p.texts .ignore
      toolchain := ((p.text? .toolchain).map Toolchain.mk).getD .arm
      timeout := p.given.findSome? Setting.cycles? }
  | _, _ => .error .missingRequired

/-- What the settings ask the subcommand to do. -/
def action (p : Progress) : Subcommand → Except Refusal Action
  | .derive => .ok (.derive ((p.path? .outDir).getD "tmp_data")
      ((p.given.findSome? Setting.format?).getD .line))
  | .run =>
    match p.path? .engine with
    | some engine => .ok (.run engine)
    | none => .error .missingRequired
  | .check => .ok .check

end Progress

/-- The answer to a request for help: the word after it must be a subcommand, and none may follow. -/
def helpOn : List Bytes → Refusal
  | [] => .help
  | [word] => if word = helpWord ∨ (Subcommand.ofWord? word).isSome then .help else .invalidSubcommand
  | _ => .invalidSubcommand

/-- The invocation that a subcommand and the settings before and after it make. -/
def invocation (above : Progress) (c : Subcommand) (rest : List Bytes) :
    Except Refusal Invocation := do
  let (p, _) ← scan (.sub c) .start rest
  let p ← p.settle
  p.checkConflict
  let target ← p.target
  let action ← p.action c
  let above ← above.settle
  above.checkConflict
  return {
    verbose := above.has .verbose || p.has .verbose
    silent := above.has .silent || p.has .silent
    target, action }

/-- The invocation that the arguments spell. -/
def read (args : List Bytes) : Except Refusal Invocation := do
  let (p, stop) ← scan .top .start args
  match stop with
  | .subcommand c rest => invocation p c rest
  | .help rest => .error (helpOn rest)
  | .finished =>
    let p ← p.settle
    .error (if p.given.isEmpty then .helpOnMissing else .missingSubcommand)

end FaultPlan.CommandLine
