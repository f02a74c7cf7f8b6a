/-
  The command line over captured tool output.

  This program starts no other program.  What the tools say of an image `fw.elf` is taken from
  files beside it: `fw.elf.attributes`, `fw.elf.symbols` and `fw.elf.headers` hold the listings, and
  `fw.elf.text` holds the bytes of the section `.text`.  The output directory and the linker map
  are read from the disk into a file tree, the command runs on the tree, and what it changed in the
  output directory is carried out on the disk.  There is no engine to be started, so `run` goes as
  far as its launch.
-/
import FaultPlan.Bench.Capture
import FaultPlan.Command.Commands
import FaultPlan.CommandLine.Reading

namespace FaultPlan.Main

/-! ## From the disk -/

/-- The bytes of a file, if it can be read. -/
def bytes? (path : String) : IO (Option Bytes) := do
  match ← (IO.FS.readBinFile path).toBaseIO with
  | .ok contents => return some contents.toList
  | .error _ => return none

/-- The names of the loadable sections in a listing of headers. -/
def sectionNames (listing : Bytes) : List String :=
  match SectionHeader.ofListing (Utf8.decodeLossy listing) with
  | .ok headers => (SectionHeader.loadable headers).map (·.name)
  | .error _ => []

/-- What was captured of an image. -/
def capture (elf : String) : IO Capture := do
  let sectionHeaders ← bytes? (elf ++ ".headers")
  let images ← ((sectionHeaders.map sectionNames).getD []).filterMapM fun name => do
    return (← bytes? (elf ++ name)).map (name, ·)
  return {
    attributes := ← bytes? (elf ++ ".attributes")
    symbolTable := ← bytes? (elf ++ ".symbols")
    sectionHeaders, images }

/-- The file at a path of the disk is set in the tree, if it can be read. -/
def loadFile (path : String) (t : FileTree) : IO FileTree := do
  return ((← bytes? path).map fun contents => (t.adopt (.ofText path) contents).1).getD t

/-- The directory at a path of the disk is set in the tree, with its files and directories. -/
def loadDirectory (path : String) (t : FileTree) : IO FileTree := do
  let onDisk := (← IO.currentDir) / path
  if !(← onDisk.isDir) then loadFile path t
  else
    (← onDisk.readDir).foldlM (fun t entry => do
      let below := joinPath (.ofText path) (.ofText entry.fileName)
      if ← entry.path.isDir then return (t.makeDirectories below).1 else loadFile below.display t)
      (t.makeDirectories (.ofText path)).1

/-- The part of the disk that an invocation concerns. -/
def load (i : Invocation) : IO FileTree := do
  let here := Path.ofText (toString (← IO.currentDir))
  let t := (FileTree.empty.makeDirectories (.ofText "/tmp")).1
  let t := (t.makeDirectories here).1
  let t ← loadFile i.target.map.display (t.enter (Route.ofPath here).names)
  match i.action with
  | .derive outDir _ => loadDirectory outDir.display t
  | _ => return t

/-! ## Back to the disk -/

/-- The files that differ below a directory are written or removed. -/
def store (dir : Path) (before after : FileTree) : IO Unit := do
  let .ok place := after.directoryAt dir | return
  let path (p : Place) := (joinPath dir ([slash].intercalate (p.drop place.length))).display
  let changed (t u : FileTree) := t.entries.filter fun e =>
    place.isPrefixOf e.1 && u.get? e.1 != some e.2
  IO.FS.createDirAll dir.display
  for (p, entry) in changed after before do
    if let .file contents := entry then IO.FS.writeBinFile (path p) ⟨contents.toArray⟩
  for (p, _) in changed before after do
    if (after.get? p).isNone then IO.FS.removeFile (path p)

/-- Everything that a report shows. -/
def present (r : Report) : IO Unit := do
  (← IO.getStdout).write ⟨r.stdout.toArray⟩
  (← IO.getStderr).write ⟨r.stderr.toArray⟩
  for record in r.log do
    IO.eprintln (record.severity.name ++ " " ++ record.text)

def usage : String :=
  "usage: faultcfg [-v | -s] COMMAND --elf ELF --map MAP --halt SYMBOL... [OPTIONS]\n" ++
  "  derive  [--out-dir DIR] [--format line|lines]\n" ++
  "  run     --engine PATH\n" ++
  "  check\n" ++
  "options: [--start SYMBOL] [--ignore SYMBOL]... [--toolchain STEM] [--timeout CYCLES]\n"

/-- A command line that is not carried out. -/
def refuse (r : CommandLine.Refusal) : IO Unit :=
  match r with
  | .version => IO.print CommandLine.versionLine
  | .help => IO.print usage
  | _ => IO.eprint usage

/-- The command runs on a tree of the disk. -/
def perform (i : Invocation) : IO Report := do
  let files ← load i
  let shelf := (← capture i.target.elf.display).shelf i.target.toolchain
  let scratch : Scratch := ⟨.ofText "/tmp", "captured"⟩
  let report := Host.execute ⟨files, .plain, shelf.bench, scratch, .endless, .endless⟩ i
  if let .derive outDir _ := i.action then store outDir files report.files
  return report

end FaultPlan.Main

def main (args : List String) : IO UInt32 := do
  match FaultPlan.CommandLine.read (args.map FaultPlan.Path.ofText) with
  | .error refusal =>
    FaultPlan.Main.refuse refusal
    return refusal.exit.toNat.toUInt32
  | .ok invocation =>
    let report ← FaultPlan.Main.perform invocation
    FaultPlan.Main.present report
    return report.exit.toNat.toUInt32
