/-
  Extraction: one blob file for every loaded section, or none at all.

  Blobs are direct children of the output directory with a common stem in their names, which is how
  those of an earlier derivation are found and cleared.  Sections are extracted in order, one
  extractor call each.  When a call fails, every file made so far is removed again, and whatever
  the failing call left at its destination; a file that cannot be removed only causes a warning.
-/
import FaultPlan.Bench.Call
import FaultPlan.Files.Storage
import FaultPlan.Section.Blob

namespace FaultPlan

/-- What an extractor did for a section. -/
structure Extracted where
  tree : FileTree
  /-- The programs that were started. -/
  started : List Call
  outcome : Except MetadataFailure Unit

/-- Writes the bytes of a section to a destination path, and may fail.  It need not act alike at
    every call, not even for one section; `turn` counts the calls before this one. -/
structure Extractor where
  extract : (turn : Nat) → (sectionName : String) → (destination : Path) → FileTree → Extracted

namespace Extractor

/-- The files after a call, and whether it succeeded. -/
def act (x : Extractor) (turn : Nat) (sectionName : String) (destination : Path) (t : FileTree) :
    FileTree × Except MetadataFailure Unit :=
  let r := x.extract turn sectionName destination t
  (r.tree, r.outcome)

/-- The programs that a call starts. -/
def starts (x : Extractor) (turn : Nat) (sectionName : String) (destination : Path) (t : FileTree) :
    List Call :=
  (x.extract turn sectionName destination t).started

instance : CoeFun Extractor fun _ =>
    Nat → String → Path → FileTree → FileTree × Except MetadataFailure Unit := ⟨act⟩

/-- An extractor that starts no program. -/
def ofAct (act : Nat → String → Path → FileTree → FileTree × Except MetadataFailure Unit) :
    Extractor where
  extract turn sectionName destination t :=
    let r := act turn sectionName destination t
    ⟨r.1, [], r.2⟩

end Extractor

/-- A file that should have been removed and could not be. -/
structure Leftover where
  path : Path
  cause : IoFault
  deriving DecidableEq, Repr

/-- One call of an extractor. -/
structure Extract where
  sectionName : String
  destination : Path
  deriving DecidableEq, Repr

/-- What extracting a list of sections did. -/
structure Extraction where
  tree : FileTree
  calls : List Extract
  /-- The programs that the calls started. -/
  started : List Call
  leftovers : List Leftover
  outcome : Except MetadataFailure (List SectionBlob)

/-! ## Clearing -/

/-- Tells whether a name in a directory is that of a blob file. -/
def FileTree.holdsBlobAt (t : FileTree) (place : Place) (name : Name) : Bool :=
  isBlobName name && match t.get? (place ++ [name]) with
    | some (.file _) => true
    | _ => false

/-- The names of a listing are visited in order, and the blob files among them are removed by their
    paths.  The first removal that is refused ends it. -/
def clearListed (storage : Storage) (dir : Path) (place : Place) :
    List Name → FileTree → FileTree × Except IoFault Unit
  | [], t => (t, .ok ())
  | name :: rest, t =>
    if t.holdsBlobAt place name then
      match storage.unlink t (joinPath dir name) with
      | .ok t' => clearListed storage dir place rest t'
      | .error fault => (t, .error fault)
    else clearListed storage dir place rest t

/-- The blob files in a directory are removed.  A missing directory has none. -/
def clearBlobs (storage : Storage) (dir : Path) (t : FileTree) : FileTree × Except IoFault Unit :=
  match t.directoryAt dir with
  | .error .notFound => (t, .ok ())
  | .error fault => (t, .error fault)
  | .ok place =>
    let listing := storage.list t place
    match clearListed storage dir place listing.names t with
    | (t', .error fault) => (t', .error fault)
    | (t', .ok ()) =>
      match listing.fault? with
      | some fault => (t', .error fault)
      | none => (t', .ok ())

/-! ## Extracting -/

/-- The files at the paths are removed, those that are not there excepted. -/
def discard (storage : Storage) : List Path → FileTree → FileTree × List Leftover
  | [], t => (t, [])
  | path :: paths, t =>
    match storage.unlink t path with
    | .ok t' => discard storage paths t'
    | .error .notFound => discard storage paths t
    | .error cause =>
      let r := discard storage paths t
      (r.1, ⟨path, cause⟩ :: r.2)

/-- The sections are extracted one after the other, after those whose blobs are there already. -/
def extractAfter (storage : Storage) (x : Extractor) (dir : Path) :
    List SectionBlob → List LoadableSection → FileTree → Extraction
  | done, [], t => ⟨t, [], [], [], .ok done⟩
  | done, s :: rest, t =>
    let blob := s.blobIn dir
    let call : Extract := ⟨s.name, blob.path⟩
    let r := x.extract done.length s.name blob.path t
    match r.outcome with
    | .ok () =>
      let after := extractAfter storage x dir (done ++ [blob]) rest r.tree
      { after with calls := call :: after.calls, started := r.started ++ after.started }
    | .error failure =>
      let cleaned := discard storage (done.map (·.path) ++ [blob.path]) r.tree
      ⟨cleaned.1, [call], r.started, cleaned.2, .error failure⟩

/-- All sections are extracted into the directory. -/
def extractAll (storage : Storage) (x : Extractor) (dir : Path)
    (sections : List LoadableSection) (t : FileTree) : Extraction :=
  extractAfter storage x dir [] sections t

end FaultPlan
