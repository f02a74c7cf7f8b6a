/-
  Derivations: from build listings to a configuration with its section blobs on disk.

  The listings are analysed first, so that a failed analysis leaves every file alone.  Then the
  blobs of earlier derivations are cleared, and only then are sections extracted.
-/
import FaultPlan.Analysis
import FaultPlan.Engine.Configuration
import FaultPlan.Section.Extraction

namespace FaultPlan

/-- What a derivation asked for and did, and how it ended. -/
structure Derivation where
  asked : List Listing
  calls : List Extract
  /-- The programs that were started, for listings and for sections. -/
  started : List Call
  leftovers : List Leftover
  tree : FileTree
  outcome : Except Failure Configuration

/-- The configuration of an analysed image whose sections have been extracted. -/
def Analysis.configuration (a : Analysis) (o : Options) (blobs : List SectionBlob) : Configuration where
  isa := a.isa
  layout := a.layout
  start := a.survey.start
  halts := a.survey.halts
  ignores := a.survey.ignores
  blobs := blobs
  timeout := o.timeout

/-- The derivation under the given options, with blobs in the directory. -/
def derive (storage : Storage) (o : Options) (source : Source) (x : Extractor) (dir : Path)
    (t : FileTree) : Derivation :=
  let inquiry := source.analyze o
  match inquiry.outcome with
  | .error failure => ⟨inquiry.asked, [], inquiry.started, [], t, .error failure⟩
  | .ok analysis =>
    match clearBlobs storage dir t with
    | (left, .error cause) => ⟨inquiry.asked, [], inquiry.started, [], left, .error (.io cause)⟩
    | (cleared, .ok ()) =>
      let e := extractAll storage x dir analysis.sections cleared
      ⟨inquiry.asked, e.calls, inquiry.started ++ e.started, e.leftovers, e.tree,
        match e.outcome with
        | .ok blobs => .ok (analysis.configuration o blobs)
        | .error failure => .error (.ofMetadata failure)⟩

end FaultPlan
