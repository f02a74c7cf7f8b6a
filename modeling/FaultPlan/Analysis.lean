/-
  The analysis of a firmware image: everything that can be told from its build listings.

  Four listings are read, each at most once and in a fixed order, and the first stage that fails
  ends the analysis: its failure is the answer, and no later listing is asked for.  An `Inquiry`
  keeps what was asked for, and the programs that were started for it, beside the outcome.
-/
import FaultPlan.Bench.Call
import FaultPlan.Isa
import FaultPlan.Memory.Layout
import FaultPlan.Section.Header
import FaultPlan.Symbol.Survey

namespace FaultPlan

/-- The listings of a build. -/
inductive Listing where
  | attributes
  | linkerMap
  | symbolTable
  | sectionHeaders
  deriving DecidableEq, Repr

/-- What came of asking for a listing. -/
structure Answer where
  /-- The programs that were started. -/
  started : List Call
  text : Except MetadataFailure String

/-- Where listings come from. -/
structure Source where
  answer : Listing → Answer

namespace Source

/-- The listing, or why it could not be had. -/
def text (source : Source) (listing : Listing) : Except MetadataFailure String :=
  (source.answer listing).text

/-- The programs that asking for the listing starts. -/
def starts (source : Source) (listing : Listing) : List Call := (source.answer listing).started

instance : CoeFun Source fun _ => Listing → Except MetadataFailure String := ⟨text⟩

/-- A source that starts no program. -/
def ofText (text : Listing → Except MetadataFailure String) : Source := ⟨fun l => ⟨[], text l⟩⟩

end Source

/-- Everything known about an image before any section is extracted. -/
structure Analysis where
  isa : Isa
  layout : Layout
  survey : Survey
  sections : List LoadableSection
  deriving DecidableEq, Repr

/-- Something found out by asking for listings. -/
structure Inquiry (α : Type) where
  /-- The listings that were asked for, in that order. -/
  asked : List Listing
  /-- The programs that were started. -/
  started : List Call
  outcome : Except Failure α

namespace Inquiry

/-- What is known without asking. -/
def found {α : Type} (a : α) : Inquiry α := ⟨[], [], .ok a⟩

/-- One inquiry after the other; the second is made if the first succeeds. -/
def andThen {α β : Type} (q : Inquiry α) (next : α → Inquiry β) : Inquiry β :=
  match q.outcome with
  | .error f => ⟨q.asked, q.started, .error f⟩
  | .ok a =>
    let r := next a
    ⟨q.asked ++ r.asked, q.started ++ r.started, r.outcome⟩

instance : Monad Inquiry where
  pure := found
  bind := andThen

end Inquiry

namespace Source

/-- One stage: a listing is had and read. -/
def stage {α : Type} (source : Source) (listing : Listing) (read : String → Except Failure α) :
    Inquiry α :=
  let answer := source.answer listing
  ⟨[listing], answer.started,
    match answer.text with
    | .ok text => read text
    | .error failure => .error (.ofMetadata failure)⟩

/-- The analysis under the given options. -/
def analyze (source : Source) (o : Options) : Inquiry Analysis := do
  let isa ← source.stage .attributes Isa.classify
  let layout ← source.stage .linkerMap Layout.ofMap
  let survey ← source.stage .symbolTable fun text =>
    Survey.ofSymbols o layout.endOfFlash (symbolTable text)
  let headers ← source.stage .sectionHeaders fun text =>
    (SectionHeader.ofListing text).mapError Failure.ofMetadata
  return ⟨isa, layout, survey, SectionHeader.loadable headers⟩

end Source
end FaultPlan
