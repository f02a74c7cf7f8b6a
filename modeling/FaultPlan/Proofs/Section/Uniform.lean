/-
  Extractions in trees that are alike.

  An extractor is uniform if trees that are alike make no difference to it: it ends alike in both and
  leaves them alike (`Extractor.Uniform`).  Then the calls for one section after the other keep the
  trees alike, and so does what is discarded when one of them fails.  So whole extractions make the
  same calls and end alike (`extractAfter_alike`).
-/
import FaultPlan.Proofs.Files.Alike
import FaultPlan.Proofs.Section.Extracting

namespace FaultPlan

variable {storage : Storage} {x : Extractor} {dir : Path} {t t' : FileTree}

/-- In trees that are alike the extractor does the same and ends alike, and leaves them alike. -/
def Extractor.Uniform (x : Extractor) : Prop :=
  ∀ {t t' : FileTree}, t.Alike t' → ∀ turn sectionName destination,
    (x turn sectionName destination t).1.Alike (x turn sectionName destination t').1 ∧
      (x turn sectionName destination t').2 = (x turn sectionName destination t).2 ∧
      x.starts turn sectionName destination t' = x.starts turn sectionName destination t

/-- The extractions did the same and ended alike, in trees that are alike. -/
structure Extraction.Alike (e e' : Extraction) : Prop where
  tree : e.tree.Alike e'.tree
  calls : e'.calls = e.calls
  started : e'.started = e.started
  leftovers : e'.leftovers = e.leftovers
  outcome : e'.outcome = e.outcome

theorem Storage.unlink_alike (storage : Storage) (h : t.Alike t') (path : Path) :
    FileTree.AlikeOr (storage.unlink t path) (storage.unlink t' path) := by
  have hunlink := h.unlink path
  unfold Storage.unlink
  generalize t.unlink path = r, t'.unlink path = r' at hunlink
  cases hunlink with
  | refused fault => exact .refused fault
  | made hu =>
    cases storage.refusal? path with
    | none => exact .made hu
    | some fault => exact .refused fault

theorem discard_alike (h : t.Alike t') (paths : List Path) :
    (discard storage paths t).1.Alike (discard storage paths t').1 ∧
      (discard storage paths t').2 = (discard storage paths t).2 := by
  induction paths generalizing t t' with
  | nil => exact ⟨h, rfl⟩
  | cons path paths ih =>
    have hunlink := storage.unlink_alike h path
    unfold discard
    generalize storage.unlink t path = r, storage.unlink t' path = r' at hunlink
    cases hunlink with
    | made hu => exact ih hu
    | refused fault =>
      obtain ⟨htree, hleft⟩ := ih h
      cases fault with
      | notFound => exact ⟨htree, hleft⟩
      | _ => exact ⟨htree, congrArg (Leftover.mk path _ :: ·) hleft⟩

/-- **Extractions by a uniform extractor** do the same in trees that are alike. -/
theorem extractAfter_alike (storage : Storage) (hx : x.Uniform) (dir : Path) (sections : List LoadableSection)
    (h : t.Alike t') (done : List SectionBlob) :
    (extractAfter storage x dir done sections t).Alike
      (extractAfter storage x dir done sections t') := by
  induction sections generalizing t t' done with
  | nil => exact ⟨h, rfl, rfl, rfl, rfl⟩
  | cons s rest ih =>
    obtain ⟨htree, hresult, hstarts⟩ := hx h done.length s.name (blobPath dir s.name)
    rw [extractAfter_cons, extractAfter_cons, hstarts]
    generalize x done.length s.name (blobPath dir s.name) t = r,
      x done.length s.name (blobPath dir s.name) t' = r' at htree hresult
    obtain ⟨u, result⟩ := r
    obtain ⟨u', result'⟩ := r'
    obtain rfl : result' = result := hresult
    cases result' with
    | ok =>
      have hafter := ih htree (done ++ [s.blobIn dir])
      exact ⟨hafter.tree, congrArg (s.callIn dir :: ·) hafter.calls,
        congrArg (x.starts done.length s.name (blobPath dir s.name) t ++ ·) hafter.started,
        hafter.leftovers, hafter.outcome⟩
    | error failure =>
      obtain ⟨hdiscarded, hleft⟩ := discard_alike htree (done.map (·.path) ++ [blobPath dir s.name])
      exact ⟨hdiscarded, rfl, rfl, hleft, rfl⟩

end FaultPlan
