/-
  What extracting and rolling back reach, in trees of any kind.

  An extractor may be contained: it changes at most the file that its destination leads to, through
  whatever links.  Then a row of calls changes the targets of its destinations, and discarding takes
  away ends of paths, links among them (`discard_loses`).  So all that a failed extraction changes is
  a target or an end of a path that the extractor was called with (`Extracts.discarded_reach`).
-/
import FaultPlan.Proofs.Section.Extracting

namespace FaultPlan

variable {storage : Storage} {x : Extractor} {dir : Path} {t t' : FileTree}

/-- Discarding changes nothing but the ends of the paths. -/
theorem FileTree.discard_loses {paths : List Path} :
    t.Loses (fun p => ∃ path ∈ paths, t.endOf? path = some p) (discard storage paths t).1 := by
  induction paths generalizing t with
  | nil => exact Loses.refl _ _
  | cons path paths ih =>
    have hlater : ∀ {t' : FileTree}, t.Loses (fun p => t.endOf? path = some p) t' →
        t.Loses (fun p => ∃ path' ∈ path :: paths, t.endOf? path' = some p)
          (discard storage paths t').1 := by
      intro t' hfirst
      refine (hfirst.mono fun p hp => ⟨path, List.mem_cons_self, hp⟩).trans (ih.mono ?_)
      rintro p ⟨path', hpath', hp⟩
      exact ⟨path', List.mem_cons_of_mem _ hpath', hfirst.endOf? hp⟩
    rw [discard]
    cases h : storage.unlink t path with
    | ok t' => exact hlater (Loses.of_unlink (Storage.unlink_eq_ok_iff.1 h).1)
    | error fault => cases fault <;> exact hlater (Loses.refl _ _)

namespace Extractor

/-- A call changes at most the file that its destination leads to or would lead to, whatever links
    it leads through. -/
def Contained (x : Extractor) : Prop :=
  ∀ turn sectionName destination (t : FileTree),
    t.SameBut (fun p => t.target? destination = some p) (x turn sectionName destination t).1

theorem Contained.confined (hx : x.Contained) : x.Confined :=
  fun turn sectionName destination t _ => hx turn sectionName destination t

theorem Contained.keepsTo (hx : x.Contained) (t : FileTree) : x.KeepsTo t := by
  intro turn sectionName destination u u' _ h
  have hframe := hx turn sectionName destination u
  rwa [h] at hframe

/-- **A failed extraction** changes nothing but the targets of the destinations that it made calls
    for, and their ends. -/
theorem Extracts.discarded_reach (storage : Storage) (hx : x.Contained) {turn next : Nat}
    {before : List LoadableSection} {s : LoadableSection} {t'' : FileTree}
    {failure : MetadataFailure} (hbefore : x.Extracts dir turn before t t')
    (hfails : x next s.name (blobPath dir s.name) t' = (t'', .error failure)) :
    t.Loses (fun p => ∃ s' ∈ before ++ [s], t.target? (blobPath dir s'.name) = some p ∨
        t.endOf? (blobPath dir s'.name) = some p)
      (discard storage ((before ++ [s]).map fun s => blobPath dir s.name) t'').1 := by
  have hrow := hbefore.frame (hx.keepsTo t)
  have hcall := hx next s.name (blobPath dir s.name) t'
  rw [hfails] at hcall
  have hsofar : t.SameBut
      (fun p => ∃ s' ∈ before ++ [s], t.target? (blobPath dir s'.name) = some p) t'' := by
    refine (hrow.andThen hcall).mono ?_
    rintro p (⟨s', hs', hp⟩ | hp)
    · exact ⟨s', List.mem_append_left _ hs', hp⟩
    · rw [hrow.target?_congr] at hp
      exact ⟨s, List.mem_append_right _ List.mem_cons_self, hp⟩
  -- the ends that are taken away are ends in the first tree: calls leave directories and links as
  -- they are
  refine (hsofar.loses.mono ?_).trans (FileTree.discard_loses.mono ?_)
  · rintro p ⟨s', hs', hp⟩
    exact ⟨s', hs', Or.inl hp⟩
  · rintro p ⟨path, hpath, hp⟩
    obtain ⟨s', hs', rfl⟩ := List.mem_map.1 hpath
    exact ⟨s', hs', Or.inr (hsofar.loses.endOf? hp)⟩

end Extractor
end FaultPlan
