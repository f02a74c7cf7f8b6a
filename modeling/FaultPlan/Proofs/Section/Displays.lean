/-
  Blob paths as they are displayed.

  Displaying a path keeps what is a text of it and puts U+FFFD for the rest.  A blob's path is its
  directory, perhaps a slash, and a text, so that only the directory can suffer
  (`display_blobPath`).  The displayed path leads to the blob exactly if the directory is a text
  (`ofText_display_blobPath_iff`).
-/
import FaultPlan.Proofs.Files.Joining

namespace FaultPlan

/-! ## Paths that are texts -/

namespace Path

variable {dir : Path}

theorem joinPath_isText_iff {file : String} :
    (∃ text : String, joinPath dir file = text) ↔ ∃ text : String, dir = text := by
  by_cases hdir : dir = []
  · subst hdir
    exact iff_of_true ⟨file, rfl⟩ ⟨"", rfl⟩
  obtain ⟨before, hjoin, hbefore⟩ := Route.exists_joinPath_eq file hdir
  have hslash : slash < 0x80 := by decide
  have hjoined : (∃ text : String, joinPath dir file = text) ↔ ∃ text : String, before = text := by
    rw [hjoin]
    constructor
    · rintro ⟨text, h⟩
      exact Utf8.exists_encode_of_append_ascii _ hslash h
    · rintro ⟨text, rfl⟩
      refine ⟨text ++ ("/" ++ file), ?_⟩
      rw [ofText_append, ofText_append]
      rfl
  rw [hjoined]
  rcases hbefore with rfl | rfl
  · rfl
  · constructor
    · rintro ⟨text, rfl⟩
      refine ⟨text ++ "/", ?_⟩
      rw [ofText_append]
      rfl
    · rintro ⟨text, h⟩
      exact Utf8.exists_encode_of_append_ascii [] hslash h

end Path

/-! ## Blobs -/

variable {dir : Path}

/-- **The displayed path leads to the blob** exactly if the directory is a text. -/
theorem ofText_display_blobPath_iff (sectionName : String) :
    Path.ofText (blobPath dir sectionName).display = blobPath dir sectionName ↔
      ∃ text : String, dir = text := by
  rw [Path.ofText_display_iff, blobPath, Path.joinPath_isText_iff]

/-- **A blob's path is displayed** as its directory, perhaps a slash, and the name of its file. -/
theorem display_blobPath (dir : Path) : ∃ between : String, (between = "" ∨ between = "/") ∧
    ∀ sectionName, (blobPath dir sectionName).display =
      dir.display ++ between ++ (blobStem ++ sectionName) := by
  obtain ⟨between, hbetween, hjoin⟩ := Route.joinPath_eq_append dir
  have hhead : ∀ sectionName : String,
      (Utf8.encode (blobStem ++ sectionName)).head? = some 0x63 := fun sectionName => by
    rw [Utf8.encode_append, List.head?_append]
    rfl
  have hslash : ∀ bytes : Bytes, Utf8.decodeLossy (bytes ++ [slash]) = Utf8.decodeLossy bytes ++ "/" :=
    fun bytes => by
      rw [Utf8.decodeLossy_append_ascii (by decide)]
      rfl
  rcases hbetween with rfl | rfl
  · refine ⟨"", Or.inl rfl, fun sectionName => ?_⟩
    rw [blobPath, hjoin, Path.display, Path.ofText,
      Utf8.decodeLossy_append_encode (by decide) (hhead sectionName), List.append_nil,
      String.append_empty]
    rfl
  · refine ⟨"/", Or.inr rfl, fun sectionName => ?_⟩
    rw [blobPath, hjoin, Path.display, Path.ofText,
      Utf8.decodeLossy_append_encode (by decide) (hhead sectionName), hslash]
    rfl

end FaultPlan
