/-
  The part of a file tree that a derivation touches.

  A derivation changes blob files in its directory, and the targets and ends of the paths that it
  calls the extractor with (`Derivation.Course.loses`).  These stand directly in the directory too, under names
  that begin like a blob's, unless something there leads a path on: a link, or for the name of a
  section with slashes a directory (`derivation_keeps_to_its_namespace`).  Clearing leaves links and
  directories in place, so both can be there, and then files outside the directory are overwritten
  and removed (`links_and_slashes_lead_out`).
-/
import FaultPlan.Proofs.Bench.Copying
import FaultPlan.Proofs.Run.Derived

namespace FaultPlan

variable {storage : Storage} {o : Options} {source : Source} {x : Extractor} {dir : Path}
  {t : FileTree} {p : Place}

/-- The place lies directly in the directory that the path leads to, under a name that begins like a
    blob's. -/
def FileTree.BlobPlace (t : FileTree) (dir : Path) (p : Place) : Prop :=
  ∃ place name, t.home? dir = some place ∧ p = place ++ [name] ∧ isBlobName name = true

theorem FileTree.HoldsBlob.blobPlace (h : t.HoldsBlob dir p) : t.BlobPlace dir p := by
  obtain ⟨place, name, contents, hplace, hp, -, hname, -⟩ := h
  have hdir : dir ≠ [] := FileTree.ne_nil_of_directoryAt hplace
  exact ⟨place, name, (FileTree.home?_of_directoryAt hdir).2 hplace, hp, hname⟩

/-- The destination of a call that extracts a section is the path of the section's blob. -/
theorem Derivation.Course.destination {d : Derivation}
    (h : Course storage o source x dir t d)
    {call : Extract} (hcall : call ∈ d.calls) :
    call.destination = blobPath dir call.sectionName := by
  cases h with
  | unanalysed | uncleared => nomatch hcall
  | unextracted | derived =>
    obtain ⟨s, -, rfl⟩ := List.mem_map.1 hcall
    rfl

/-- **A derivation** changes blobs, and targets and ends of the paths that it makes calls for. -/
theorem Derivation.Course.loses {d : Derivation} (hx : x.Contained)
    (h : Course storage o source x dir t d) :
    t.Loses (fun p => t.HoldsBlob dir p ∨ ∃ call ∈ d.calls,
      t.target? call.destination = some p ∨ t.endOf? call.destination = some p) d.tree := by
  cases h with
  | unanalysed => exact FileTree.Loses.refl _ t
  | uncleared ha hclear =>
    have hcleared := FileTree.clearBlobs_sameBut storage dir t
    rw [hclear] at hcleared
    exact hcleared.loses.mono fun p => Or.inl
  | @unextracted a cleared t' t'' before after s failure ha hclear hsections hbefore hfails =>
    have hcleared := FileTree.clearBlobs_sameBut storage dir t
    rw [hclear] at hcleared
    refine (hcleared.loses.mono fun p => Or.inl).trans
      ((hbefore.discarded_reach storage hx hfails).mono ?_)
    rintro p ⟨s', hs', hp⟩
    refine Or.inr ⟨s'.callIn dir, List.mem_map_of_mem hs', ?_⟩
    rw [hcleared.target?_congr] at hp
    exact hp.imp id hcleared.loses.endOf?
  | @derived a cleared t' ha hclear hrow =>
    have hcleared := FileTree.clearBlobs_sameBut storage dir t
    rw [hclear] at hcleared
    refine (hcleared.loses.mono fun p => Or.inl).trans
      ((hrow.frame (hx.keepsTo cleared)).loses.mono ?_)
    rintro p ⟨s', hs', hp⟩
    rw [hcleared.target?_congr] at hp
    exact Or.inr ⟨s'.callIn dir, List.mem_map_of_mem hs', Or.inl hp⟩

/-- **A derivation keeps to its namespace.**  Whatever else there is in the tree, all directories
    and the current one stay, and what is created, changed or removed lies directly in the directory
    of the blobs, under a name that begins like a blob's.  The exception is a section whose blob's
    path is led on by what stands there under its first name, a link or, if the name of the section
    has a slash, a directory: then it may be the target of the path, or, with a slash, its end. -/
theorem derivation_keeps_to_its_namespace (storage : Storage) (o : Options) (source : Source)
    (dir : Path) (t : FileTree) (hx : x.Contained) :
    let d := derive storage o source x dir t
    d.tree.cwd = t.cwd ∧
    (∀ p, d.tree.get? p = some .directory ↔ t.get? p = some .directory) ∧
    ∀ p, d.tree.get? p ≠ t.get? p → t.BlobPlace dir p ∨
      ∃ call ∈ d.calls, ∃ place, t.home? dir = some place ∧ t.LeadsOn place call.sectionName ∧
        (t.target? call.destination = some p ∨
          '/' ∈ call.sectionName.toList ∧ t.endOf? call.destination = some p) := by
  intro d
  have hcourse : Derivation.Course storage o source x dir t d := course_derive storage o source x dir t
  have hloses := hcourse.loses hx
  refine ⟨hloses.cwd, hloses.directory, fun p hp => ?_⟩
  have hplace : ∀ place sectionName, t.home? dir = some place →
      t.BlobPlace dir (place ++ [blobHead sectionName]) := fun place sectionName hhome =>
    ⟨place, _, hhome, rfl, isBlobName_blobHead sectionName⟩
  rcases Classical.not_not.1 (mt (hloses.same p) hp) with hblob | ⟨call, hcall, htarget | hend⟩
  · exact Or.inl hblob.blobPlace
  · have hdest := htarget
    rw [hcourse.destination hcall] at hdest
    obtain ⟨place, hhome, ⟨-, rfl⟩ | hon⟩ := FileTree.target?_blobPath hdest
    · exact Or.inl (hplace place _ hhome)
    · exact Or.inr ⟨call, hcall, place, hhome, hon, Or.inl htarget⟩
  · have hdest := hend
    rw [hcourse.destination hcall] at hdest
    obtain ⟨place, hhome, rfl | ⟨hslash, hon⟩⟩ := FileTree.endOf?_blobPath hdest
    · exact Or.inl (hplace place _ hhome)
    · exact Or.inr ⟨call, hcall, place, hhome, hon, Or.inr ⟨hslash, hend⟩⟩

/-- A link to a file outside stays as it is, and so does the file; the blob that is made stands
    beside it. -/
theorem derivation_keeps_to_its_namespace_beside_link :
    let o := (Options.new "main").withHalt "win"
    let source := Source.ofTexts "Tag_CPU_name:\"6-M\"" "flash 0 100\nram 200 10\n"
      "10 g F main\n40 g F win\n" "0 .text 8 0 0 0 2\nALLOC\n"
    let copier : Copier := ⟨Utf8.encode, fun _ => none, ⟨[], [], .code 1⟩⟩
    let x := (Build.mk .arm "elf" "map").extractor (Shelf.only "arm-none-eabi-objcopy" copier.run).bench
    let t := ((FileTree.empty.put ["out"] .directory).put ["kept"] (.file (Utf8.encode "mine"))).put
      ["out", "code_section.data"] (.link "../kept")
    let d := derive .plain o source x "out" t
    d.tree.get? ["out", "code_section.text"] = some (.file (Utf8.encode ".text")) ∧
      ∀ p, d.tree.get? p ≠ t.get? p → t.BlobPlace "out" p := by
  intro o source copier x t d
  refine ⟨by decide +kernel, fun p hp => ?_⟩
  obtain ⟨-, -, hchanged⟩ :=
    derivation_keeps_to_its_namespace .plain o source "out" t
      (Build.extractor_contained _ (Shelf.only_confined copier.run_confined))
  rcases hchanged p hp with hblob | ⟨call, hcall, place, hhome, hon, -⟩
  · exact hblob
  · -- nothing stands where the only blob is to be made
    have hcalls : d.calls = [⟨".text", "out/code_section.text"⟩] := by decide +kernel
    have hout : t.home? "out" = some (["out"] : Place) := by decide +kernel
    have hnone : t.get? ["out", "code_section.text"] = none := by decide +kernel
    obtain rfl := List.mem_singleton.1 (hcalls ▸ hcall)
    obtain rfl := Option.some.inj (hhome.symm.trans hout)
    rcases hon with ⟨target, hlink⟩ | ⟨hslash, -⟩
    · nomatch hnone.symm.trans hlink
    · exact absurd hslash (by decide)

/-- **Links and slashes lead out of the directory.**  A link that an earlier derivation could have
    left is still there when the section is extracted, and the file that it leads to is overwritten.
    The name of a section may lead up again from a directory that stands beside the blobs, and when
    its extraction fails the file that it leads to is removed. -/
theorem links_and_slashes_lead_out :
    let o := (Options.new "main").withHalt "win"
    let source (name : String) := Source.ofTexts "Tag_CPU_name:\"6-M\"" "flash 0 100\nram 200 10\n"
      "10 g F main\n40 g F win\n" ("0 " ++ name ++ " 8 0 0 0 2\nALLOC\n")
    let copier (fault : Option CopyFault) : Copier := ⟨Utf8.encode, fun _ => fault, ⟨[], [], .code 1⟩⟩
    let x (fault : Option CopyFault) := (Build.mk .arm "elf" "map").extractor
      (Shelf.only "arm-none-eabi-objcopy" (copier fault).run).bench
    let t := (FileTree.empty.put ["out"] .directory).put ["kept"] (.file (Utf8.encode "mine"))
    let linked := t.put ["out", "code_section.text"] (.link "../kept")
    let nested := t.put ["out", "code_section.d"] .directory
    (x none).Contained ∧ (x (some ⟨⟨[], [], .code 1⟩, false⟩)).Contained ∧
      (linked.get? ["kept"] = some (.file (Utf8.encode "mine")) ∧
        (derive .plain o (source ".text") (x none) "out" linked).tree.get? ["kept"]
          = some (.file (Utf8.encode ".text")) ∧
        ¬ linked.BlobPlace "out" ["kept"]) ∧
      nested.get? ["kept"] = some (.file (Utf8.encode "mine")) ∧
        (derive .plain o (source ".d/../../kept") (x (some ⟨⟨[], [], .code 1⟩, false⟩)) "out"
          nested).tree.get? ["kept"] = none ∧
        ¬ nested.BlobPlace "out" ["kept"] := by
  intro o source copier x t linked nested
  have houtside : ∀ {t : FileTree}, t.home? "out" = some (["out"] : Place) → ¬ t.BlobPlace "out" ["kept"] := by
    rintro t hout ⟨place, name, hhome, hp, -⟩
    obtain rfl := Option.some.inj (hhome.symm.trans hout)
    exact absurd (congrArg List.length hp) (by simp)
  have hcontained : ∀ fault, (x fault).Contained := fun fault =>
    Build.extractor_contained _ (Shelf.only_confined (copier fault).run_confined)
  exact ⟨hcontained _, hcontained _,
    ⟨by decide +kernel, by decide +kernel, houtside (by decide +kernel)⟩,
    by decide +kernel, by decide +kernel, houtside (by decide +kernel)⟩

end FaultPlan
