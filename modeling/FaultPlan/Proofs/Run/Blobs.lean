/-
  The files that a derivation leaves.

  A derivation whose extraction fails leaves no blob behind, neither one that it made nor one of an
  earlier derivation, but for files that cannot be removed (`failed_extraction_leaves_no_blob`).  One
  that succeeds leaves exactly the blobs of its own sections (`derived_blobs_exact`).  In both cases
  all other files are as they were.  The trees are without links, and what is asked of the extractor
  is that it keeps to its destination.

  A blob has a name that is a text, in a directory that has a path.  A file whose name only begins
  like a blob's stays, and so does what stands in the current directory where the path is empty
  (`failed_extraction_leaves_others`, `derived_blobs_beside_others`).
-/
import FaultPlan.Proofs.Bench.Copying
import FaultPlan.Proofs.Run.Derived
import FaultPlan.Proofs.Section.Listed

namespace FaultPlan

variable {storage : Storage} {o : Options} {source : Source} {x : Extractor} {dir : Path}
  {t : FileTree}

/-- **A failed extraction leaves no blob.**  Once the sections are analysed and the blobs of earlier
    derivations cleared, a derivation can fail only with its extractor: the sections before some
    section have been extracted, one call each, and the call for that section has failed.  The failure
    is that call's, a failed tool as one of its own.  Then a destination of a call leads to a file only
    if the storage refuses to remove it by that path, and the directory holds no blob but such a file;
    all that was neither the file of a destination nor a blob in the directory is as it was. -/
theorem failed_extraction_leaves_no_blob {a : Analysis} {cleared : FileTree} {f : Failure}
    (hfree : t.LinkFree) (hx : x.Confined) (ha : (source.analyze o).outcome = .ok a)
    (hclear : clearBlobs storage dir t = (cleared, .ok ()))
    (hf : (derive storage o source x dir t).outcome = .error f) :
    let d := derive storage o source x dir t
    ∃ before s after t' t'' failure, a.sections = before ++ s :: after ∧
      x.Extracts dir 0 before cleared t' ∧
      x before.length s.name (blobPath dir s.name) t' = (t'', .error failure) ∧
      d.calls = (before ++ [s]).map (fun s => ⟨s.name, blobPath dir s.name⟩) ∧
      (∀ g, failure = .toolFailed g → f = .toolFailed g) ∧
      ((∀ g, failure ≠ .toolFailed g) → f = .metadata failure) ∧
      (∀ call ∈ d.calls, ∀ p, d.tree.LeadsTo call.destination p →
        storage.refusal? call.destination ≠ none) ∧
      (∀ p, d.tree.HoldsBlob dir p → ∃ call ∈ d.calls, d.tree.LeadsTo call.destination p) ∧
      t.SameBut (fun p => t.HoldsBlob dir p ∨
        ∃ call ∈ d.calls, t.target? call.destination = some p) d.tree := by
  intro d
  obtain ⟨before, s, after, t', t'', failure, hsections, hbefore, hfails, hfailure, hderive⟩ :=
    derive_of_error ha hclear hf
  have hcalls : d.calls = (before ++ [s]).map (·.callIn dir) := congrArg Derivation.calls hderive
  have htree : d.tree = (discard storage ((before ++ [s]).map fun s => blobPath dir s.name) t'').1 :=
    congrArg Derivation.tree hderive
  -- the calls and their removal come after the clearing, which has kept all paths to files
  have hcleared := FileTree.clearBlobs_sameBut storage dir t
  rw [hclear] at hcleared
  obtain ⟨hframe, hgone⟩ := hbefore.rolled_back storage hx (hcleared.linkFree hfree) hfails
  rw [← htree] at hframe hgone
  have hcall : ∀ p, (∃ s' ∈ before ++ [s], cleared.target? (blobPath dir s'.name) = some p) ↔
      ∃ call ∈ d.calls, t.target? call.destination = some p := by
    intro p
    simp only [hcalls, hcleared.target?_eq hfree]
    constructor
    · rintro ⟨s', hs', hp⟩
      exact ⟨s'.callIn dir, List.mem_map_of_mem hs', hp⟩
    · rintro ⟨call, hmem, hp⟩
      obtain ⟨s', hs', rfl⟩ := List.mem_map.1 hmem
      exact ⟨s', hs', hp⟩
  have hall := (hcleared.andThen hframe).mono fun p => Or.imp id (hcall p).1
  have hleads : ∀ path p, d.tree.LeadsTo path p ↔
      t.target? path = some p ∧ ∃ contents, d.tree.get? p = some (.file contents) := by
    intro path p
    rw [FileTree.leadsTo_iff (hall.linkFree hfree), hall.target?_eq hfree]
  refine ⟨before, s, after, t', t'', failure, hsections, hbefore, hfails, hcalls,
    ?_, ?_, ?_, ?_, hall⟩
  · rintro g rfl
    exact hfailure
  · intro hother
    cases failure with
    | toolFailed g => exact absurd rfl (hother g)
    | spawn | read | malformedHeader => exact hfailure
  · intro call hmem p hlead hallowed
    obtain ⟨hp, contents, hfile⟩ := (hleads _ p).1 hlead
    obtain ⟨s', hs', rfl⟩ := List.mem_map.1 (hcalls ▸ hmem)
    rw [← hcleared.target?_eq hfree] at hp
    nomatch hfile.symm.trans (hgone s' hs' hallowed p hp)
  · intro p hblob
    obtain ⟨call, hmem, hp⟩ := (hcall p).1 (hblob.changed hclear hframe)
    obtain ⟨_, _, contents, -, -, -, -, hfile⟩ := hblob
    exact ⟨call, hmem, (hleads _ p).2 ⟨hp, contents, hfile⟩⟩

/-- The copier is ended by a signal when it has written the second of two sections. -/
theorem failed_extraction_leaves_no_blob_half_written :
    let o := (Options.new "main").withHalt "win"
    let source := Source.ofTexts "Tag_CPU_name:\"6-M\"" "flash 0 100\nram 200 10\n"
      "10 g F main\n40 g F win\n" "0 .a 8 0 0 0 2\nALLOC\n1 .b 8 0 0 0 2\nALLOC\n"
    let copier : Copier := ⟨fun _ => [7],
      fun name => if name = ".b" then some ⟨⟨[], [], .signal⟩, true⟩ else none,
      ⟨[], [], .code 1⟩⟩
    let x := (Build.mk .arm "elf" "map").extractor (Shelf.only "arm-none-eabi-objcopy" copier.run).bench
    let t := (FileTree.empty.put ["out"] .directory).put ["out", "code_section.c"] (.file [1])
    let d := derive .plain o source x "out" t
    d.outcome = .error (.toolFailed
        ⟨"arm-none-eabi-objcopy -O binary --only-section=.b elf out/code_section.b", none, "", ""⟩) ∧
      ∀ p, ¬ d.tree.HoldsBlob "out" p := by
  intro o source copier x t d
  have ha : (source.analyze o).outcome = .ok ⟨.armv6m, ⟨⟨0, 0x100⟩, ⟨0x200, 0x10⟩⟩,
      ⟨0x10, [⟨"win", 0x40⟩], []⟩, [⟨".a", 0⟩, ⟨".b", 0⟩]⟩ := by rfl
  have hclear : (clearBlobs .plain "out" t).2 = .ok () := by decide +kernel
  have hf : d.outcome = .error (.toolFailed
      ⟨"arm-none-eabi-objcopy -O binary --only-section=.b elf out/code_section.b", none, "", ""⟩) := by
    decide +kernel
  have hx : x.Confined :=
    (Build.extractor_contained _ (Shelf.only_confined copier.run_confined)).confined
  obtain ⟨-, -, -, -, -, -, -, -, -, -, -, -, hleads, hblob, -⟩ :=
    failed_extraction_leaves_no_blob (by decide) hx ha (Prod.ext rfl hclear) hf
  refine ⟨hf, fun p hp => ?_⟩
  obtain ⟨call, hcall, hlead⟩ := hblob p hp
  exact hleads call hcall p hlead rfl

/-- **Files that a failed extraction leaves.**  A file whose name is no text stays, one that the
    storage refuses to remove, and one in the current directory where the path is empty. -/
theorem failed_extraction_leaves_others :
    let o := (Options.new "main").withHalt "win"
    let source := Source.ofTexts "Tag_CPU_name:\"6-M\"" "flash 0 100\nram 200 10\n"
      "10 g F main\n40 g F win\n" "0 .a 8 0 0 0 2\nALLOC\n"
    let copier : Copier := ⟨fun _ => [7], fun _ => some ⟨⟨[], [], .code 1⟩, true⟩, ⟨[], [], .code 1⟩⟩
    let x := (Build.mk .arm "elf" "map").extractor (Shelf.only "arm-none-eabi-objcopy" copier.run).bench
    let out := FileTree.empty.put ["out"] .directory
    let unread := derive .plain o source x "out"
      (out.put ["out", Path.ofText "code_section" ++ [0xFF]] (.file [1]))
    let refused := derive (.refusing .permissionDenied nofun) o source x "out" out
    let pathless := derive .plain o source x "" (FileTree.empty.put ["code_section.old"] (.file [1]))
    let failure (path : String) := Failure.toolFailed
      ⟨"arm-none-eabi-objcopy -O binary --only-section=.a elf " ++ path, some 1, "", ""⟩
    x.Confined ∧
      unread.outcome = .error (failure "out/code_section.a") ∧
        unread.tree.get? ["out", Path.ofText "code_section" ++ [0xFF]] = some (.file [1]) ∧
      refused.outcome = .error (failure "out/code_section.a") ∧
        refused.tree.get? ["out", "code_section.a"] = some (.file [7]) ∧
      pathless.outcome = .error (failure "code_section.a") ∧
        pathless.tree.get? ["code_section.old"] = some (.file [1]) := by
  intro o source copier x out unread refused pathless failure
  refine ⟨(Build.extractor_contained _ (Shelf.only_confined copier.run_confined)).confined, ?_⟩
  decide +kernel

/-- **A derivation leaves exactly its own blobs.**  The extractor has been called once for each loaded
    section, in the order of the headers.  The path of each blob leads to a file, which holds the bytes
    of the last section whose blob's path leads there; every blob file in the directory is one of
    these; and all that is not one of these, nor was a blob in the directory before, is as it was. -/
theorem derived_blobs_exact {bytes : String → Bytes} {c : Configuration} (hfree : t.LinkFree)
    (hx : x.Writes bytes) (hc : (derive storage o source x dir t).outcome = .ok c) :
    let d := derive storage o source x dir t
    ∃ text headers, source .sectionHeaders = .ok text ∧ SectionHeader.ofListing text = .ok headers ∧
      let sections := SectionHeader.loadable headers
      d.calls = sections.map (fun s => ⟨s.name, blobPath dir s.name⟩) ∧
      c.blobs = sections.map (·.blobIn dir) ∧
      (∀ s ∈ sections, ∃ p before last after, sections = before ++ last :: after ∧
        d.tree.followPath .find (blobPath dir s.name) = .ok (.at p (.file (bytes last.name))) ∧
        d.tree.LeadsTo (blobPath dir last.name) p ∧
        ∀ s' ∈ after, ¬ d.tree.LeadsTo (blobPath dir s'.name) p) ∧
      (∀ p, d.tree.HoldsBlob dir p → ∃ b ∈ c.blobs, d.tree.LeadsTo b.path p) ∧
      t.SameBut (fun p => t.HoldsBlob dir p ∨ ∃ b ∈ c.blobs, d.tree.LeadsTo b.path p) d.tree := by
  intro d
  obtain ⟨a, cleared, t', ha, hclear, hrow, hderive⟩ := derive_of_ok hc
  obtain ⟨text, headers, htext, hheaders, hsections⟩ := ha.sections
  refine ⟨text, headers, htext, hheaders, ?_⟩
  rw [hsections]
  have hcalls : d.calls = a.sections.map (·.callIn dir) := congrArg Derivation.calls hderive
  have htree : d.tree = t' := congrArg Derivation.tree hderive
  have hblobs : c.blobs = a.sections.map (·.blobIn dir) := by
    rw [hderive] at hc
    rw [← Except.ok.inj hc]
    rfl
  rw [← htree] at hrow
  -- the calls come after the clearing, and neither changes where paths lead
  have hcleared := FileTree.clearBlobs_sameBut storage dir t
  rw [hclear] at hcleared
  have hclearedFree := hcleared.linkFree hfree
  have hframe := hrow.frame (hx.keepsTo hclearedFree)
  have hwritten := hrow.last_writes hx hclearedFree
  have htarget := hframe.target?_eq hclearedFree
  have hfinalFree := hframe.linkFree hclearedFree
  have hleads : ∀ s ∈ a.sections, ∀ p, d.tree.LeadsTo (blobPath dir s.name) p ↔
      cleared.target? (blobPath dir s.name) = some p := by
    intro s hs p
    rw [FileTree.leadsTo_iff hfinalFree, htarget]
    refine and_iff_left_of_imp fun hp => ?_
    obtain ⟨q, _, last, _, hq, -, -, -, hfile⟩ := hwritten s hs
    obtain rfl := Option.some.inj (hq.symm.trans hp)
    exact ⟨_, hfile⟩
  have hblob : ∀ p, (∃ s ∈ a.sections, cleared.target? (blobPath dir s.name) = some p) →
      ∃ b ∈ c.blobs, d.tree.LeadsTo b.path p := by
    rintro p ⟨s, hs, hp⟩
    rw [hblobs]
    exact ⟨s.blobIn dir, List.mem_map_of_mem hs, (hleads s hs p).2 hp⟩
  refine ⟨hcalls, hblobs, ?_, fun p hp => hblob p (hp.changed hclear hframe),
    (hcleared.andThen hframe).mono fun p => Or.imp id (hblob p)⟩
  intro s hs
  obtain ⟨p, before, last, after, hp, hsplit, hlast, hafter, hfile⟩ := hwritten s hs
  have hmem : ∀ s' ∈ last :: after, s' ∈ a.sections := fun s' hs' => by
    rw [hsplit]
    exact List.mem_append_right _ hs'
  refine ⟨p, before, last, after, hsplit, ?_, ?_, ?_⟩
  · rw [FileTree.followPath_eq_file_iff hfinalFree, htarget]
    exact ⟨hp, hfile⟩
  · exact (hleads last (hmem last List.mem_cons_self) p).2 hlast
  · intro s' hs' hp'
    exact hafter s' hs' ((hleads s' (hmem s' (List.mem_cons_of_mem _ hs')) p).1 hp')

/-- Two blobs lead to one file, through a directory whose name begins like a blob's; the blob of an
    earlier derivation is gone. -/
theorem derived_blobs_exact_one_file :
    let o := (Options.new "main").withHalt "win"
    let source := Source.ofTexts "Tag_CPU_name:\"6-M\"" "flash 0 100\nram 200 10\n"
      "10 g F main\n40 g F win\n"
      "0 .a 8 0 0 0 2\nALLOC\n1 .d/../code_section.a 8 0 0 0 2\nALLOC\n"
    let copier : Copier := ⟨fun name => if name = ".a" then [1] else [2], fun _ => none,
      ⟨[], [], .code 1⟩⟩
    let x := (Build.mk .arm "elf" "map").extractor (Shelf.only "arm-none-eabi-objcopy" copier.run).bench
    let t := ((FileTree.empty.put ["out"] .directory).put ["out", "code_section.c"] (.file [1])).put
      ["out", "code_section.d"] .directory
    let d := derive .plain o source x "out" t
    ∃ c, d.outcome = .ok c ∧ c.blobs = [⟨".a", 0, "out/code_section.a"⟩,
        ⟨".d/../code_section.a", 0, "out/code_section.d/../code_section.a"⟩] ∧
      ∀ p, d.tree.HoldsBlob "out" p → ∃ b ∈ c.blobs, d.tree.LeadsTo b.path p := by
  intro o source copier x t d
  have hc : d.outcome = .ok ⟨.armv6m, ⟨⟨0, 0x100⟩, ⟨0x200, 0x10⟩⟩, 0x10, [⟨"win", 0x40⟩], [],
      [⟨".a", 0, "out/code_section.a"⟩,
        ⟨".d/../code_section.a", 0, "out/code_section.d/../code_section.a"⟩], none⟩ := by
    decide +kernel
  have hcopier : copier.Honest := ⟨nofun, rfl⟩
  obtain ⟨-, -, -, -, -, -, -, hblob, -⟩ :=
    derived_blobs_exact (by decide) (Build.extractor_writes (by rfl) hcopier) hc
  exact ⟨_, hc, rfl, hblob⟩

/-- **Files beside the blobs of a derivation.**  A file whose name is no text stays, and one in the
    current directory where the path is empty. -/
theorem derived_blobs_beside_others :
    let o := (Options.new "main").withHalt "win"
    let source := Source.ofTexts "Tag_CPU_name:\"6-M\"" "flash 0 100\nram 200 10\n"
      "10 g F main\n40 g F win\n" "0 .a 8 0 0 0 2\nALLOC\n"
    let copier : Copier := ⟨fun _ => [7], fun _ => none, ⟨[], [], .code 1⟩⟩
    let x := (Build.mk .arm "elf" "map").extractor (Shelf.only "arm-none-eabi-objcopy" copier.run).bench
    let unread := derive .plain o source x "out" ((FileTree.empty.put ["out"] .directory).put
      ["out", Path.ofText "code_section" ++ [0xFF]] (.file [1]))
    let pathless := derive .plain o source x "" (FileTree.empty.put ["code_section.old"] (.file [1]))
    let configuration (path : Path) : Configuration := ⟨.armv6m, ⟨⟨0, 0x100⟩, ⟨0x200, 0x10⟩⟩, 0x10,
      [⟨"win", 0x40⟩], [], [⟨".a", 0, path⟩], none⟩
    x.Writes copier.image ∧
      unread.outcome = .ok (configuration "out/code_section.a") ∧
        unread.tree.get? ["out", Path.ofText "code_section" ++ [0xFF]] = some (.file [1]) ∧
      pathless.outcome = .ok (configuration "code_section.a") ∧
        pathless.tree.get? ["code_section.old"] = some (.file [1]) := by
  intro o source copier x unread pathless configuration
  refine ⟨Build.extractor_writes (by rfl) ⟨nofun, rfl⟩, ?_⟩
  decide +kernel

end FaultPlan
