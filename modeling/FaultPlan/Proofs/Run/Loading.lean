/-
  What the engine is told to load.

  A loaded section goes a long way: from two lines of the listing to a header, to a section to load,
  to a blob, to the operands of an option, and back to a path and an address when the engine reads its
  arguments.  No section is lost, added or put into another order on the way
  (`loaded_sections_exact`): the engine loads exactly the header rows of the listing that take up
  memory when the image runs.  What it reads of a path is what is displayed of it.
-/
import FaultPlan.Proofs.Run.Arguments
import FaultPlan.Proofs.Section.Positions

namespace FaultPlan

open Engine (Arguments)

/-- **Exactly the allocated sections that are not empty are loaded**, at their run-time address.  The
    lines of the header listing divide in one way into header rows and lines that are skipped.  The
    sections that the engine reads in the arguments of a derived configuration are, one by one and in
    the order of the listing, those of the rows whose size is not zero and whose following line has
    `ALLOC` as an item.  The path of each is that of the directory joined with `code_section` and the
    name of the section, as it is displayed, which is the path itself exactly if the directory is a
    text; and the address is the first of the two that the row gives. -/
theorem loaded_sections_exact {storage : Storage} {o : Options} {source : Source} {x : Extractor}
    {dir : Path} {t : FileTree} {c : Configuration}
    (hc : (derive storage o source x dir t).outcome = .ok c) :
    ∃ text parts a, source .sectionHeaders = .ok text ∧
      (∀ parts', IsDivision (Text.lines text) parts' ↔ parts' = parts) ∧
      Arguments.parse c.arguments = .ok a ∧
      List.Forall₂ (fun r (s : String × UInt64) => ∃ name path, r.name? = some name ∧
          path = joinPath dir (Path.ofText ("code_section" ++ name)) ∧ s.1 = path.display ∧
          (Path.ofText s.1 = path ↔ ∃ text : String, dir = text) ∧ r.number? 3 = some s.2)
        ((parts.filterMap ListingPart.row?).filter fun r => (∃ size ∈ r.number? 2, size ≠ 0) ∧
          ∃ flagLine ∈ r.flagLine, Text.HasItem "ALLOC" flagLine)
        a.sections := by
  obtain ⟨analysis, hyields, hparse⟩ := exists_yields_of_derive hc
  obtain ⟨text, headers, htext, hheaders, hsections⟩ := hyields.sections
  obtain ⟨parts, hparts⟩ := existsUnique_division (Text.lines text)
  have hloaded := ((hparts parts).2 rfl).loadable hheaders
  refine ⟨text, parts, _, htext, hparts, hparse, ?_⟩
  show List.Forall₂ _ ((parts.filterMap ListingPart.row?).filter (·.IsLoaded))
    (analysis.sections.map fun s => ((blobPath dir s.name).display, s.address))
  rw [← hsections, List.forall₂_map_right_iff]
  exact hloaded.imp fun r s ⟨hname, haddress⟩ =>
    ⟨s.name, _, hname, rfl, rfl, ofText_display_blobPath_iff s.name, haddress⟩

/-- Of six sections two are loaded.  One is empty, one has flags whose names only hold `ALLOC`, one
    is taken for the flags of the section before it, and that section has no others. -/
theorem loaded_sections_exact_two :
    let o := (Options.new "main").withHalt "win"
    let listing := "0 .text 8 100 0 0 2\nCONTENTS, ALLOC\n1 .bss 0 200 0 0 2\nALLOC\n" ++
      "2 .a 8 300 0 0 2\nPREALLOC, ALLOCATED\n3 .b 8 400 0 0 2\n4 .c 8 500 0 0 2\n" ++
      "5 .data 8 600 80 0 2\nALLOC,LOAD"
    let source := Source.ofTexts "Tag_CPU_name:\"6-M\"" "flash 0 100\nram 200 10\n"
      "10 g F main\n40 g F win\n" listing
    let x := Extractor.ofAct fun _ _ _ t => (t, .ok ())
    ∃ c a, (derive .plain o source x "out" FileTree.empty).outcome = .ok c ∧
      Arguments.parse c.arguments = .ok a ∧
      a.sections = [("out/code_section.text", 0x100), ("out/code_section.data", 0x600)] ∧
      ∃ parts, IsDivision (Text.lines listing) parts ∧
        ((parts.filterMap ListingPart.row?).filter fun r => (∃ size ∈ r.number? 2, size ≠ 0) ∧
          ∃ flagLine ∈ r.flagLine, Text.HasItem "ALLOC" flagLine).length = 2 := by
  intro o listing source x
  let c : Configuration := ⟨.armv6m, ⟨⟨0, 0x100⟩, ⟨0x200, 0x10⟩⟩, 0x10, [⟨"win", 0x40⟩], [],
    [⟨".text", 0x100, "out/code_section.text"⟩, ⟨".data", 0x600, "out/code_section.data"⟩], none⟩
  have hc : (derive .plain o source x "out" FileTree.empty).outcome = .ok c := by decide +kernel
  have hread : Arguments.parse c.arguments = .ok c.engineArguments :=
    Configuration.Usable.parse_arguments ⟨by decide, nofun, by decide, by decide⟩
  obtain ⟨text, parts, a, htext, hparts, hparse, hloaded⟩ := loaded_sections_exact hc
  obtain rfl := Except.ok.inj htext
  obtain rfl := Except.ok.inj (hparse.symm.trans hread)
  have hsections : c.engineArguments.sections =
      [("out/code_section.text", 0x100), ("out/code_section.data", 0x600)] := by decide
  exact ⟨c, _, hc, hparse, hsections, parts, (hparts parts).2 rfl, hloaded.length_eq⟩

/-- A section is allocated and holds bytes, but its name begins with no dot: it is not loaded.  And
    below a directory that is no text the engine reads no path of the directory. -/
theorem loaded_sections_dotted_and_displayed :
    let o := (Options.new "main").withHalt "win"
    let source (listing : String) := Source.ofTexts "Tag_CPU_name:\"6-M\""
      "flash 0 100\nram 200 10\n" "10 g F main\n40 g F win\n" listing
    let x := Extractor.ofAct fun _ _ _ t => (t, .ok ())
    (∃ c a, (derive .plain o (source "0 vectors 8 100 0 0 2\nALLOC\n") x "out"
          FileTree.empty).outcome = .ok c ∧
        Arguments.parse c.arguments = .ok a ∧ a.sections = []) ∧
      ∃ c a, (derive .plain o (source "0 .text 8 100 0 0 2\nALLOC\n") x
          (Path.ofText "out" ++ [0xFF]) FileTree.empty).outcome = .ok c ∧
        Arguments.parse c.arguments = .ok a ∧
        a.sections = [("out\uFFFD/code_section.text", 0x100)] ∧
        Path.ofText "out\uFFFD/code_section.text" ≠
          joinPath (Path.ofText "out" ++ [0xFF]) (Path.ofText "code_section.text") := by
  intro o source x
  let c : Configuration := ⟨.armv6m, ⟨⟨0, 0x100⟩, ⟨0x200, 0x10⟩⟩, 0x10, [⟨"win", 0x40⟩], [], [], none⟩
  let c' := { c with blobs := [⟨".text", 0x100, blobPath (Path.ofText "out" ++ [0xFF]) ".text"⟩] }
  have hread : Arguments.parse c.arguments = .ok c.engineArguments :=
    Configuration.Usable.parse_arguments ⟨by decide, nofun, by decide, by decide⟩
  have hread' : Arguments.parse c'.arguments = .ok c'.engineArguments :=
    Configuration.Usable.parse_arguments ⟨by decide, nofun, by decide, by decide⟩
  exact ⟨⟨c, _, by decide +kernel, hread, rfl⟩, c', _, by decide +kernel, hread', by decide,
    by decide⟩

end FaultPlan
