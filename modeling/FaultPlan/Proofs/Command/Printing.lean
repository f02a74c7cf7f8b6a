/-
  A printed configuration, split at its blanks again.

  Printing sets blanks between the arguments and escapes none that stand inside an argument, so that
  the printed text has the words of all arguments, one after the other, and in both formats
  (`OutputFormat.words_render`).  These are the arguments themselves if each of them is a word.
  Options and numbers are, and so are the labels and section names that come from listings; only the
  output directory is free to hold blanks (`words_of_derive`).

  The engine reads every path from a single token.  A path with a blank is therefore no path that
  it reads in the words of the text (`printed_configuration_faithful`).
-/
import FaultPlan.Proofs.Analysis.Names
import FaultPlan.Proofs.Command.Deriving
import FaultPlan.Proofs.Engine.Words
import FaultPlan.Proofs.Section.Displays

namespace FaultPlan

open Engine (Arguments)
open Text (IsWord)

/-! ## Printing -/

/-- Lines have the words of the tokens that they are made of. -/
theorem words_optionLines (tokens : List String) :
    (optionLines tokens).flatMap Text.words = tokens.flatMap Text.words := by
  induction tokens with
  | nil => rfl
  | cons token rest ih =>
    unfold optionLines
    split
    · next next later l ls hlines =>
      rw [List.flatMap_cons (x := token), ← ih, hlines]
      split
      · rfl
      · -- the token has gone to the front of the next line
        rw [List.flatMap_cons, Text.words_append_space, List.append_assoc]
        rfl
    · rw [List.flatMap_cons, ih]
      rfl

theorem OutputFormat.words_render (format : OutputFormat) (c : Configuration) :
    Text.words (format.render c) = c.arguments.flatMap Text.words := by
  cases format with
  | line =>
    have hone : render .line c = c.line ++ "\n" := by simp [render, linesOf]
    rw [hone, Text.words_append_feed, Configuration.line, Text.words_intercalate]
  | lines => rw [render, linesOf, Text.words_join_lines, words_optionLines]

/-! ## Paths of blobs -/

/-- A blob's path is displayed as a word if the directory is displayed without a blank. -/
theorem isWord_blobPath_iff {dir : Path} {name : String} (hname : IsWord name) :
    IsWord (blobPath dir name).display ↔ ∀ ch ∈ dir.display.toList, Text.isBlank ch = false := by
  obtain ⟨slash, hslash, hdisplay⟩ := display_blobPath dir
  rw [hdisplay]
  constructor
  · intro h ch hch
    refine h.no_blank ch ?_
    rw [String.toList_append, String.toList_append]
    exact List.mem_append_left _ (List.mem_append_left _ hch)
  · intro h
    have hstem := (show IsWord blobStem by decide).no_blank
    refine Text.isWord_append (fun ch hch => ?_) (Text.isWord_append hstem hname)
    rw [String.toList_append] at hch
    rcases List.mem_append.1 hch with hch | hch
    · exact h ch hch
    · rcases hslash with rfl | rfl
      · exact absurd hch List.not_mem_nil
      · obtain rfl := List.mem_singleton.1 hch
        decide

/-- The blobs of sections that are named with words have paths that are displayed as words, unless the
    directory has a blank. -/
theorem isWord_blobIn_iff {dir : Path} {sections : List LoadableSection}
    (hnames : ∀ s ∈ sections, IsWord s.name) :
    (∀ b ∈ sections.map (·.blobIn dir), IsWord b.path.display) ↔
      sections.map (·.blobIn dir) = [] ∨ ∀ ch ∈ dir.display.toList, Text.isBlank ch = false := by
  rw [List.map_eq_nil_iff, List.forall_mem_map]
  constructor
  · intro h
    cases sections with
    | nil => exact Or.inl rfl
    | cons s rest =>
      have hs : s ∈ s :: rest := List.mem_cons_self
      exact Or.inr ((isWord_blobPath_iff (hnames s hs)).1 (h s hs))
  · rintro (rfl | h) s hs
    · nomatch hs
    · exact (isWord_blobPath_iff (hnames s hs)).2 h

/-! ## The printed configuration -/

/-- The words of the arguments of a derived configuration. -/
theorem words_of_derive {storage : Storage} {o : Options} {source : Source} {x : Extractor}
    {dir : Path} {t : FileTree} {c : Configuration}
    (h : (derive storage o source x dir t).outcome = .ok c) :
    let words := c.arguments.flatMap Text.words
    Arguments.parse c.arguments = .ok c.engineArguments ∧
      (words = c.arguments ↔
        c.blobs = [] ∨ ∀ ch ∈ dir.display.toList, Text.isBlank ch = false) ∧
      (Arguments.parse words = Arguments.parse c.arguments ↔
        c.blobs = [] ∨ ∀ ch ∈ dir.display.toList, Text.isBlank ch = false) := by
  intro words
  obtain ⟨a, ha, hc⟩ := derive_eq_ok h
  have hpaths : (∀ b ∈ c.blobs, IsWord b.path.display) ↔
      c.blobs = [] ∨ ∀ ch ∈ dir.display.toList, Text.isBlank ch = false := by
    rw [hc]
    exact isWord_blobIn_iff ha.isWord_name
  have hlabels : ∀ p ∈ c.halts, IsWord p.label := by
    rw [hc]
    exact ha.isWord_label
  have hparse : Arguments.parse c.arguments = .ok c.engineArguments := by
    rw [hc]
    exact (ha.usable _).parse_arguments
  have hwords := c.words_arguments_iff.trans ((and_iff_right hlabels).trans hpaths)
  refine ⟨hparse, hwords, fun hsame => hpaths.1 fun b hb => ?_, fun hplain => ?_⟩
  · -- the engine has read the path in one word
    rw [hparse] at hsame
    have hmem := Arguments.mem_of_parse hsame (b.path.display, b.address)
      (List.mem_map_of_mem (f := fun b => (b.path.display, b.address)) hb)
    obtain ⟨token, -, hword⟩ := List.mem_flatMap.1 hmem
    exact Text.isWord_of_mem_words hword
  · rw [show words = c.arguments from hwords.2 hplain]

/-- **A printed configuration is faithful where no blank leads to a section.**  In both formats the
    printed text has the words of the arguments, one after the other.  These are the arguments
    themselves, and the engine reads in them what it reads in the arguments, exactly if no section
    is loaded or the output directory has no blank. -/
theorem printed_configuration_faithful (h : Host) (i : Invocation) {outDir : Path}
    {format : OutputFormat} (hi : i.action = .derive outDir format)
    (hexit : (h.execute i).exit = 0) :
    ∃ made c, h.files.makeDirectories outDir = (made, .ok ()) ∧
      (h.deriveInto i.target outDir made).outcome = .ok c ∧
      let printed := format.render c
      (h.execute i).stdout = Utf8.encode printed ∧
      Text.words printed = c.arguments.flatMap Text.words ∧
      Arguments.parse c.arguments = .ok c.engineArguments ∧
      (Text.words printed = c.arguments ↔
        c.blobs = [] ∨ ∀ ch ∈ outDir.display.toList, Text.isBlank ch = false) ∧
      (Arguments.parse (Text.words printed) = Arguments.parse c.arguments ↔
        c.blobs = [] ∨ ∀ ch ∈ outDir.display.toList, Text.isBlank ch = false) := by
  have hr : h.execute i = _ := h.executeUnder_of_derive .unset hi
  rw [hr] at hexit ⊢
  rcases h.derive_cases i.target outDir format with
    ⟨made, a, cleared, hd, ⟨-, -, hstdout⟩ | ⟨-, hone, -⟩⟩ | ⟨hone, -⟩
  · have hc := hd.outcome
    refine ⟨made, _, hd.directory, hc, hstdout, format.words_render _, ?_⟩
    rw [format.words_render]
    exact words_of_derive hc
  · nomatch hone.symm.trans hexit
  · nomatch hone.symm.trans hexit

/-- The configuration of the small image is printed on one line, and read as it was meant. -/
theorem printed_configuration_faithful_small :
    let h := smallHost plainCopier
    let r := h.execute ⟨false, false, smallTarget, .derive "out" .line⟩
    ∃ (c : Configuration) (printed : String), r.stdout = Utf8.encode printed ∧
      Text.words printed = c.arguments ∧
      Arguments.parse (Text.words printed) = .ok c.engineArguments := by
  intro h r
  have hexit : r.exit = 0 := by decide +kernel
  obtain ⟨-, c, -, -, hstdout, -, hparse, hwords, hsame⟩ := printed_configuration_faithful h
    ⟨false, false, smallTarget, .derive "out" .line⟩ rfl hexit
  have hplain := (show IsWord (Path.display "out") by decide).no_blank
  exact ⟨c, _, hstdout, hwords.2 (Or.inr hplain), (hsame.2 (Or.inr hplain)).trans hparse⟩

/-- **A blank in the output directory is not escaped.**  The configuration is printed, but the path
    of its section falls apart, and the engine refuses the words. -/
theorem blank_directory_is_not_escaped :
    let h := smallHost plainCopier
    let r := h.execute ⟨false, false, smallTarget, .derive "my out" .line⟩
    let r' := h.execute ⟨false, false, smallTarget, .derive "my out" .lines⟩
    let words (r : Report) := Text.words (Utf8.decodeLossy r.stdout)
    let made := (h.files.makeDirectories "my out").1
    (r.exit = 0 ∧ r'.exit = 0) ∧
      (h.deriveInto smallTarget "my out" made).outcome.map (·.arguments) =
        .ok ["--start", "0x10", "--halt", "win", "0x40", "--flash", "0x0", "0x100",
          "--ram", "0x200", "0x10", "--armv7m", "--section", "my out/code_section.text", "0x0"] ∧
      (words r = ["--start", "0x10", "--halt", "win", "0x40", "--flash", "0x0", "0x100",
          "--ram", "0x200", "0x10", "--armv7m", "--section", "my", "out/code_section.text", "0x0"] ∧
        words r' = words r) ∧
      Arguments.parse (words r) = .error (.badNumber "out/code_section.text") := by
  intro h r r' words made
  have hr : r.exit = 0 ∧ r.stdout = Utf8.encode ("--start 0x10 --halt win 0x40 --flash 0x0 0x100 " ++
      "--ram 0x200 0x10 --armv7m --section my out/code_section.text 0x0\n") := by decide +kernel
  have hr' : r'.exit = 0 ∧ r'.stdout = Utf8.encode ("--start 0x10\n--halt win 0x40\n" ++
      "--flash 0x0 0x100\n--ram 0x200 0x10\n--armv7m\n" ++
      "--section my out/code_section.text 0x0\n") := by decide +kernel
  have hwords : words r = ["--start", "0x10", "--halt", "win", "0x40", "--flash", "0x0", "0x100",
          "--ram", "0x200", "0x10", "--armv7m", "--section", "my", "out/code_section.text", "0x0"] := by
    simp only [words, hr.2]
    decide +kernel
  have hwords' : words r' = words r := by
    simp only [hwords]
    simp only [words, hr'.2]
    decide +kernel
  refine ⟨⟨hr.1, hr'.1⟩, by decide +kernel, ⟨hwords, hwords'⟩, ?_⟩
  rw [hwords]
  decide +kernel

end FaultPlan
