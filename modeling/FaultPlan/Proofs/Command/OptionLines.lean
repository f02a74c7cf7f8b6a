/-
  A configuration printed with one option on each line.

  A line begins at every token with `--` in front, so lines never reach over such a token
  (`optionLines_append`).  All options are such tokens, and no number is.  Of the operands only a
  text can be one too: a label or a path, as it has been taken over.  A group whose text begins like
  an option is set on two lines, the option alone and then its operands; every other group is set on
  one (`optionLines_tokens`).  The lines of many groups are those of each, one after the other
  (`optionLines_flatMap_tokens`).

  The path of a blob is displayed with its directory in front (`startsWith_blobPath`).  So a derived
  configuration has one option on each line unless a label or the output directory begins with `--`
  (`option_lines_of_derived`, `dashed_label_breaks_its_line`).
-/
import FaultPlan.Proofs.Command.Reports
import FaultPlan.Proofs.Engine.Words
import FaultPlan.Proofs.Run.Derived
import FaultPlan.Proofs.Section.Displays

namespace FaultPlan

open Engine (Group)

/-! ## Lines of tokens -/

section

variable {token next line : String} {rest lines : List String}

theorem exists_optionLines_cons (token : String) (rest : List String) :
    ∃ line lines, optionLines (token :: rest) = line :: lines :=
  List.exists_cons_of_ne_nil optionLines_ne_nil

/-- A token that begins with dashes begins a line. -/
theorem optionLines_cons_of_dashes (hnext : Text.startsWith "--" next = true) :
    optionLines (token :: next :: rest) = token :: optionLines (next :: rest) := by
  obtain ⟨line, lines, hlines⟩ := exists_optionLines_cons next rest
  rw [hlines]
  unfold optionLines
  rw [hlines]
  exact if_pos hnext

/-- Any other token goes on with the line. -/
theorem optionLines_cons_of_no_dashes (hnext : Text.startsWith "--" next = false)
    (hlines : optionLines (next :: rest) = line :: lines) :
    optionLines (token :: next :: rest) = (token ++ " " ++ line) :: lines := by
  unfold optionLines
  rw [hlines]
  exact if_neg (Bool.eq_false_iff.1 hnext)

/-- Tokens without dashes in front stay on the line that they follow. -/
theorem optionLines_of_no_dashes (hrest : ∀ next ∈ rest, Text.startsWith "--" next = false) :
    optionLines (token :: rest) = [" ".intercalate (token :: rest)] := by
  induction rest generalizing token with
  | nil => rfl
  | cons next rest ih =>
    obtain ⟨hnext, hrest⟩ := List.forall_mem_cons.1 hrest
    rw [optionLines_cons_of_no_dashes hnext (ih hrest), String.intercalate_cons_cons]

/-- **Lines do not reach over an option.** -/
theorem optionLines_append (tokens : List String)
    (hnext : ∀ next ∈ rest.head?, Text.startsWith "--" next = true) :
    optionLines (tokens ++ rest) = optionLines tokens ++ optionLines rest := by
  induction tokens with
  | nil => rfl
  | cons token tokens ih =>
    cases tokens with
    | nil =>
      cases rest with
      | nil => rfl
      | cons next rest => exact optionLines_cons_of_dashes (hnext next rfl)
    | cons second tokens =>
      cases hsecond : Text.startsWith "--" second with
      | true =>
        rw [optionLines_cons_of_dashes hsecond]
        exact (optionLines_cons_of_dashes hsecond).trans (congrArg (token :: ·) ih)
      | false =>
        -- the line of the second token is the first line of both sides
        obtain ⟨line, lines, hlines⟩ := exists_optionLines_cons second tokens
        rw [hlines] at ih
        rw [optionLines_cons_of_no_dashes hsecond hlines]
        exact optionLines_cons_of_no_dashes hsecond ih

/-- Lines that are joined with blanks are the tokens joined with blanks. -/
theorem intercalate_optionLines (tokens : List String) :
    " ".intercalate (optionLines tokens) = " ".intercalate tokens := by
  induction tokens with
  | nil => rfl
  | cons token tokens ih =>
    cases tokens with
    | nil => rfl
    | cons next rest =>
      obtain ⟨line, lines, hlines⟩ := exists_optionLines_cons next rest
      cases hnext : Text.startsWith "--" next with
      | true =>
        rw [optionLines_cons_of_dashes hnext, String.intercalate_cons_cons, ← ih,
          String.intercalate_cons_of_ne_nil optionLines_ne_nil]
      | false =>
        rw [optionLines_cons_of_no_dashes hnext hlines, String.intercalate_cons_append, ← hlines,
          ih, String.intercalate_cons_cons]

end

/-! ## Lines of groups -/

theorem Hex.not_startsWith_dashes (v : UInt64) : Text.startsWith "--" (render v) = false := by
  rw [Text.startsWith, toList_render]
  rfl

theorem Decimal.not_startsWith_dashes (v : UInt64) : Text.startsWith "--" (render v) = false := by
  rw [Bool.eq_false_iff, Text.startsWith, ne_eq, List.isPrefixOf_iff_prefix, toList_render]
  intro hprefix
  have hdash : '-' ∈ Nat.toDigits 10 v.toNat := hprefix.subset (by decide)
  obtain ⟨d, hd, hdigit⟩ := Number.exists_digitChar_of_mem_toDigits (by decide) _ hdash
  have hall : ∀ e : Fin 10, '-' ≠ Nat.digitChar e.val := by decide
  exact hall ⟨d, hd⟩ hdigit

namespace Engine.Group

/-- The option with its operands, on one line. -/
def line (g : Group) : String := " ".intercalate g.tokens

/-- The text of the group begins like an option. -/
def dashed (g : Group) : Bool := g.text?.any (Text.startsWith "--")

/-- The lines of a group: its option alone and then its operands if its text begins like an option,
    else one line. -/
def lines (g : Group) : List String :=
  if g.dashed then [" ".intercalate (g.tokens.take 1), " ".intercalate (g.tokens.drop 1)]
  else [g.line]

theorem lines_of_not_dashed {g : Group} (h : g.dashed = false) : g.lines = [g.line] :=
  if_neg (Bool.eq_false_iff.1 h)

theorem length_lines (g : Group) : g.lines.length = 1 + if g.dashed then 1 else 0 := by
  unfold lines
  split <;> rfl

/-- A group begins with its option. -/
theorem startsWith_head?_tokens (g : Group) :
    ∀ token ∈ g.tokens.head?, Text.startsWith "--" token = true := by
  cases g with
  | start | halt | symbol | load | flash | ram | ignore | timeout =>
    rintro token ⟨⟩
    rfl
  | isa i => cases i <;> (rintro token ⟨⟩; rfl)

end Engine.Group

/-- **One group.** -/
theorem optionLines_tokens (g : Group) : optionLines g.tokens = g.lines := by
  have hlabelled : ∀ (option text : String) (address : UInt64),
      optionLines [option, text, Hex.render address] =
        if Text.startsWith "--" text then [option, " ".intercalate [text, Hex.render address]]
        else [" ".intercalate [option, text, Hex.render address]] := by
    intro option text address
    have hline : optionLines [text, Hex.render address] =
        [" ".intercalate [text, Hex.render address]] :=
      optionLines_of_no_dashes (List.forall_mem_singleton.2 (Hex.not_startsWith_dashes address))
    cases htext : Text.startsWith "--" text with
    | true => rw [optionLines_cons_of_dashes htext, hline, if_pos rfl]
    | false =>
      rw [optionLines_cons_of_no_dashes htext hline, if_neg Bool.false_ne_true,
        String.intercalate_cons_cons (t := option)]
  cases g with
  | halt | symbol | load => exact hlabelled _ _ _
  | start | flash | ram | ignore =>
    exact optionLines_of_no_dashes (by simp [Hex.not_startsWith_dashes])
  | timeout => exact optionLines_of_no_dashes (by simp [Decimal.not_startsWith_dashes])
  | isa => rfl

/-- **Many groups.** -/
theorem optionLines_flatMap_tokens (groups : List Group) :
    optionLines (groups.flatMap Group.tokens) = groups.flatMap Group.lines := by
  induction groups with
  | nil => rfl
  | cons g groups ih =>
    rw [List.flatMap_cons, List.flatMap_cons, optionLines_append, optionLines_tokens, ih]
    cases groups with
    | nil => nofun
    | cons g' groups =>
      rw [List.flatMap_cons, List.head?_append_of_ne_nil]
      · exact g'.startsWith_head?_tokens
      · cases g' <;> nofun

theorem length_flatMap_lines (groups : List Group) :
    (groups.flatMap Group.lines).length = groups.length + groups.countP Group.dashed := by
  induction groups with
  | nil => rfl
  | cons g groups ih =>
    rw [List.flatMap_cons, List.length_append, Group.length_lines, ih, List.length_cons,
      List.countP_cons]
    omega

/-- Each group has its line exactly if no text begins like an option. -/
theorem flatMap_lines_eq_map_iff {groups : List Group} :
    groups.flatMap Group.lines = groups.map Group.line ↔ groups.countP Group.dashed = 0 := by
  constructor
  · intro h
    have hlength := congrArg List.length h
    rw [length_flatMap_lines, List.length_map] at hlength
    omega
  · intro h
    rw [← List.flatMap_pure_eq_map]
    refine List.flatMap_congr fun g hg => Group.lines_of_not_dashed ?_
    exact Bool.eq_false_iff.2 (List.countP_eq_zero.1 h g hg)

/-! ## Lines of a configuration -/

namespace Configuration

theorem length_groups (c : Configuration) :
    c.groups.length =
      1 + c.halts.length + c.ignores.length + 3 + c.blobs.length + c.timeout.toList.length := by
  simp only [groups, List.length_append, List.length_cons, List.length_map, List.length_nil]
  omega

/-- The groups on two lines are those of labels and paths that begin like an option. -/
theorem countP_dashed_groups (c : Configuration) :
    c.groups.countP Group.dashed = (c.halts.countP fun p => Text.startsWith "--" p.label) +
      c.blobs.countP fun b => Text.startsWith "--" b.path.display := by
  have htexts : ∀ groups : List Group, groups.countP Group.dashed =
      (groups.filterMap Group.text?).countP (Text.startsWith "--") := by
    intro groups
    rw [List.countP_filterMap]
    refine List.countP_congr fun g _ => ?_
    rw [Group.dashed]
    cases g.text? <;> rfl
  rw [htexts, filterMap_text?_groups, List.countP_append, List.countP_map, List.countP_map]
  rfl

end Configuration

/-! ## Lines of a derived configuration -/

/-- The displayed path of a blob begins like an option exactly if that of its directory does. -/
theorem startsWith_blobPath (dir : Path) (name : String) :
    Text.startsWith "--" (blobPath dir name).display = Text.startsWith "--" dir.display := by
  obtain ⟨slash, hslash, hdisplay⟩ := display_blobPath dir
  -- what follows the directory begins with a slash or with the stem
  obtain ⟨c, cs, hc, htail⟩ : ∃ c cs, c ≠ '-' ∧ (slash ++ (blobStem ++ name)).toList = c :: cs := by
    rcases hslash with rfl | rfl
    · exact ⟨'c', "ode_section".toList ++ name.toList, by decide, by simp [blobStem]⟩
    · exact ⟨'/', blobStem.toList ++ name.toList, by decide, by simp⟩
  rw [hdisplay, String.append_assoc, Text.startsWith, Text.startsWith, String.toList_append,
    htail, Bool.eq_iff_iff]
  rcases dir.display.toList with _ | ⟨d, _ | ⟨d', ds⟩⟩
  · simp [hc.symm]
  · simp [hc.symm]
  · simp

/-- A text that begins like an option is the label of a halt or stands before all paths. -/
theorem countP_dashed_of_derive {storage : Storage} {o : Options} {source : Source} {x : Extractor}
    {dir : Path} {t : FileTree} {c : Configuration}
    (h : (derive storage o source x dir t).outcome = .ok c) :
    c.groups.countP Group.dashed = (c.halts.countP fun p => Text.startsWith "--" p.label) +
      if Text.startsWith "--" dir.display then c.blobs.length else 0 := by
  obtain ⟨a, -, hc⟩ := derive_eq_ok h
  have hpath : ∀ b ∈ c.blobs,
      Text.startsWith "--" b.path.display = Text.startsWith "--" dir.display := by
    rw [hc]
    exact List.forall_mem_map.2 fun s _ => startsWith_blobPath dir s.name
  rw [c.countP_dashed_groups]
  congr 1
  split
  · next hdir => exact List.countP_eq_length.2 fun b hb => (hpath b hb).trans hdir
  · next hdir => exact List.countP_eq_zero.2 fun b hb => hpath b hb ▸ hdir

/-- **One option on each line, unless a text begins like an option.**  The lines of a derived
    configuration, joined with blanks, are its arguments on one line.  They are the lines of its
    groups in order: one for each, but two for each halt whose label begins with dashes and, if the
    output directory begins with them, for each section.  So every line holds one option with its
    operands exactly if there is no such label, and no such directory with a section in it. -/
theorem option_lines_of_derived {storage : Storage} {o : Options} {source : Source} {x : Extractor}
    {dir : Path} {t : FileTree} {c : Configuration}
    (h : (derive storage o source x dir t).outcome = .ok c) :
    let lines := optionLines c.arguments
    " ".intercalate lines = c.line ∧
    lines = c.groups.flatMap Group.lines ∧
    lines.length =
      (1 + c.halts.length + c.ignores.length + 3 + c.blobs.length + c.timeout.toList.length) +
        ((c.halts.countP fun p => Text.startsWith "--" p.label) +
          if Text.startsWith "--" dir.display then c.blobs.length else 0) ∧
    (lines = c.groups.map Group.line ↔
      (∀ p ∈ c.halts, Text.startsWith "--" p.label = false) ∧
        (c.blobs = [] ∨ Text.startsWith "--" dir.display = false)) := by
  intro lines
  have hlines : lines = c.groups.flatMap Group.lines := optionLines_flatMap_tokens c.groups
  refine ⟨intercalate_optionLines c.arguments, hlines, ?_, ?_⟩
  · rw [hlines, length_flatMap_lines, c.length_groups, countP_dashed_of_derive h]
  · have hpaths : (if Text.startsWith "--" dir.display then c.blobs.length else 0) = 0 ↔
        c.blobs = [] ∨ Text.startsWith "--" dir.display = false := by
      cases Text.startsWith "--" dir.display <;> simp
    rw [hlines, flatMap_lines_eq_map_iff, countP_dashed_of_derive h, Nat.add_eq_zero_iff,
      List.countP_eq_zero, hpaths]
    simp only [Bool.not_eq_true]

/-- The configuration of a small image has one option on each line. -/
theorem option_lines_of_derived_small :
    ∃ c, (derive .plain ((Options.new "main").withHalt "win")
        (Source.ofTexts "Tag_CPU_name:\"6-M\"" "flash 0 100\nram 200 10\n"
          "10 g F main\n40 g F win\n" "0 .text 8 0 0 0 2\nALLOC\n")
        (.ofAct fun _ _ _ t => (t, .ok ())) "out" FileTree.empty).outcome = .ok c ∧
      optionLines c.arguments = c.groups.map Group.line ∧
      c.groups.map Group.line = ["--start 0x10", "--halt win 0x40", "--flash 0x0 0x100",
        "--ram 0x200 0x10", "--armv6m", "--section out/code_section.text 0x0"] := by
  have h : (derive .plain ((Options.new "main").withHalt "win")
      (Source.ofTexts "Tag_CPU_name:\"6-M\"" "flash 0 100\nram 200 10\n"
        "10 g F main\n40 g F win\n" "0 .text 8 0 0 0 2\nALLOC\n")
      (.ofAct fun _ _ _ t => (t, .ok ())) "out" FileTree.empty).outcome
      = .ok ⟨.armv6m, ⟨⟨0, 0x100⟩, ⟨0x200, 0x10⟩⟩, 0x10, [⟨"win", 0x40⟩], [],
        [⟨".text", 0, "out/code_section.text"⟩], none⟩ := by rfl
  obtain ⟨-, -, -, hone⟩ := option_lines_of_derived h
  exact ⟨_, h, hone.2 ⟨by decide, Or.inr (by decide)⟩, by decide⟩

/-- **A label that begins like an option breaks its line.**  The label is taken for an option, and
    there is one line too many. -/
theorem dashed_label_breaks_its_line :
    ∃ c, (derive .plain ((Options.new "main").withHalt "--x")
        (Source.ofTexts "Tag_CPU_name:\"7-M\"" "flash 0 100\nram 200 10\n"
          "10 g F main\n40 g F --x\n" "") (.ofAct fun _ _ _ t => (t, .ok ())) "out"
        FileTree.empty).outcome = .ok c ∧
      optionLines c.arguments = ["--start 0x10", "--halt", "--x 0x40", "--flash 0x0 0x100",
        "--ram 0x200 0x10", "--armv7m"] ∧
      (optionLines c.arguments).length ≠ 1 + c.halts.length + c.ignores.length + 3 +
        c.blobs.length + c.timeout.toList.length := by
  have h : (derive .plain ((Options.new "main").withHalt "--x")
      (Source.ofTexts "Tag_CPU_name:\"7-M\"" "flash 0 100\nram 200 10\n"
        "10 g F main\n40 g F --x\n" "") (.ofAct fun _ _ _ t => (t, .ok ())) "out"
      FileTree.empty).outcome
      = .ok ⟨.armv7m, ⟨⟨0, 0x100⟩, ⟨0x200, 0x10⟩⟩, 0x10, [⟨"--x", 0x40⟩], [], [], none⟩ := by rfl
  exact ⟨_, h, by decide, by decide⟩

end FaultPlan
