/-
  The instruction set is read off the first processor name.

  The name in an attribute listing is given by a pattern: the tag, spaces and tabs, and the rest of
  the line as a group, which is then trimmed.  The group begins behind the spaces and tabs, which
  trimming would drop in any case, so that the name is the trimmed rest of the line behind the first
  tag (`cpuName?_of_finds`).  What stands in front of that tag and what follows its line does not
  count (`classify_by_first_tag`).
-/
import FaultPlan.Isa
import FaultPlan.Proofs.Text.Patterns
import Mathlib.Data.List.TakeWhile

namespace FaultPlan.Isa

open Text (Pattern FirstCut trim)

/-! ## The pattern -/

/-- What announces the processor's name. -/
def cpuNameMark : String := cpuNameTag ++ ":"

/-- The blanks that the pattern passes over in front of the name. -/
def isGap (c : Char) : Bool := c == ' ' || c == '\t'

/-- The character does not end a line. -/
def inLine (c : Char) : Bool := c != '\r' && c != '\n'

/-- What stands behind the mark: a gap, and the rest of the line. -/
def valuePattern : Pattern := .both (.many isGap) (.group (.many inLine))

/-- The pattern of a processor's name. -/
def cpuNamePattern : Pattern := .both (.literal cpuNameMark.toList) valuePattern

/-- The first tag of the attributes stands between `before` and `value`, which is the rest of its
    line; `after` begins with what ends that line, if anything does. -/
structure FirstTag (attributes before value after : String) : Prop where
  split : attributes = before ++ cpuNameMark ++ value ++ after
  first : ∀ before' after', attributes = before' ++ cpuNameMark ++ after' →
    before.length ≤ before'.length
  value_in_line : '\r' ∉ value.toList ∧ '\n' ∉ value.toList
  line_ends : ∀ c ∈ after.toList.head?, c = '\r' ∨ c = '\n'

/-! ## The gap is trimmed away -/

theorem inLine_of_isGap {c : Char} (h : isGap c = true) : inLine c = true := by
  simp only [isGap, Bool.or_eq_true, beq_iff_eq] at h
  rcases h with rfl | rfl <;> rfl

theorem isBlank_of_isGap {c : Char} (h : isGap c = true) : Text.isBlank c = true := by
  simp only [isGap, Bool.or_eq_true, beq_iff_eq] at h
  rcases h with rfl | rfl <;> rfl

/-- The rest of a line behind its gap is the rest of the line without its gap. -/
theorem takeWhile_inLine_dropWhile_isGap (cs : List Char) :
    (cs.dropWhile isGap).takeWhile inLine = (cs.takeWhile inLine).dropWhile isGap := by
  induction cs with
  | nil => rfl
  | cons c cs ih =>
    by_cases hgap : isGap c = true
    · rw [List.dropWhile_cons_of_pos hgap, ih, List.takeWhile_cons_of_pos (inLine_of_isGap hgap),
        List.dropWhile_cons_of_pos hgap]
    · rw [List.dropWhile_cons_of_neg hgap]
      by_cases hc : inLine c = true
      · rw [List.takeWhile_cons_of_pos hc, List.dropWhile_cons_of_neg hgap]
      · rw [List.takeWhile_cons_of_neg hc, List.dropWhile_nil]

theorem trimChars_dropWhile_isGap (cs : List Char) :
    Text.trimChars (cs.dropWhile isGap) = Text.trimChars cs := by
  have hstart : Text.trimStart (cs.dropWhile isGap) = Text.trimStart cs := by
    induction cs with
    | nil => rfl
    | cons c cs ih =>
      by_cases hgap : isGap c = true
      · rw [List.dropWhile_cons_of_pos hgap, ih, Text.trimStart, Text.trimStart,
          List.dropWhile_cons_of_pos (isBlank_of_isGap hgap)]
      · rw [List.dropWhile_cons_of_neg hgap]
  rw [Text.trimChars, Text.trimChars, hstart]

/-- What the pattern prefers behind the mark: the whole gap, and then the whole rest of the line. -/
theorem head?_ways_valuePattern (rest : List Char) :
    ∃ m, (valuePattern.ways rest).head? = some m ∧
      m.groups = [(rest.dropWhile isGap).takeWhile inLine] :=
  ⟨_, Pattern.head?_ways_both (Pattern.head?_ways_many isGap rest)
    (Pattern.head?_ways_group (Pattern.head?_ways_many inLine _)), rfl⟩

theorem ways_valuePattern_ne_nil (rest : List Char) : valuePattern.ways rest ≠ [] := by
  obtain ⟨m, hm, -⟩ := head?_ways_valuePattern rest
  intro hnil
  rw [hnil] at hm
  nomatch hm

/-! ## The name -/

section

variable {s before value after : String}

theorem cpuName?_of_firstCut {before rest : List Char}
    (h : FirstCut cpuNameMark.toList s.toList before rest) :
    cpuName? s = some (String.ofList (Text.trimChars (rest.takeWhile inLine))) := by
  have hcut : Text.afterFirst? cpuNameMark.toList s.toList = some rest :=
    Text.afterFirst?_eq_some_iff.2 ⟨before, h⟩
  rw [cpuName?, ← cpuNameMark, hcut]
  rfl

/-- **The name is what the pattern's group holds**, trimmed, ... -/
theorem cpuName?_of_finds {m : Text.Match} (h : cpuNamePattern.Finds s.toList m) :
    ∃ group, m.groups = [group] ∧ cpuName? s = some (trim (String.ofList group)) := by
  obtain ⟨before, rest, n, hcut, hn, rfl⟩ :=
    (Pattern.finds_literal_iff ways_valuePattern_ne_nil).1 h
  obtain ⟨n', hn', hgroups⟩ := head?_ways_valuePattern rest
  obtain rfl := Option.some.inj (hn.symm.trans hn')
  refine ⟨_, hgroups, ?_⟩
  rw [cpuName?_of_firstCut hcut, trim, String.toList_ofList, takeWhile_inLine_dropWhile_isGap,
    trimChars_dropWhile_isGap]

theorem exists_finds (h : cpuNameMark.toList <:+: s.toList) :
    ∃ m, cpuNamePattern.Finds s.toList m := by
  obtain ⟨before, rest, hcut⟩ := Text.exists_firstCut h
  obtain ⟨n, hn, -⟩ := head?_ways_valuePattern rest
  exact ⟨_, (Pattern.finds_literal_iff ways_valuePattern_ne_nil).2
    ⟨before, rest, n, hcut, hn, rfl⟩⟩

/-- ... and there is none where the pattern is not found. -/
theorem cpuName?_eq_none_iff : cpuName? s = none ↔ ¬ cpuNameMark.toList <:+: s.toList := by
  rw [cpuName?, Option.map_eq_none_iff, ← cpuNameMark, Text.afterFirst?_eq_none_iff]

/-! ## The first tag -/

theorem inLine_eq_true_iff {c : Char} : inLine c = true ↔ c ≠ '\r' ∧ c ≠ '\n' := by
  rw [inLine, Bool.and_eq_true, bne_iff_ne, bne_iff_ne]

theorem FirstTag.firstCut (h : FirstTag s before value after) :
    FirstCut cpuNameMark.toList s.toList before.toList (value.toList ++ after.toList) := by
  refine ⟨?_, fun before' rest' h' => ?_⟩
  · rw [h.split]
    simp only [String.toList_append, List.append_assoc]
  · have hs : s = String.ofList before' ++ cpuNameMark ++ String.ofList rest' := by
      rw [← String.toList_inj, h']
      simp only [String.toList_append, String.toList_ofList, List.append_assoc]
    simpa only [String.length_toList, String.length_ofList] using h.first _ _ hs

theorem FirstTag.takeWhile_inLine (h : FirstTag s before value after) :
    (value.toList ++ after.toList).takeWhile inLine = value.toList := by
  have hvalue : ∀ c ∈ value.toList, inLine c = true := fun c hc =>
    inLine_eq_true_iff.2 ⟨fun heq => h.value_in_line.1 (heq ▸ hc),
      fun heq => h.value_in_line.2 (heq ▸ hc)⟩
  have hafter : after.toList.takeWhile inLine = [] := by
    cases hcs : after.toList with
    | nil => rfl
    | cons c cs =>
      have hc := h.line_ends c (by rw [hcs]; rfl)
      refine List.takeWhile_cons_of_neg fun hin => ?_
      obtain ⟨hreturn, hfeed⟩ := inLine_eq_true_iff.1 hin
      exact hc.elim hreturn hfeed
  rw [List.takeWhile_append_of_pos hvalue, hafter, List.append_nil]

theorem FirstTag.cpuName?_eq (h : FirstTag s before value after) :
    cpuName? s = some (trim value) := by
  rw [cpuName?_of_firstCut h.firstCut, h.takeWhile_inLine, trim]

/-- Where there is a tag there is a first one, and its line has a rest. -/
theorem exists_firstTag (h : cpuNameMark.toList <:+: s.toList) :
    ∃ before value after, FirstTag s before value after := by
  obtain ⟨before, rest, hcut⟩ := Text.exists_firstCut h
  refine ⟨String.ofList before, String.ofList (rest.takeWhile inLine),
    String.ofList (rest.dropWhile inLine), ?_, fun before' after' h' => ?_, ?_, fun c hc => ?_⟩
  · rw [← String.toList_inj, hcut.split]
    simp only [String.toList_append, String.toList_ofList, List.append_assoc,
      List.takeWhile_append_dropWhile]
  · rw [String.length_ofList, ← String.length_toList]
    refine hcut.first _ after'.toList ?_
    rw [h']
    simp only [String.toList_append, List.append_assoc]
  · have hin : ∀ c ∈ rest.takeWhile inLine, c ≠ '\r' ∧ c ≠ '\n' := fun c hc =>
      inLine_eq_true_iff.1 (List.mem_takeWhile_imp hc)
    rw [String.toList_ofList]
    exact ⟨fun hc => (hin _ hc).1 rfl, fun hc => (hin _ hc).2 rfl⟩
  · rw [String.toList_ofList] at hc
    have hout := List.head?_dropWhile_not inLine rest
    rw [Option.mem_def.1 hc] at hout
    by_contra hno
    exact Bool.eq_false_iff.1 hout (inLine_eq_true_iff.2 (not_or.1 hno))

theorem classify_of_cpuName? {name : String} (h : cpuName? s = some name) :
    classify s = if name = "\"6-M\"" then .ok .armv6m
      else if name = "\"7-M\"" then .ok .armv7m else .error (.unsupportedArchitecture name) := by
  unfold classify
  rw [h]
  split
  · next heq => nomatch heq
  · next heq =>
    obtain rfl := Option.some.inj heq
    rfl
  · next heq =>
    obtain rfl := Option.some.inj heq
    rfl
  · next other h6 h7 heq =>
    obtain rfl := Option.some.inj heq
    rw [if_neg fun hname => h6 (by rw [hname]), if_neg fun hname => h7 (by rw [hname])]

end

/-- **Only the first tag counts.**  The processor's name is the trimmed group of the pattern's
    match, and attributes that the pattern does not match have none.  Without a tag the metadata is
    missing.  With one there is a first one, and the trimmed rest of its line decides: the two
    quoted names give their instruction sets, everything else is unsupported and quoted.  Attributes
    whose first tags are followed by the same rest of a line are classified alike, whatever stands
    before the tag and behind the line. -/
theorem classify_by_first_tag (s : String) :
    (∀ m, cpuNamePattern.Finds s.toList m →
      ∃ group, m.groups = [group] ∧ cpuName? s = some (trim (String.ofList group))) ∧
    ((∀ m, ¬ cpuNamePattern.Finds s.toList m) → cpuName? s = none) ∧
    (¬ cpuNameMark.toList <:+: s.toList → classify s = .error .missingMetadata) ∧
    (cpuNameMark.toList <:+: s.toList → ∃ before value after, FirstTag s before value after) ∧
    ∀ before value after, FirstTag s before value after →
      (classify s = .ok .armv6m ↔ trim value = "\"6-M\"") ∧
      (classify s = .ok .armv7m ↔ trim value = "\"7-M\"") ∧
      (trim value ≠ "\"6-M\"" → trim value ≠ "\"7-M\"" →
        classify s = .error (.unsupportedArchitecture (trim value))) ∧
      ∀ s' before' after', FirstTag s' before' value after' → classify s' = classify s := by
  refine ⟨fun m => cpuName?_of_finds, fun hno => ?_, fun hno => ?_, exists_firstTag,
    fun before value after h => ?_⟩
  · refine cpuName?_eq_none_iff.2 fun htag => ?_
    obtain ⟨m, hm⟩ := exists_finds htag
    exact hno m hm
  · rw [classify, cpuName?_eq_none_iff.2 hno]
  · have hclassify := classify_of_cpuName? h.cpuName?_eq
    refine ⟨?_, ?_, fun h6 h7 => ?_, fun s' before' after' h' => ?_⟩
    · rw [hclassify]
      split
      · next h6 => exact iff_of_true rfl h6
      · next h6 =>
        refine iff_of_false (fun heq => ?_) h6
        split at heq <;> nomatch heq
    · rw [hclassify]
      split
      · next h6 =>
        refine iff_of_false (fun heq => nomatch heq) fun h7 => ?_
        rw [h6] at h7
        exact absurd h7 (by decide)
      · split
        · next h7 => exact iff_of_true rfl h7
        · next h7 => exact iff_of_false (fun heq => nomatch heq) h7
    · rw [hclassify, if_neg h6, if_neg h7]
    · rw [hclassify, classify_of_cpuName? h'.cpuName?_eq]

/-- A tag within a longer word, with a name that is not supported, is the first all the same. -/
theorem classify_first_of_two :
    FirstTag "xTag_CPU_name:\u2003\"7E-M\"\t\rTag_CPU_name: \"7-M\"\n" "x" "\u2003\"7E-M\"\t"
        "\rTag_CPU_name: \"7-M\"\n" ∧
      classify "xTag_CPU_name:\u2003\"7E-M\"\t\rTag_CPU_name: \"7-M\"\n" =
        .error (.unsupportedArchitecture "\"7E-M\"") := by
  have h : FirstTag "xTag_CPU_name:\u2003\"7E-M\"\t\rTag_CPU_name: \"7-M\"\n" "x"
      "\u2003\"7E-M\"\t" "\rTag_CPU_name: \"7-M\"\n" := by
    refine ⟨by decide, fun before' after' h' => ?_, by decide, fun c hc => Or.inl ?_⟩
    · -- an earlier tag would stand at the very beginning, where there is an x
      rcases Nat.eq_zero_or_pos before'.length with hzero | hpos
      · rw [String.length_eq_zero_iff] at hzero
        subst hzero
        have hhead := congrArg (fun s => s.toList.head?) h'
        simp only [String.toList_append] at hhead
        have hx : some 'x' = some 'T' := hhead
        nomatch hx
      · exact hpos
    · have hreturn : some '\r' = some c := hc
      exact (Option.some.inj hreturn).symm
  exact ⟨h, ((classify_by_first_tag _).2.2.2.2 _ _ _ h).2.2.1 (by decide) (by decide)⟩

end FaultPlan.Isa
