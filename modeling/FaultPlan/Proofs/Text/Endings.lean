/-
  Texts whose lines end in a carriage return and a line feed.

  `withReturns` puts a carriage return in front of every line feed.  In a text that had none it
  changes only what ends the lines: the lines themselves stay (`lines_withReturns`), and a search for
  something within a line finds it where it was, with the same characters behind it up to the end of
  that line (`afterFirst?_returned`, `takeWhile_returned`).
-/
import FaultPlan.Text.Pieces

namespace FaultPlan.Text

/-- The characters with a carriage return in front of every line feed. -/
def returned (cs : List Char) : List Char :=
  cs.flatMap fun c => if c = '\n' then ['\r', '\n'] else [c]

/-- The text with a carriage return in front of every line feed. -/
def withReturns (s : String) : String := String.ofList (returned s.toList)

example : withReturns "a\n\nb" = "a\r\n\r\nb" := by decide

@[simp]
theorem returned_nil : returned [] = [] := rfl

@[simp]
theorem returned_feed (cs : List Char) : returned ('\n' :: cs) = '\r' :: '\n' :: returned cs := rfl

theorem returned_cons {c : Char} (hc : c ≠ '\n') (cs : List Char) :
    returned (c :: cs) = c :: returned cs := by
  rw [returned, List.flatMap_cons, if_neg hc]
  rfl

/-! ## Lines -/

/-- A character that ends no line joins the first line, whatever that line is. -/
theorem lineChars_cons_congr {c : Char} (hfeed : c ≠ '\n') (hreturn : c ≠ '\r')
    {cs cs' : List Char} (h : lineChars cs = lineChars cs') :
    lineChars (c :: cs) = lineChars (c :: cs') := by
  rw [lineChars, lineChars, h]
  · exact hfeed
  · exact fun _ hc _ => hreturn hc
  · exact hfeed
  · exact fun _ hc _ => hreturn hc

theorem lineChars_returned {cs : List Char} (h : '\r' ∉ cs) :
    lineChars (returned cs) = lineChars cs := by
  induction cs with
  | nil => rfl
  | cons c cs ih =>
    have hc : c ≠ '\r' := fun heq => h (heq ▸ List.mem_cons_self)
    have ih' := ih fun hmem => h (List.mem_cons_of_mem c hmem)
    by_cases hfeed : c = '\n'
    · subst hfeed
      rw [returned_feed, lineChars, lineChars, ih']
    · rw [returned_cons hfeed]
      exact lineChars_cons_congr hfeed hc ih'

/-- **The lines stay**: a carriage return before a line feed belongs to the ending. -/
theorem lines_withReturns {s : String} (h : '\r' ∉ s.toList) : lines (withReturns s) = lines s := by
  rw [lines, withReturns, String.toList_ofList, lineChars_returned h, lines]

/-! ## Searches within a line -/

/-- What a line begins with, up to its end, stays. -/
theorem takeWhile_returned (cs : List Char) :
    (returned cs).takeWhile (fun c => c != '\r' && c != '\n') =
      cs.takeWhile fun c => c != '\r' && c != '\n' := by
  induction cs with
  | nil => rfl
  | cons c cs ih =>
    by_cases hfeed : c = '\n'
    · subst hfeed
      rfl
    · rw [returned_cons hfeed, List.takeWhile_cons, List.takeWhile_cons, ih]

section

variable {needle : List Char} (hfeed : '\n' ∉ needle) (hreturn : '\r' ∉ needle)

include hfeed in
theorem returned_append (rest : List Char) :
    returned (needle ++ rest) = needle ++ returned rest := by
  induction needle with
  | nil => rfl
  | cons d ds ih =>
    have hd : d ≠ '\n' := fun heq => hfeed (heq ▸ List.mem_cons_self)
    rw [List.cons_append, returned_cons hd, ih fun hmem => hfeed (List.mem_cons_of_mem d hmem)]
    rfl

include hfeed hreturn in
/-- A text begins with something that is within a line as before. -/
theorem prefix_returned_iff {cs : List Char} : needle <+: returned cs ↔ needle <+: cs := by
  constructor
  · intro h
    induction needle generalizing cs with
    | nil => exact List.nil_prefix
    | cons d ds ih =>
      cases cs with
      | nil => exact h
      | cons c cs =>
        by_cases hc : c = '\n'
        · -- the return in front of a line feed is not the beginning of anything within a line
          subst hc
          rw [returned_feed, List.cons_prefix_cons] at h
          exact absurd (h.1 ▸ List.mem_cons_self) hreturn
        · rw [returned_cons hc, List.cons_prefix_cons] at h
          refine List.cons_prefix_cons.2 ⟨h.1, ih ?_ ?_ h.2⟩
          · exact fun hmem => hfeed (List.mem_cons_of_mem d hmem)
          · exact fun hmem => hreturn (List.mem_cons_of_mem d hmem)
  · rintro ⟨rest, rfl⟩
    exact ⟨returned rest, (returned_append hfeed rest).symm⟩

include hfeed hreturn in
theorem isPrefixOf_returned (cs : List Char) :
    needle.isPrefixOf (returned cs) = needle.isPrefixOf cs := by
  rw [Bool.eq_iff_iff, List.isPrefixOf_iff_prefix, List.isPrefixOf_iff_prefix]
  exact prefix_returned_iff hfeed hreturn

include hfeed in
theorem drop_returned {cs : List Char} (h : needle <+: cs) :
    (returned cs).drop needle.length = returned (cs.drop needle.length) := by
  obtain ⟨rest, rfl⟩ := h
  rw [returned_append hfeed, List.drop_left, List.drop_left]

theorem isPrefixOf_cons_of_not_mem {c : Char} (hne : needle ≠ []) (hc : c ∉ needle)
    (cs : List Char) : needle.isPrefixOf (c :: cs) = false := by
  refine Bool.eq_false_iff.2 fun h => ?_
  obtain ⟨d, ds, rfl⟩ := List.exists_cons_of_ne_nil hne
  obtain ⟨rfl, -⟩ := List.cons_prefix_cons.1 (List.isPrefixOf_iff_prefix.1 h)
  exact hc List.mem_cons_self

include hfeed hreturn in
/-- **A search within a line** finds what it is for where it was. -/
theorem afterFirst?_returned (hne : needle ≠ []) (cs : List Char) :
    afterFirst? needle (returned cs) = (afterFirst? needle cs).map returned := by
  induction cs with
  | nil =>
    have hempty : needle.isEmpty = false := List.isEmpty_eq_false_iff.2 hne
    simp [afterFirst?, hempty]
  | cons c cs ih =>
    by_cases hc : c = '\n'
    · -- neither of the two characters that end a line begins what is looked for
      subst hc
      have hr := isPrefixOf_cons_of_not_mem hne hreturn
      have hf := isPrefixOf_cons_of_not_mem hne hfeed
      rw [returned_feed, afterFirst?, hr, afterFirst?, hf, afterFirst?, hf]
      simpa using ih
    · rw [returned_cons hc, afterFirst?, ← returned_cons hc, isPrefixOf_returned hfeed hreturn,
        afterFirst?, ih]
      split
      · next h =>
        rw [drop_returned hfeed (List.isPrefixOf_iff_prefix.1 h)]
        rfl
      · rfl

end

end FaultPlan.Text
