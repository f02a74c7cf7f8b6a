/-
  Lines that are written one below the other are read back.

  A line of a listing holds no line feed, and ends in no carriage return, because one would be taken
  for a part of the line's ending (`IsLine`).  Of such lines, each ended by a line feed, nothing is
  lost and nothing is added (`lines_unlines`).
-/
import FaultPlan.Text.Pieces

namespace FaultPlan.Text

/-- The text can be a line of a listing. -/
structure IsLine (line : String) : Prop where
  no_feed : '\n' ∉ line.toList
  no_return : line.toList.getLast? ≠ some '\r'

instance (line : String) : Decidable (IsLine line) :=
  decidable_of_iff ('\n' ∉ line.toList ∧ line.toList.getLast? ≠ some '\r')
    ⟨fun h => ⟨h.1, h.2⟩, fun h => ⟨h.no_feed, h.no_return⟩⟩

/-- The listing of the lines, each ended by a line feed. -/
def unlines (lines : List String) : String :=
  String.ofList (lines.flatMap fun line => line.toList ++ ['\n'])

example : lines (unlines ["a", "", "b\rc"]) = ["a", "", "b\rc"] := by decide

/-- The first line is read up to its line feed, and the rest of the listing behind it. -/
theorem lineChars_append_feed {cs : List Char} (hfeed : '\n' ∉ cs)
    (hreturn : cs.getLast? ≠ some '\r') (rest : List Char) :
    lineChars (cs ++ '\n' :: rest) = cs :: lineChars rest := by
  induction cs with
  | nil => rw [List.nil_append, lineChars]
  | cons c cs ih =>
    have hc : c ≠ '\n' := fun h => hfeed (h ▸ List.mem_cons_self)
    have hfeed' : '\n' ∉ cs := fun h => hfeed (List.mem_cons_of_mem c h)
    have hreturn' : cs.getLast? ≠ some '\r' := by
      cases cs with
      | nil => simp
      | cons d ds => rwa [List.getLast?_cons_cons] at hreturn
    -- a carriage return is part of the line, as the character behind it is no line feed
    have hpair : ∀ ds, c = '\r' → cs ++ '\n' :: rest = '\n' :: ds → False := by
      rintro ds rfl h
      cases cs with
      | nil => exact hreturn rfl
      | cons d ds' =>
        obtain ⟨rfl, -⟩ := List.cons.inj h
        exact hfeed' List.mem_cons_self
    rw [List.cons_append, lineChars, ih hfeed' hreturn']
    · exact hc
    · exact hpair

theorem lineChars_flatMap {ls : List String} (h : ∀ l ∈ ls, IsLine l) :
    lineChars (ls.flatMap fun l => l.toList ++ ['\n']) = ls.map String.toList := by
  induction ls with
  | nil => rfl
  | cons l ls ih =>
    have hl : IsLine l := h l List.mem_cons_self
    have hls : ∀ l' ∈ ls, IsLine l' := fun l' hl' => h l' (List.mem_cons_of_mem l hl')
    rw [List.flatMap_cons, List.append_assoc, List.singleton_append,
      lineChars_append_feed hl.no_feed hl.no_return, ih hls, List.map_cons]

/-- **Lines are read back** as they were written. -/
theorem lines_unlines {ls : List String} (h : ∀ l ∈ ls, IsLine l) : lines (unlines ls) = ls := by
  rw [lines, unlines, String.toList_ofList, lineChars_flatMap h, List.map_map]
  exact List.map_id'' (fun l => String.ofList_toList) ls

end FaultPlan.Text
