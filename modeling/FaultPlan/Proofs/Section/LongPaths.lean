/-
  A path that is not too long itself, with entries whose paths are.

  Such a path may stay where it is as often as there is room for (`dotted`).  It can be followed as
  long as it is not too long (`FileTree.directoryAt_dotted`).  Paths of blobs in the directory at its
  end are longer, and such a blob cannot be cleared when its path is too long
  (`FileTree.objection?_dotted`).
-/
import FaultPlan.Proofs.Section.Clearing

namespace FaultPlan

/-- A path to `d` that stays a number of times where it is before it gets there. -/
def dotted : Nat → Path
  | 0 => "d"
  | n + 1 => Route.here ++ slash :: dotted n

theorem steps_dotted (n : Nat) :
    Route.steps (dotted n) = List.replicate n Route.here ++ [Path.ofText "d"] := by
  induction n with
  | zero => decide
  | succ n ih =>
    have hdot : Route.steps Route.here = [Route.here] := by decide
    rw [dotted, Route.steps_append_slash, ih, hdot, List.replicate_succ]
    rfl

theorem length_dotted (n : Nat) : (dotted n).length = 2 * n + 1 := by
  induction n with
  | zero => decide
  | succ n ih =>
    rw [dotted, List.length_append, List.length_cons, ih]
    show 1 + (2 * n + 1 + 1) = _
    omega

theorem getLast?_dotted (n : Nat) : (dotted n).getLast? = some 0x64 := by
  induction n with
  | zero => decide
  | succ n ih =>
    rw [dotted, List.append_cons, List.getLast?_append, ih]
    rfl

theorem hasNul_dotted (n : Nat) : Route.hasNul (dotted n) = false := by
  induction n with
  | zero => decide
  | succ n ih =>
    simp only [Route.hasNul, List.contains_eq_mem, decide_eq_false_iff_not] at ih ⊢
    simpa [dotted, Route.here, slash] using ih

theorem parse_dotted {n : Nat} (hn : n < 2048) :
    Route.parse (dotted n) = .ok ⟨false, List.replicate n Route.here ++ [Path.ofText "d"]⟩ := by
  refine Route.parse_eq_ok_iff.2 ⟨hasNul_dotted n, decide_eq_true ?_, ?_⟩
  · rw [length_dotted]
    omega
  · have habsolute : (Route.ofPath (dotted n)).absolute = false := by
      cases n with
      | zero => decide
      | succ n => rfl
    have hnames : (Route.ofPath (dotted n)).names =
        List.replicate n Route.here ++ [Path.ofText "d"] := by
      rw [Route.names_ofPath, steps_dotted, getLast?_dotted, if_neg (by simp [slash])]
    rw [← habsolute, ← hnames]

namespace FileTree

variable {t : FileTree}

theorem leg_dots {intent : Intent} {dir : Place} {rest : List Name} (n : Nat) :
    t.leg intent dir (List.replicate n Route.here ++ rest) = t.leg intent dir rest := by
  induction n with
  | zero => rfl
  | succ n ih =>
    rw [List.replicate_succ, List.cons_append, leg_here (by decide), ih]

theorem directoryAt_dotted {n : Nat} (hn : n < 2048) (hcwd : t.cwd = [])
    (hdir : t.get? ["d"] = some .directory) : t.directoryAt (dotted n) = .ok ["d"] := by
  rw [directoryAt_eq_ok_iff, followPath_eq_ok_iff_walk]
  refine ⟨_, parse_dotted hn, by simp, walk_of_landed ?_⟩
  rw [leg_dots, startOf, hcwd, if_neg (by simp),
    leg_enter (by decide) (by decide) (by decide) hdir (by simp)]
  rfl

/-- A blob in the directory has a path that is too long. -/
theorem objection?_dotted (storage : Storage) {n : Nat} (hlong : 2039 < n) :
    storage.objection? (joinPath (dotted n) "code_section.old") = some .nameTooLong := by
  refine if_neg ?_
  have hname : (Path.ofText "code_section.old").length = 16 := by decide
  rw [Route.pathFits, decide_eq_true_eq, joinPath, getLast?_dotted]
  dsimp only
  rw [if_neg (by decide), List.length_append, List.length_cons, length_dotted, hname]
  omega

end FileTree
end FaultPlan
