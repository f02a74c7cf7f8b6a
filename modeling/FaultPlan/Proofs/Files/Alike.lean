/-
  Trees that hold the same.

  A tree lists its entries in some order, and no operation can tell which.  `Alike` relates trees with
  the same entry at every place and the same current directory.  All walks in them end alike
  (`Alike.walk_eq`), so that what is asked of them by a path is answered alike, and a change by a path
  is refused in both or makes trees that are alike again (`Alike.write`, `Alike.unlink`).
-/
import FaultPlan.Proofs.Files.Frames

namespace FaultPlan.FileTree

variable {t t' t'' : FileTree} {intent : Intent} {path : Path}

/-- The trees hold the same at all places, in whatever order they list it. -/
structure Alike (t t' : FileTree) : Prop where
  cwd : t'.cwd = t.cwd
  get? : ∀ p, t'.get? p = t.get? p

/-- Both changes are refused for the same reason, or both are made and lead to trees that are alike. -/
inductive AlikeOr {ε : Type} : Except ε FileTree → Except ε FileTree → Prop where
  | made {u u' : FileTree} (h : u.Alike u') : AlikeOr (.ok u) (.ok u')
  | refused (fault : ε) : AlikeOr (.error fault) (.error fault)

namespace Alike

/-! ## Walks -/

theorem leg_eq (h : t.Alike t') (intent : Intent) (dir : Place) (names : List Name) :
    t'.leg intent dir names = t.leg intent dir names := by
  induction names generalizing dir with
  | nil => rfl
  | cons name rest ih => simp only [leg, look, h.get?, ih]

theorem walk_eq (h : t.Alike t') (intent : Intent) (budget : Nat) (dir : Place)
    (names : List Name) : t'.walk intent budget dir names = t.walk intent budget dir names := by
  induction budget generalizing dir names with
  | zero =>
    unfold walk
    rw [h.leg_eq]
  | succ budget ih =>
    unfold walk
    rw [h.leg_eq]
    simp only [ih]

theorem follow_eq (h : t.Alike t') (intent : Intent) (r : Route) :
    t'.follow intent r = t.follow intent r := by
  simp only [follow, startOf_congr h.cwd, h.walk_eq]

theorem followPath_eq (h : t.Alike t') (intent : Intent) (path : Path) :
    t'.followPath intent path = t.followPath intent path := by
  simp only [followPath, h.follow_eq]

theorem spot_eq (h : t.Alike t') (r : Route) : t'.spot r = t.spot r := by
  simp only [spot, startOf_congr h.cwd, h.walk_eq]

theorem look_eq (h : t.Alike t') (dir : Place) (name : Name) : t'.look dir name = t.look dir name := by
  simp only [look, h.get?]

/-! ## Changes -/

theorem removeLeaves (h : t.Alike t') (gone : Place → Entry → Bool) :
    (t.removeLeaves gone).Alike (t'.removeLeaves gone) where
  cwd := h.cwd
  get? p := by rw [get?_removeLeaves, get?_removeLeaves, h.get?]

theorem put (h : t.Alike t') (p : Place) (e : Entry) : (t.put p e).Alike (t'.put p e) := by
  by_cases hp : p ≠ [] ∧ t.get? p.dropLast = some .directory ∧ t.get? p ≠ some .directory
  · have hp' : p ≠ [] ∧ t'.get? p.dropLast = some .directory ∧ t'.get? p ≠ some .directory := by
      rwa [h.get?, h.get?]
    refine ⟨?_, fun q => ?_⟩
    · rw [cwd_put, cwd_put, h.cwd]
    · rw [get?_put _ hp.1 hp.2.1 hp.2.2, get?_put _ hp'.1 hp'.2.1 hp'.2.2, h.get?]
  · have hp' : ¬ (p ≠ [] ∧ t'.get? p.dropLast = some .directory ∧ t'.get? p ≠ some .directory) := by
      rwa [h.get?, h.get?]
    rw [FileTree.put, dif_neg hp, FileTree.put, dif_neg hp']
    exact h

/-- **Writing** to a path is refused in both trees, or leaves them alike. -/
theorem write (h : t.Alike t') (path : Path) (contents : Bytes) :
    AlikeOr (t.write path contents) (t'.write path contents) := by
  unfold FileTree.write
  rw [h.followPath_eq]
  split
  · exact .refused _
  · exact .made (h.put _ _)
  · exact .made (h.put _ _)
  · exact .refused _

/-- **Removing** by a path is refused in both trees, or leaves them alike. -/
theorem unlink (h : t.Alike t') (path : Path) : AlikeOr (t.unlink path) (t'.unlink path) := by
  unfold FileTree.unlink
  cases Route.parse path with
  | error fault => exact .refused fault
  | ok r =>
    simp only [h.spot_eq, h.look_eq, bind, Except.bind]
    cases t.spot r with
    | error fault => exact .refused fault
    | ok s =>
      dsimp only
      split
      · exact .refused _
      cases t.look s.parent s.name with
      | error fault => exact .refused fault
      | ok found =>
        dsimp only
        split
        · exact .refused _
        · exact .refused _
        split
        · exact .refused _
        · exact .made (h.removeLeaves _)

end Alike
end FaultPlan.FileTree
