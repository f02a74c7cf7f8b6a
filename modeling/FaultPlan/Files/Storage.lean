/-
  Storages: what lists the directories of a file tree, and what it refuses to remove.

  A directory is listed in no order that one could rely on, and the listing may break off before its
  end.  What is there may still not be removed, for want of a permission or on a device that is
  read only.  None of this can be told from the entries of a tree, so that it comes with a storage of
  its own.  The laws of a storage are the few things that can be relied on: a listing that does not
  break off has all names of the directory, and what is refused stays as it is.
-/
import FaultPlan.Files.Access

namespace FaultPlan

/-- What was read of a directory. -/
structure Reading where
  names : List Name
  /-- The fault at which reading broke off, if it did. -/
  fault? : Option IoFault
  deriving DecidableEq, Repr

structure Storage where
  /-- The names in a directory in the order in which they are listed. -/
  list : FileTree → Place → Reading
  /-- Why the file or link at a path is not removed, though it is there. -/
  refusal? : Path → Option IoFault
  /-- What is left when removing a directory with everything in it is refused on the way. -/
  broken? : FileTree → Place → Option FileTree
  list_nodup : ∀ t p, (list t p).names.Nodup
  list_holds : ∀ t p, ∀ name ∈ (list t p).names, Route.IsName name ∧ t.get? (p ++ [name]) ≠ none
  list_complete : ∀ t p, (list t p).fault? = none → ∀ name, Route.IsName name →
    t.get? (p ++ [name]) ≠ none → name ∈ (list t p).names
  refusal?_ne : ∀ path, refusal? path ≠ some .notFound
  broken?_within : ∀ t p left, broken? t p = some left → left.cwd = t.cwd ∧
    ∀ q, left.get? q = t.get? q ∨ (p <+: q ∧ left.get? q = none)

namespace Storage

/-! ## Removing -/

/-- The file or link at a path is removed, unless that is refused. -/
def unlink (s : Storage) (t : FileTree) (path : Path) : Except IoFault FileTree :=
  match t.unlink path with
  | .error fault => .error fault
  | .ok t' =>
    match s.refusal? path with
    | some fault => .error fault
    | none => .ok t'

/-- A directory is removed with everything in it, as far as that is not refused. -/
def sweep (s : Storage) (t : FileTree) (p : Place) : FileTree := (s.broken? t p).getD (t.prune p)

end Storage

/-! ## A storage that refuses nothing -/

namespace FileTree

/-- The names of the entries directly in a directory. -/
def childNames (t : FileTree) (p : Place) : List Name :=
  t.entries.filterMap fun x => if x.1.dropLast = p then x.1.getLast? else none

theorem child_eq_some_iff {x q : Place} {name : Name} :
    (if x.dropLast = q then x.getLast? else none) = some name ↔ x = q ++ [name] := by
  constructor
  · intro h
    split at h
    · next hparent =>
      obtain ⟨parent, hx⟩ := List.getLast?_eq_some_iff.1 h
      rw [hx, List.dropLast_concat] at hparent
      rw [hx, hparent]
    · nomatch h
  · rintro rfl
    simp

theorem mem_childNames_iff {t : FileTree} {p : Place} {name : Name} :
    name ∈ t.childNames p ↔ t.get? (p ++ [name]) ≠ none := by
  rw [childNames, List.mem_filterMap, Option.ne_none_iff_exists']
  simp only [child_eq_some_iff, t.get?_eq_some_iff (p := p ++ [name]) (by simp)]
  constructor
  · rintro ⟨⟨q, e⟩, hmem, rfl⟩
    exact ⟨e, hmem⟩
  · rintro ⟨e, hmem⟩
    exact ⟨_, hmem, rfl⟩

/-- A directory has no name twice. -/
theorem nodup_childNames (t : FileTree) (p : Place) : (t.childNames p).Nodup := by
  have hdistinct := t.distinct
  rw [List.Nodup, List.pairwise_map] at hdistinct
  refine List.pairwise_filterMap.2 (hdistinct.imp fun {x y} hne => ?_)
  rintro name hx name' hy rfl
  rw [child_eq_some_iff.1 hx, child_eq_some_iff.1 hy] at hne
  exact hne rfl

end FileTree

/-- Names are listed as the tree has them, and everything may be removed. -/
def Storage.plain : Storage where
  list t p := ⟨(t.childNames p).filter (Route.IsName ·), none⟩
  refusal? _ := none
  broken? _ _ := none
  list_nodup t p := (t.nodup_childNames p).sublist List.filter_sublist
  list_holds t p name h := by
    obtain ⟨hmem, hname⟩ := List.mem_filter.1 h
    exact ⟨of_decide_eq_true hname, FileTree.mem_childNames_iff.1 hmem⟩
  list_complete t p _ name hname hget :=
    List.mem_filter.2 ⟨FileTree.mem_childNames_iff.2 hget, decide_eq_true hname⟩
  refusal?_ne _ := nofun
  broken?_within _ _ _ := nofun

end FaultPlan
