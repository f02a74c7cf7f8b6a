/-
  Making directories: those that are there, and new ones that no path asks for.

  What a path leads to as a directory is not made again (`makeDirectories_of_directoryAt`).  A new
  directory changes what some walks come to, but only walks that ask for a name like its own: a path
  that avoids this name, in a tree whose links avoid it too, leads where it led before (`Avoids`,
  `Scratch.Made.followPath_eq`).
-/
import FaultPlan.Proofs.Files.Scratch

namespace FaultPlan

namespace FileTree

variable {t t' : FileTree} {intent : Intent} {path : Path} {place : Place}

/-! ## Directories that are there -/

/-- Neither the paths nor the links of the tree ask for a name like the last one of the place. -/
structure Avoids (t : FileTree) (place : Place) (paths : List Path) : Prop where
  paths : ∀ path ∈ paths, ∀ name ∈ (Route.ofPath path).names, place.getLast? ≠ some name
  links : ∀ p target, t.get? p = some (.link target) →
    ∀ name ∈ (Route.ofPath target).names, place.getLast? ≠ some name

/-- What a leg has still to walk behind a link was to be walked from the first. -/
theorem detour_of_leg {dir base : Place} {names rest : List Name} {target : Path}
    (h : t.leg intent dir names = .detour base target rest) :
    (∃ p, t.get? p = some (.link target)) ∧ rest <:+ names := by
  fun_induction leg t intent dir names with
  | case1 | case4 | case5 | case6 | case7 | case9 | case10 => cases h
  | case2 dir name names _ ih => exact (ih h).imp_right (·.trans (List.suffix_cons name names))
  | case3 dir names _ ih => exact (ih h).imp_right (·.trans (List.suffix_cons Route.up names))
  | case8 dir name names _ _ _ _ ih =>
    exact (ih h).imp_right (·.trans (List.suffix_cons name names))
  | case11 dir name names _ _ _ target' hlook =>
    obtain ⟨-, rfl, rfl⟩ := Leg.detour.inj h
    exact ⟨⟨_, (look_eq_ok_iff.1 hlook).2⟩, List.suffix_cons name names⟩

section

variable (hget : ∀ q, q ≠ place → t'.get? q = t.get? q)

include hget

/-- A leg cannot tell what stands at a place whose last name it does not ask for. -/
theorem leg_avoiding {dir : Place} {names : List Name}
    (hnames : ∀ name ∈ names, place.getLast? ≠ some name) :
    t'.leg intent dir names = t.leg intent dir names := by
  induction names generalizing dir with
  | nil => rfl
  | cons name rest ih =>
    have hne : dir ++ [name] ≠ place := by
      rintro rfl
      exact hnames name List.mem_cons_self List.getLast?_concat
    have hrest : ∀ dir, t'.leg intent dir rest = t.leg intent dir rest := fun _ =>
      ih fun n hn => hnames n (List.mem_cons_of_mem _ hn)
    simp only [leg, look, hget _ hne, hrest]

theorem walk_avoiding (hlinks : ∀ p target, t.get? p = some (.link target) →
      ∀ name ∈ (Route.ofPath target).names, place.getLast? ≠ some name) {budget : Nat} {dir : Place}
    {names : List Name} (hnames : ∀ name ∈ names, place.getLast? ≠ some name) :
    t'.walk intent budget dir names = t.walk intent budget dir names := by
  fun_induction walk t intent budget dir names with
  | case1 budget dir names l hleg =>
    exact walk_of_landed ((leg_avoiding hget hnames).trans hleg)
  | case2 budget dir names fault hleg =>
    exact walk_of_refused ((leg_avoiding hget hnames).trans hleg)
  | case3 dir names base target rest hleg =>
    exact walk_zero_of_detour ((leg_avoiding hget hnames).trans hleg)
  | case4 dir names base target rest hleg budget r ih =>
    rw [walk_succ_of_detour ((leg_avoiding hget hnames).trans hleg)]
    obtain ⟨⟨p, hlink⟩, hsuffix⟩ := detour_of_leg hleg
    refine ih fun name hname => ?_
    rcases List.mem_append.1 hname with htarget | hrest
    · exact hlinks p target hlink name htarget
    · exact hnames name (hsuffix.subset hrest)

/-- **A path cannot tell** what stands at a place whose last name neither it nor a link asks for. -/
theorem Avoids.followPath_eq {paths : List Path} (havoid : t.Avoids place paths)
    (hcwd : t'.cwd = t.cwd) : ∀ path ∈ paths,
      t'.followPath intent path = t.followPath intent path := by
  intro path hpath
  unfold followPath
  cases hr : Route.parse path with
  | error fault => rfl
  | ok r =>
    obtain ⟨-, -, rfl⟩ := Route.parse_eq_ok_iff.1 hr
    dsimp only
    unfold follow
    rw [startOf_congr hcwd, walk_avoiding hget havoid.links (havoid.paths path hpath)]

end

end FileTree

/-- No path that avoids a scratch directory can tell that there is one. -/
theorem Scratch.Made.followPath_eq {s : Scratch} {t begun : FileTree} {place : Place}
    {paths : List Path} (h : s.Made t place begun) (havoid : t.Avoids place paths) :
    ∀ path ∈ paths, begun.followPath .find path = t.followPath .find path := by
  refine havoid.followPath_eq (fun q hq => ?_) h.cwd
  rw [h.get?, if_neg hq]

end FaultPlan
