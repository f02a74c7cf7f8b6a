/-
  Walks in a tree without links.

  Where no link is met a walk is a single leg, and what it comes to is settled by the directories on
  its way.  `slot?` names the spot at which a path ends, if all names before the last lead through
  directories: a walk lands at what stands in the slot, or finds it vacant (`followPath_of_slotOf?`);
  a path without a slot leads to a directory or nowhere (`followPath_of_slotOf?_eq_none`).  The
  operations that look for a spot by themselves find the same one (`unlink_eq_ok_iff`).
-/
import FaultPlan.Files.Access
import FaultPlan.Proofs.Outcomes

namespace FaultPlan

def Entry.isLink : Entry → Bool
  | .link _ => true
  | _ => false

namespace FileTree

variable {t : FileTree} {intent : Intent} {dir : Place} {names : List Name} {path : Path}

/-- No entry of the tree is a symbolic link. -/
def LinkFree (t : FileTree) : Prop := ∀ p target, t.get? p ≠ some (.link target)

theorem linkFree_iff : t.LinkFree ↔ ∀ e ∈ t.entries, e.2.isLink = false := by
  constructor
  · rintro h ⟨p, e⟩ he
    have hp := (t.get?_eq_some_iff (t.rooted _ he).1).2 he
    cases e with
    | link target => exact absurd hp (h p target)
    | file contents => rfl
    | directory => rfl
  · intro h p target hlink
    have hp : p ≠ [] := by
      rintro rfl
      nomatch hlink
    nomatch h _ ((t.get?_eq_some_iff hp).1 hlink)

instance (t : FileTree) : Decidable t.LinkFree := decidable_of_iff _ linkFree_iff.symm

/-! ## Steps of a leg -/

/-- Where a walk ends that comes to the spot. -/
def landingAt (t : FileTree) (s : Spot) : Landing :=
  match t.get? s.place with
  | none => .vacant s.parent s.name
  | some e => .at s.place e

theorem landingAt_eq_at_iff {s : Spot} {p : Place} {e : Entry} :
    t.landingAt s = .at p e ↔ s.place = p ∧ t.get? p = some e := by
  unfold landingAt
  constructor
  · intro h
    split at h
    · nomatch h
    · next he =>
      obtain ⟨rfl, rfl⟩ := Landing.at.inj h
      exact ⟨rfl, he⟩
  · rintro ⟨rfl, he⟩
    rw [he]

section

variable {name : Name} {rest : List Name}

theorem leg_here (h : Route.isHere name = true) :
    t.leg intent dir (name :: rest) = t.leg intent dir rest := by
  rw [leg, if_pos h]

theorem leg_up : t.leg intent dir (Route.up :: rest) = t.leg intent dir.dropLast rest := by
  rw [leg, if_neg (by decide), if_pos rfl]

/-- A leg goes on in a directory that it comes to, unless something is to be created in its place. -/
theorem leg_enter (hhere : ¬ Route.isHere name = true) (hup : name ≠ Route.up)
    (hfits : Route.nameFits name = true) (hdir : t.get? (dir ++ [name]) = some .directory)
    (hgo : ¬ (intent = .create ∧ rest = [[]])) :
    t.leg intent dir (name :: rest) = t.leg intent (dir ++ [name]) rest := by
  rw [leg, if_neg hhere, if_neg hup, if_neg hgo, look, if_pos hfits, hdir]

/-- **One step of a leg** that lands: it stays, goes up, enters a directory, or is the last. -/
theorem leg_cons_eq_landed {l : Landing} (h : t.leg intent dir (name :: rest) = .landed l) :
    (Route.isHere name = true ∧ t.leg intent dir rest = .landed l) ∨
    (name = Route.up ∧ t.leg intent dir.dropLast rest = .landed l) ∨
    (¬ Route.isHere name = true ∧ name ≠ Route.up ∧ Route.nameFits name = true ∧
      ¬ (intent = .create ∧ rest = [[]]) ∧
      ((t.get? (dir ++ [name]) = some .directory ∧
          t.leg intent (dir ++ [name]) rest = .landed l) ∨
        (rest = [] ∧ t.get? (dir ++ [name]) ≠ some .directory ∧
          l = t.landingAt ⟨dir, name, false⟩))) := by
  rw [leg] at h
  split at h
  · next hhere => exact Or.inl ⟨hhere, h⟩
  next hhere =>
  split at h
  · next hup => exact Or.inr (Or.inl ⟨hup, h⟩)
  next hup =>
  split at h
  · nomatch h
  next hgo =>
  refine Or.inr (Or.inr ⟨hhere, hup, ?_⟩)
  -- the name is looked up: a leg lands only if it goes on in a directory or has nothing left to walk
  unfold look at h
  cases hfits : Route.nameFits name with
  | false =>
    rw [hfits, if_neg Bool.false_ne_true] at h
    nomatch h
  | true =>
    refine ⟨rfl, hgo, ?_⟩
    rw [hfits, if_pos rfl] at h
    unfold landingAt Spot.place
    cases he : t.get? (dir ++ [name]) with
    | none =>
      simp only [he] at h
      split at h
      · next hrest => exact Or.inr ⟨hrest, nofun, (Leg.landed.inj h).symm⟩
      · nomatch h
    | some e =>
      cases e with
      | directory =>
        rw [he] at h
        exact Or.inl ⟨rfl, h⟩
      | file contents =>
        simp only [he] at h
        split at h
        · next hrest => exact Or.inr ⟨hrest, nofun, (Leg.landed.inj h).symm⟩
        · nomatch h
      | link target =>
        rw [he] at h
        nomatch h

end

/-! ## Slots -/

/-- The spot of the last name, if the names before it lead from the directory through directories, and
    it is a name that a directory may hold. -/
def slot? (t : FileTree) : Place → List Name → Option Spot
  | _, [] => none
  | dir, name :: rest =>
    if Route.isHere name then t.slot? dir rest
    else if name = Route.up then t.slot? dir.dropLast rest
    else if Route.nameFits name then
      if rest = [] then some ⟨dir, name, false⟩
      else if t.get? (dir ++ [name]) = some .directory then t.slot? (dir ++ [name]) rest
      else none
    else none

/-- The directory above a directory is one. -/
theorem get?_dropLast {p : Place} (h : t.get? p = some .directory) :
    t.get? p.dropLast = some .directory := by
  rcases t.get?_eq_directory_iff.1 h with rfl | hmem
  · rfl
  · exact t.get?_eq_directory_iff.2 (t.rooted _ hmem).2

theorem get?_startOf (t : FileTree) (r : Route) : t.get? (t.startOf r) = some .directory := by
  unfold startOf
  split
  · rfl
  · exact t.get?_eq_directory_iff.2 t.cwd_directory

/-- A leg to a slot ends there, whatever stands in it. -/
theorem leg_of_slot? (hfree : t.LinkFree) {s : Spot} (h : t.slot? dir names = some s) :
    t.leg intent dir names = .landed (t.landingAt s) := by
  fun_induction slot? t dir names with
  | case1 => nomatch h
  | case2 dir name rest hhere ih =>
    rw [leg_here hhere]
    exact ih h
  | case3 dir rest _ ih =>
    rw [leg_up]
    exact ih h
  | case4 dir name hhere hup hfits =>
    -- the last name: nothing is left to walk behind it
    obtain rfl := Option.some.inj h
    rw [leg, if_neg hhere, if_neg hup, if_neg (by simp), look, if_pos hfits]
    simp only [landingAt, Spot.place]
    cases he : t.get? (dir ++ [name]) with
    | none => rfl
    | some e =>
      cases e with
      | file contents => rfl
      | directory => rfl
      | link target => exact absurd he (hfree _ _)
  | case5 dir name rest hhere hup hfits _ hdir ih =>
    have hgo : ¬ (intent = .create ∧ rest = [[]]) := by
      rintro ⟨-, rfl⟩
      nomatch h
    rw [leg_enter hhere hup hfits hdir hgo]
    exact ih h
  | case6 => nomatch h
  | case7 => nomatch h

/-- A leg of names without a slot leads to a directory or nowhere. -/
theorem leg_of_slot?_eq_none (hfree : t.LinkFree) (intent : Intent)
    (h : t.slot? dir names = none) :
    (∃ p, t.leg intent dir names = .landed (.at p .directory)) ∨
      ∃ fault, t.leg intent dir names = .refused fault := by
  fun_induction slot? t dir names with
  | case1 dir => exact Or.inl ⟨dir, rfl⟩
  | case2 dir name rest hhere ih =>
    rw [leg_here hhere]
    exact ih h
  | case3 dir rest _ ih =>
    rw [leg_up]
    exact ih h
  | case4 => nomatch h
  | case5 dir name rest hhere hup hfits _ hdir ih =>
    by_cases hgo : intent = .create ∧ rest = [[]]
    · right
      rw [leg, if_neg hhere, if_neg hup, if_pos hgo]
      exact ⟨_, rfl⟩
    · rw [leg_enter hhere hup hfits hdir hgo]
      exact ih h
  | case6 dir name rest hhere hup hfits hrest hdir =>
    -- what stands under the name is no directory, and there is more to walk
    right
    rw [leg, if_neg hhere, if_neg hup]
    split
    · exact ⟨_, rfl⟩
    rw [look, if_pos hfits]
    cases he : t.get? (dir ++ [name]) with
    | none => exact ⟨_, rfl⟩
    | some e =>
      cases e with
      | file contents => exact ⟨_, rfl⟩
      | directory => exact absurd he hdir
      | link target => exact absurd he (hfree _ _)
  | case7 dir name rest hhere hup hfits =>
    right
    rw [leg, if_neg hhere, if_neg hup]
    split
    · exact ⟨_, rfl⟩
    · rw [look, if_neg hfits]
      exact ⟨_, rfl⟩

theorem leg_ne_detour (hfree : t.LinkFree) {base : Place} {target : Path} {rest : List Name} :
    t.leg intent dir names ≠ .detour base target rest := by
  intro h
  cases hslot : t.slot? dir names with
  | some s => nomatch (leg_of_slot? hfree hslot).symm.trans h
  | none =>
    rcases leg_of_slot?_eq_none hfree intent hslot with ⟨p, hp⟩ | ⟨fault, hfault⟩
    · nomatch hp.symm.trans h
    · nomatch hfault.symm.trans h

/-! ## Walks -/

/-- A walk that meets no link is its first leg. -/
theorem walk_eq_ok_iff (hfree : t.LinkFree) {budget : Nat} {l : Landing} :
    t.walk intent budget dir names = .ok l ↔ t.leg intent dir names = .landed l := by
  unfold walk
  split
  · next hleg => simp [hleg]
  · next hleg => simp [hleg]
  · next hleg => exact absurd hleg (leg_ne_detour hfree)

theorem followPath_eq_ok_iff (hfree : t.LinkFree) {l : Landing} :
    t.followPath intent path = .ok l ↔ ∃ r, Route.parse path = .ok r ∧
      ¬ (r.names = [] ∧ r.absolute = false) ∧ t.leg intent (t.startOf r) r.names = .landed l := by
  unfold followPath
  cases Route.parse path with
  | error fault => simp
  | ok r =>
    dsimp only
    rw [follow]
    split
    · next hnames => simp [hnames]
    next hnames =>
    rw [walk_eq_ok_iff hfree]
    constructor
    · exact fun h => ⟨r, rfl, hnames, h⟩
    · rintro ⟨r', hr, -, h⟩
      obtain rfl := Except.ok.inj hr
      exact h

/-- The slot that a path leads to. -/
def slotOf? (t : FileTree) (path : Path) : Option Spot :=
  match Route.parse path with
  | .ok r => t.slot? (t.startOf r) r.names
  | .error _ => none

theorem slotOf?_eq_some_iff {s : Spot} : t.slotOf? path = some s ↔
    ∃ r, Route.parse path = .ok r ∧ t.slot? (t.startOf r) r.names = some s := by
  unfold slotOf?
  cases Route.parse path with
  | error fault => simp
  | ok r => simp

theorem followPath_of_slotOf? (hfree : t.LinkFree) {s : Spot} (h : t.slotOf? path = some s) :
    t.followPath intent path = .ok (t.landingAt s) := by
  obtain ⟨r, hr, hslot⟩ := slotOf?_eq_some_iff.1 h
  refine (followPath_eq_ok_iff hfree).2 ⟨r, hr, ?_, leg_of_slot? hfree hslot⟩
  rintro ⟨hnil, -⟩
  rw [hnil] at hslot
  nomatch hslot

/-- A path that leads to no slot leads to a directory or nowhere. -/
theorem followPath_of_slotOf?_eq_none (hfree : t.LinkFree) (h : t.slotOf? path = none) {l : Landing}
    (hl : t.followPath intent path = .ok l) : ∃ p, l = .at p .directory := by
  obtain ⟨r, hr, -, hleg⟩ := (followPath_eq_ok_iff hfree).1 hl
  rw [slotOf?, hr] at h
  rcases leg_of_slot?_eq_none hfree intent h with ⟨p, hp⟩ | ⟨fault, hfault⟩
  · exact ⟨p, Leg.landed.inj (hleg.symm.trans hp)⟩
  · nomatch hleg.symm.trans hfault

theorem directoryAt_eq_ok_iff {p : Place} :
    t.directoryAt path = .ok p ↔ t.followPath .find path = .ok (.at p .directory) := by
  unfold directoryAt
  split
  · next hpath => simp [hpath]
  · next e hdir hpath => simpa [hpath] using fun _ => hdir
  · next hpath => simp [hpath]
  · next hpath => simp [hpath]

/-! ## Files that paths lead to -/

/-- The place of the file that a path leads to, or of the one that writing to the path would make. -/
def target? (t : FileTree) (path : Path) : Option Place :=
  match t.followPath .create path with
  | .ok (.at place (.file _)) => some place
  | .ok (.vacant parent name) => some (parent ++ [name])
  | _ => none

theorem target?_of_slotOf? (hfree : t.LinkFree) {s : Spot} (h : t.slotOf? path = some s) :
    t.target? path = if t.get? s.place = some .directory then none else some s.place := by
  rw [target?, followPath_of_slotOf? hfree h, landingAt]
  cases he : t.get? s.place with
  | none => rfl
  | some e =>
    cases e with
    | file contents => rfl
    | directory => rfl
    | link target => exact absurd he (hfree _ _)

theorem target?_of_slotOf?_eq_none (hfree : t.LinkFree) (h : t.slotOf? path = none) :
    t.target? path = none := by
  rw [target?]
  cases hl : t.followPath .create path with
  | error fault => rfl
  | ok l =>
    obtain ⟨p, rfl⟩ := followPath_of_slotOf?_eq_none hfree h hl
    rfl

/-- The file of a path stands in the path's slot, unless a directory does. -/
theorem target?_eq_some_iff (hfree : t.LinkFree) {p : Place} :
    t.target? path = some p ↔
      ∃ s, t.slotOf? path = some s ∧ s.place = p ∧ t.get? p ≠ some .directory := by
  cases hslot : t.slotOf? path with
  | none => simp [target?_of_slotOf?_eq_none hfree hslot]
  | some s =>
    rw [target?_of_slotOf? hfree hslot, Option.ite_none_left_eq_some]
    constructor
    · rintro ⟨hdir, hp⟩
      obtain rfl := Option.some.inj hp
      exact ⟨s, rfl, rfl, hdir⟩
    · rintro ⟨s', hs', rfl, hdir⟩
      obtain rfl := Option.some.inj hs'
      exact ⟨hdir, rfl⟩

/-- What stands at the place of a path's file is a file, if anything. -/
theorem get?_target? (hfree : t.LinkFree) {p : Place} (h : t.target? path = some p) :
    t.get? p = none ∨ ∃ contents, t.get? p = some (.file contents) := by
  obtain ⟨s, -, -, hdir⟩ := (target?_eq_some_iff hfree).1 h
  cases he : t.get? p with
  | none => exact Or.inl rfl
  | some e =>
    cases e with
    | file contents => exact Or.inr ⟨contents, rfl⟩
    | directory => exact absurd he hdir
    | link target => exact absurd he (hfree _ _)

/-- The path leads to the file at the place. -/
def LeadsTo (t : FileTree) (path : Path) (p : Place) : Prop :=
  ∃ contents, t.followPath .find path = .ok (.at p (.file contents))

/-- A path leads to a file when the file stands at the path's place. -/
theorem followPath_eq_file_iff (hfree : t.LinkFree) {p : Place} {contents : Bytes} :
    t.followPath .find path = .ok (.at p (.file contents)) ↔
      t.target? path = some p ∧ t.get? p = some (.file contents) := by
  cases hslot : t.slotOf? path with
  | none =>
    rw [target?_of_slotOf?_eq_none hfree hslot]
    constructor
    · intro h
      obtain ⟨q, hq⟩ := followPath_of_slotOf?_eq_none hfree hslot h
      nomatch hq
    · rintro ⟨h, -⟩
      nomatch h
  | some s =>
    rw [followPath_of_slotOf? hfree hslot, target?_of_slotOf? hfree hslot, Except.ok.injEq,
      landingAt_eq_at_iff, Option.ite_none_left_eq_some]
    constructor
    · rintro ⟨rfl, hfile⟩
      exact ⟨⟨by rw [hfile]; nofun, rfl⟩, hfile⟩
    · rintro ⟨⟨-, hp⟩, hfile⟩
      exact ⟨Option.some.inj hp, hfile⟩

theorem leadsTo_iff (hfree : t.LinkFree) {p : Place} :
    t.LeadsTo path p ↔ t.target? path = some p ∧ ∃ contents, t.get? p = some (.file contents) := by
  simp only [LeadsTo, followPath_eq_file_iff hfree, exists_and_left]

/-! ## Spots -/

/-- The names before a slot lead to the directory that holds it. -/
theorem exists_names_of_slot? {s : Spot} (h : t.slot? dir names = some s) :
    ∃ before, names = before ++ [s.name] ∧ s.wantsDirectory = false ∧
      ¬ Route.isHere s.name = true ∧ s.name ≠ Route.up ∧ Route.nameFits s.name = true ∧
      t.leg .find dir (before ++ [[]]) = .landed (.at s.parent .directory) := by
  fun_induction slot? t dir names with
  | case1 => nomatch h
  | case2 dir name rest hhere ih =>
    obtain ⟨before, rfl, hwants, hname, hup, hfits, hleg⟩ := ih h
    refine ⟨name :: before, rfl, hwants, hname, hup, hfits, ?_⟩
    rw [List.cons_append, leg_here hhere]
    exact hleg
  | case3 dir rest _ ih =>
    obtain ⟨before, rfl, hwants, hname, hup, hfits, hleg⟩ := ih h
    refine ⟨Route.up :: before, rfl, hwants, hname, hup, hfits, ?_⟩
    rw [List.cons_append, leg_up]
    exact hleg
  | case4 dir name hhere hup hfits =>
    obtain rfl := Option.some.inj h
    exact ⟨[], rfl, rfl, hhere, hup, hfits, rfl⟩
  | case5 dir name rest hhere hup hfits _ hdir ih =>
    obtain ⟨before, rfl, hwants, hname, hup', hfits', hleg⟩ := ih h
    refine ⟨name :: before, rfl, hwants, hname, hup', hfits', ?_⟩
    rw [List.cons_append, leg_enter hhere hup hfits hdir (by simp)]
    exact hleg
  | case6 => nomatch h
  | case7 => nomatch h

/-- A leg that comes to a directory by all names before the last gives the last one its slot. -/
theorem slot?_of_leg {last : Name} (hlast : ¬ Route.isHere last = true) (hup : last ≠ Route.up)
    (hfits : Route.nameFits last = true) {parent : Place} {e : Entry} :
    ∀ {before : List Name} {dir : Place},
      t.leg .find dir (before ++ [[]]) = .landed (.at parent e) →
        t.slot? dir (before ++ [last]) = some ⟨parent, last, false⟩ := by
  intro before
  induction before with
  | nil =>
    intro dir h
    obtain ⟨rfl, -⟩ := Landing.at.inj (Leg.landed.inj h)
    rw [List.nil_append, slot?, if_neg hlast, if_neg hup, if_pos hfits, if_pos rfl]
  | cons name before ih =>
    intro dir h
    rw [List.cons_append, slot?]
    rcases leg_cons_eq_landed h with
      ⟨hhere, h⟩ | ⟨rfl, h⟩ | ⟨hhere, hup', hfits', -, ⟨hdir, h⟩ | ⟨hrest, -⟩⟩
    · rw [if_pos hhere]
      exact ih h
    · rw [if_neg (by decide), if_pos rfl]
      exact ih h
    · rw [if_neg hhere, if_neg hup', if_pos hfits', if_neg (by simp), if_pos hdir]
      exact ih h
    · exact absurd hrest (by simp)

/-- The spot of a route is its slot, if it has one. -/
theorem spot_of_slot? (hfree : t.LinkFree) {r : Route} {s : Spot}
    (h : t.slot? (t.startOf r) r.names = some s) : t.spot r = .ok s := by
  obtain ⟨before, hnames, hwants, hhere, -, -, hleg⟩ := exists_names_of_slot? h
  have hempty : (s.name == []) = false := (Bool.or_eq_false_iff.1 (Bool.eq_false_iff.2 hhere)).1
  have hwalk : t.walk .find linkBudget _ _ = .ok _ := (walk_eq_ok_iff hfree).2 hleg
  unfold spot
  simp only [hnames, List.getLast?_concat, Option.some_beq_some, hempty, List.dropLast_concat,
    hwalk, Bool.false_eq_true, if_false]
  rw [← hwants]

/-- The spot of a route is a slot, if its name is one that a directory may hold and the route does not
    ask for a directory. -/
theorem slot?_of_spot (hfree : t.LinkFree) {r : Route} {s : Spot} (h : t.spot r = .ok s)
    (hrelative : s.isRelative = false) (hwants : s.wantsDirectory = false)
    (hfits : Route.nameFits s.name = true) : t.slot? (t.startOf r) r.names = some s := by
  unfold spot at h
  dsimp only at h
  split at h
  · -- the root is the name `.` in itself
    split at h
    · obtain rfl := Except.ok.inj h
      nomatch hrelative
    · nomatch h
  next last hlast =>
  split at h
  · next parent e hwalk =>
    obtain rfl := Except.ok.inj h
    have hslash : (r.names.getLast? == some []) = false := hwants
    simp only [hslash, Bool.false_eq_true, if_false] at hlast hwalk
    obtain ⟨before, hnames⟩ := List.getLast?_eq_some_iff.1 hlast
    rw [hnames, List.dropLast_concat] at hwalk
    have hempty : last ≠ [] := by
      rintro rfl
      simp [hlast] at hslash
    obtain ⟨hdot, hup⟩ := Bool.or_eq_false_iff.1 hrelative
    have hhere : ¬ Route.isHere last = true := by
      rw [Route.isHere, Bool.or_eq_true, not_or]
      exact ⟨by simpa using hempty, Bool.eq_false_iff.1 hdot⟩
    rw [hslash, hnames]
    exact slot?_of_leg hhere (beq_eq_false_iff_ne.1 hup) hfits ((walk_eq_ok_iff hfree).1 hwalk)
  · nomatch h
  · nomatch h

/-! ## Removing files -/

/-- **Removing by a path** takes away the file that the path leads to, and succeeds exactly when there
    is one. -/
theorem unlink_eq_ok_iff (hfree : t.LinkFree) {t' : FileTree} :
    t.unlink path = .ok t' ↔ ∃ p contents, t.target? path = some p ∧
      t.get? p = some (.file contents) ∧ t' = t.removeLeaves fun q _ => q == p := by
  constructor
  · intro h
    unfold unlink at h
    obtain ⟨r, hr, h⟩ := bind_eq_ok_iff.1 h
    obtain ⟨s, hs, h⟩ := bind_eq_ok_iff.1 h
    split at h
    · nomatch h
    next hrelative =>
    obtain ⟨found, hfound, h⟩ := bind_eq_ok_iff.1 h
    have hfits : Route.nameFits s.name = true := by
      unfold look at hfound
      split at hfound
      · assumption
      · nomatch hfound
    rw [look, if_pos hfits] at hfound
    obtain rfl := Except.ok.inj hfound
    split at h
    · nomatch h
    · nomatch h
    next e hdir he =>
    split at h
    · nomatch h
    next hwants =>
    obtain rfl := Except.ok.inj h
    -- something that is no directory stands at the spot, whose name fits since it was looked up
    have hslot : t.slotOf? path = some s := slotOf?_eq_some_iff.2 ⟨r, hr, slot?_of_spot hfree hs
      (Bool.eq_false_iff.2 hrelative) (Bool.eq_false_iff.2 hwants) hfits⟩
    have hplace : t.get? s.place ≠ some .directory := by
      rw [Spot.place, he]
      exact fun h => hdir (Option.some.inj h)
    have htarget : t.target? path = some s.place :=
      (target?_eq_some_iff hfree).2 ⟨s, hslot, rfl, hplace⟩
    rcases get?_target? hfree htarget with hnone | ⟨contents, hfile⟩
    · nomatch hnone.symm.trans he
    · exact ⟨s.place, contents, htarget, hfile, rfl⟩
  · rintro ⟨p, contents, hp, hfile, rfl⟩
    obtain ⟨s, hslot, rfl, -⟩ := (target?_eq_some_iff hfree).1 hp
    obtain ⟨r, hr, hslot⟩ := slotOf?_eq_some_iff.1 hslot
    -- none of the checks before the removal refuses a slot
    obtain ⟨-, -, hwants, hhere, hup, hfits, -⟩ := exists_names_of_slot? hslot
    have hrelative : s.isRelative = false := by
      rw [Spot.isRelative, Bool.or_eq_false_iff]
      exact ⟨(Bool.or_eq_false_iff.1 (Bool.eq_false_iff.2 hhere)).2, beq_eq_false_iff_ne.2 hup⟩
    have hlook : t.look s.parent s.name = .ok (some (.file contents)) := by
      rw [look, if_pos hfits]
      exact congrArg _ hfile
    simp only [unlink, hr, spot_of_slot? hfree hslot, hrelative, hlook, hwants, bind, Except.bind,
      Bool.false_eq_true, if_false]

end FileTree
end FaultPlan
