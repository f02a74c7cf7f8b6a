/-
  Walks in trees of any kind.

  With links in the tree a walk is a row of legs, and each link that is met puts its own names in
  front of those still to be walked.  Four things are said of every such walk.  It lands at what the
  tree holds, and never at a link (`walk_sound`).  One that leads through a directory by its first
  names goes on from there (`walk_append`).  One that may create lands nowhere else than one that
  may not (`walk_find_of_create`).  And where it lands is settled by the directories and links of
  the tree: a tree that has all of them leads a path to the same place (`Embeds.walk`).

  Each is shown of a leg by induction on its names, and of a walk by induction on the number of
  links that it may still follow.
-/
import FaultPlan.Proofs.Files.Frames

namespace FaultPlan

/-- The landing is at what the tree holds: at a file or directory, or in a directory that does not
    hold the name. -/
def Landing.Sound (t : FileTree) : Landing → Prop
  | .at place entry => t.get? place = some entry ∧ ∀ target, entry ≠ .link target
  | .vacant parent name => t.get? parent = some .directory ∧ t.get? (parent ++ [name]) = none

/-- The place of a landing, and whether it is a directory. -/
def Landing.outline : Landing → Place × Bool
  | .at place entry => (place, entry == .directory)
  | .vacant parent name => (parent ++ [name], false)

theorem Landing.outline_eq_true_iff {l : Landing} {p : Place} :
    l.outline = (p, true) ↔ l = .at p .directory := by
  cases l with
  | «at» place entry => simp [outline]
  | vacant parent name => simp [outline]

namespace FileTree

/-- Nothing stands at the place, or a file does: a path that comes there ends there. -/
def IsPlain (t : FileTree) (p : Place) : Prop :=
  t.get? p = none ∨ ∃ contents, t.get? p = some (.file contents)

variable {t t' u : FileTree} {S : Place → Prop} {intent : Intent} {budget : Nat} {dir : Place}
  {names before after : List Name}

theorem IsPlain.ne_directory {p : Place} (h : t.IsPlain p) : t.get? p ≠ some .directory := by
  rcases h with hnone | ⟨contents, hfile⟩
  · rw [hnone]
    nofun
  · rw [hfile]
    nofun

theorem outline_landingAt {s : Spot} (h : t.get? s.place ≠ some .directory) :
    (t.landingAt s).outline = (s.place, false) := by
  unfold landingAt
  split
  · rfl
  · next e he =>
    have hne : (e == .directory) = false := beq_eq_false_iff_ne.2 fun hdir => h (hdir ▸ he)
    rw [Landing.outline, hne]

/-! ## Steps -/

theorem look_eq_ok_iff {name : Name} {found : Option Entry} :
    t.look dir name = .ok found ↔ Route.nameFits name = true ∧ t.get? (dir ++ [name]) = found := by
  unfold look
  split
  · next h => simp [h]
  · next h => simp [h]

section

variable {name : Name} {rest : List Name}

/-- A step to a name that is looked up. -/
theorem leg_look (hhere : ¬ Route.isHere name = true) (hup : name ≠ Route.up)
    (hgo : ¬ (intent = .create ∧ rest = [[]])) :
    t.leg intent dir (name :: rest) = match t.look dir name with
      | .error fault => .refused fault
      | .ok none => if rest = [] then .landed (.vacant dir name) else .refused .notFound
      | .ok (some .directory) => t.leg intent (dir ++ [name]) rest
      | .ok (some (.file contents)) =>
        if rest = [] then .landed (.at (dir ++ [name]) (.file contents)) else .refused .notDirectory
      | .ok (some (.link target)) => .detour dir target rest := by
  rcases hlook : t.look dir name with fault | _ | contents | - | target <;>
    rw [leg, if_neg hhere, if_neg hup, if_neg hgo, hlook]

/-- What may be created is refused under a name with a slash behind it. -/
theorem leg_refuses_slash (hhere : ¬ Route.isHere name = true) (hup : name ≠ Route.up)
    (hgo : intent = .create ∧ rest = [[]]) :
    t.leg intent dir (name :: rest) = .refused .isDirectory := by
  rw [leg, if_neg hhere, if_neg hup, if_pos hgo]

/-- A leg ends with a last name under which nothing leads on. -/
theorem leg_last (hhere : ¬ Route.isHere name = true) (hup : name ≠ Route.up)
    (hfits : Route.nameFits name = true) (hplain : t.IsPlain (dir ++ [name])) :
    t.leg intent dir [name] = .landed (t.landingAt ⟨dir, name, false⟩) := by
  rw [leg_look hhere hup (by simp), look, if_pos hfits, landingAt, Spot.place]
  rcases hplain with hnone | ⟨contents, hfile⟩
  · rw [hnone]
    rfl
  · rw [hfile]
    rfl

theorem leg_link {target : Path} (hhere : ¬ Route.isHere name = true) (hup : name ≠ Route.up)
    (hfits : Route.nameFits name = true) (hlink : t.get? (dir ++ [name]) = some (.link target))
    (hgo : ¬ (intent = .create ∧ rest = [[]])) :
    t.leg intent dir (name :: rest) = .detour dir target rest := by
  rw [leg_look hhere hup hgo, look, if_pos hfits, hlink]

end

theorem walk_of_landed {l : Landing} (h : t.leg intent dir names = .landed l) :
    t.walk intent budget dir names = .ok l := by
  unfold walk
  rw [h]

theorem walk_of_refused {fault : IoFault} (h : t.leg intent dir names = .refused fault) :
    t.walk intent budget dir names = .error fault := by
  unfold walk
  rw [h]

theorem walk_zero_of_detour {base : Place} {target : Path} {rest : List Name}
    (h : t.leg intent dir names = .detour base target rest) :
    t.walk intent 0 dir names = .error .linkLoop := by
  unfold walk
  rw [h]

/-- A link is followed from the root or from the directory that holds it. -/
theorem walk_succ_of_detour {base : Place} {target : Path} {rest : List Name}
    (h : t.leg intent dir names = .detour base target rest) :
    t.walk intent (budget + 1) dir names =
      t.walk intent budget (if (Route.ofPath target).absolute then [] else base)
        ((Route.ofPath target).names ++ rest) := by
  rw [walk, h]

/-- A walk is settled by its first leg. -/
theorem walk_of_leg_eq {start : Place} {more : List Name}
    (h : t.leg intent dir names = t.leg intent start more) :
    t.walk intent budget dir names = t.walk intent budget start more := by
  unfold walk
  rw [h]

/-! ## What a walk lands at -/

theorem leg_sound (hdir : t.get? dir = some .directory) :
    (∀ l, t.leg intent dir names = .landed l → l.Sound t) ∧
      ∀ base target rest, t.leg intent dir names = .detour base target rest →
        t.get? base = some .directory := by
  fun_induction leg t intent dir names with
  | case1 dir =>
    refine ⟨?_, nofun⟩
    rintro l ⟨⟩
    exact ⟨hdir, nofun⟩
  | case2 _ _ _ _ ih => exact ih hdir
  | case3 _ _ _ ih => exact ih (get?_dropLast hdir)
  | case4 | case5 | case7 | case10 => exact ⟨nofun, nofun⟩
  | case6 dir name _ _ hlook =>
    refine ⟨?_, nofun⟩
    rintro l ⟨⟩
    exact ⟨hdir, (look_eq_ok_iff.1 hlook).2⟩
  | case8 dir name rest _ _ _ hlook ih => exact ih (look_eq_ok_iff.1 hlook).2
  | case9 dir name _ _ contents hlook =>
    refine ⟨?_, nofun⟩
    rintro l ⟨⟩
    exact ⟨(look_eq_ok_iff.1 hlook).2, nofun⟩
  | case11 dir name rest _ _ _ target hlook =>
    refine ⟨nofun, ?_⟩
    rintro base target' rest' ⟨⟩
    exact hdir

theorem get?_ite_root {absolute : Bool} (hdir : t.get? dir = some .directory) :
    t.get? (if absolute then [] else dir) = some .directory := by
  split
  · rfl
  · exact hdir

/-- **A walk lands at what the tree holds.** -/
theorem walk_sound {l : Landing} (hdir : t.get? dir = some .directory)
    (h : t.walk intent budget dir names = .ok l) : l.Sound t := by
  fun_induction walk t intent budget dir names with
  | case1 budget dir names l' hleg =>
    obtain rfl := Except.ok.inj h
    exact (leg_sound hdir).1 _ hleg
  | case2 | case3 => nomatch h
  | case4 dir names base target rest hleg budget r ih =>
    exact ih (get?_ite_root ((leg_sound hdir).2 _ _ _ hleg)) h

/-! ## Walks through directories -/

/-- A leg that leads through a directory, or meets a link, by its first names goes on with the
    others; if it is refused by the first ones, it is refused. -/
theorem leg_append (hafter : after ≠ []) (hslash : after ≠ [[]]) :
    (∃ p, t.leg .find dir (before ++ [[]]) = .landed (.at p .directory) ∧
      t.leg intent dir (before ++ after) = t.leg intent p after) ∨
    (∃ base target rest, t.leg .find dir (before ++ [[]]) = .detour base target (rest ++ [[]]) ∧
      t.leg intent dir (before ++ after) = .detour base target (rest ++ after)) ∨
    ∃ fault, t.leg .find dir (before ++ [[]]) = .refused fault ∧
      t.leg intent dir (before ++ after) = .refused fault := by
  induction before generalizing dir with
  | nil => exact Or.inl ⟨dir, rfl, rfl⟩
  | cons name before ih =>
    have hmore : ∀ {last : List Name}, last ≠ [] → before ++ last ≠ [] := by simp_all
    have hgo : ¬ (intent = .create ∧ before ++ after = [[]]) := by
      rintro ⟨-, h⟩
      rcases List.append_eq_cons_iff.1 h with ⟨-, h⟩ | ⟨rest, -, h⟩
      · exact hslash h
      · exact hafter (List.append_eq_nil_iff.1 h.symm).2
    simp only [List.cons_append]
    by_cases hhere : Route.isHere name = true
    · rw [leg_here hhere, leg_here hhere]
      exact ih
    by_cases hup : name = Route.up
    · rw [hup, leg_up, leg_up]
      exact ih
    rw [leg_look hhere hup (by simp), leg_look hhere hup hgo]
    rcases t.look dir name with fault | _ | contents | - | target
    · exact Or.inr (Or.inr ⟨fault, rfl, rfl⟩)
    · exact Or.inr (Or.inr ⟨.notFound, if_neg (hmore (by simp)), if_neg (hmore hafter)⟩)
    · exact Or.inr (Or.inr ⟨.notDirectory, if_neg (hmore (by simp)), if_neg (hmore hafter)⟩)
    · exact ih
    · exact Or.inr (Or.inl ⟨dir, target, before, rfl, rfl⟩)

/-- **A walk through a directory.**  The first names of a walk lead to a directory, from which it
    goes on with the others, or it is refused as they are. -/
theorem walk_append (hafter : after ≠ []) (hslash : after ≠ [[]]) :
    (∃ p left, t.walk .find budget dir (before ++ [[]]) = .ok (.at p .directory) ∧
      t.walk intent budget dir (before ++ after) = t.walk intent left p after) ∨
    ∃ fault, t.walk .find budget dir (before ++ [[]]) = .error fault ∧
      t.walk intent budget dir (before ++ after) = .error fault := by
  induction budget generalizing dir before with
  | zero =>
    rcases leg_append hafter hslash with
      ⟨p, hfirst, hall⟩ | ⟨base, target, rest, hfirst, hall⟩ | ⟨fault, hfirst, hall⟩
    · exact Or.inl ⟨p, 0, walk_of_landed hfirst, walk_of_leg_eq hall⟩
    · exact Or.inr ⟨_, walk_zero_of_detour hfirst, walk_zero_of_detour hall⟩
    · exact Or.inr ⟨fault, walk_of_refused hfirst, walk_of_refused hall⟩
  | succ budget ih =>
    rcases leg_append hafter hslash with
      ⟨p, hfirst, hall⟩ | ⟨base, target, rest, hfirst, hall⟩ | ⟨fault, hfirst, hall⟩
    · exact Or.inl ⟨p, budget + 1, walk_of_landed hfirst, walk_of_leg_eq hall⟩
    · rw [walk_succ_of_detour hfirst, walk_succ_of_detour hall, ← List.append_assoc,
        ← List.append_assoc]
      exact ih
    · exact Or.inr ⟨fault, walk_of_refused hfirst, walk_of_refused hall⟩

/-- A leg to a directory, or to a link, is the same with a slash at its end; others are refused
    with it. -/
theorem leg_slash (t : FileTree) (dir : Place) (names : List Name) :
    (∃ p, t.leg .find dir (names ++ [[]]) = .landed (.at p .directory) ∧
      t.leg .find dir names = .landed (.at p .directory)) ∨
    (∃ base target rest, t.leg .find dir (names ++ [[]]) = .detour base target (rest ++ [[]]) ∧
      t.leg .find dir names = .detour base target rest) ∨
    (∃ fault, t.leg .find dir (names ++ [[]]) = .refused fault) ∧
      ((∃ fault, t.leg .find dir names = .refused fault) ∨
        ∃ l, t.leg .find dir names = .landed l ∧ l.outline.2 = false) := by
  induction names generalizing dir with
  | nil => exact Or.inl ⟨dir, rfl, rfl⟩
  | cons name rest ih =>
    rw [List.cons_append]
    by_cases hhere : Route.isHere name = true
    · rw [leg_here hhere, leg_here hhere]
      exact ih dir
    by_cases hup : name = Route.up
    · rw [hup, leg_up, leg_up]
      exact ih _
    rw [leg_look hhere hup (by simp), leg_look hhere hup (by simp)]
    -- what is no directory ends a leg well only if nothing is left to walk
    rcases t.look dir name with fault | _ | contents | - | target
    · exact Or.inr (Or.inr ⟨⟨fault, rfl⟩, Or.inl ⟨fault, rfl⟩⟩)
    · refine Or.inr (Or.inr ⟨⟨.notFound, if_neg (by simp)⟩, ?_⟩)
      by_cases hrest : rest = []
      · exact Or.inr ⟨_, if_pos hrest, rfl⟩
      · exact Or.inl ⟨_, if_neg hrest⟩
    · refine Or.inr (Or.inr ⟨⟨.notDirectory, if_neg (by simp)⟩, ?_⟩)
      by_cases hrest : rest = []
      · exact Or.inr ⟨_, if_pos hrest, rfl⟩
      · exact Or.inl ⟨_, if_neg hrest⟩
    · exact ih _
    · exact Or.inr (Or.inl ⟨dir, target, rest, rfl, rfl⟩)

/-- A walk to a directory may leave out a slash at its end. -/
theorem walk_of_slash {l : Landing} (h : t.walk .find budget dir (names ++ [[]]) = .ok l) :
    ∃ p, l = .at p .directory ∧ t.walk .find budget dir names = .ok (.at p .directory) := by
  induction budget generalizing dir names with
  | zero =>
    rcases leg_slash t dir names with
      ⟨p, hslash, hall⟩ | ⟨base, target, rest, hslash, -⟩ | ⟨⟨fault, hslash⟩, -⟩
    · rw [walk_of_landed hslash] at h
      exact ⟨p, (Except.ok.inj h).symm, walk_of_landed hall⟩
    · nomatch (walk_zero_of_detour hslash).symm.trans h
    · nomatch (walk_of_refused hslash).symm.trans h
  | succ budget ih =>
    rcases leg_slash t dir names with
      ⟨p, hslash, hall⟩ | ⟨base, target, rest, hslash, hall⟩ | ⟨⟨fault, hslash⟩, -⟩
    · rw [walk_of_landed hslash] at h
      exact ⟨p, (Except.ok.inj h).symm, walk_of_landed hall⟩
    · rw [walk_succ_of_detour hslash, ← List.append_assoc] at h
      rw [walk_succ_of_detour hall]
      exact ih h
    · nomatch (walk_of_refused hslash).symm.trans h

/-- A walk to a directory may have a slash at its end. -/
theorem walk_add_slash {p : Place} (h : t.walk .find budget dir names = .ok (.at p .directory)) :
    t.walk .find budget dir (names ++ [[]]) = .ok (.at p .directory) := by
  have hends {l : Landing} (hl : l.outline.2 = false)
      (hat : (.ok l : Except IoFault Landing) = .ok (.at p .directory)) : False := by
    obtain rfl := Except.ok.inj hat
    nomatch hl
  induction budget generalizing dir names with
  | zero =>
    rcases leg_slash t dir names with
      ⟨p', hslash, hall⟩ | ⟨base, target, rest, -, hall⟩ | ⟨-, ⟨fault, hall⟩ | ⟨l, hall, hl⟩⟩
    · rw [walk_of_landed hslash, ← walk_of_landed hall, h]
    · nomatch (walk_zero_of_detour hall).symm.trans h
    · nomatch (walk_of_refused hall).symm.trans h
    · exact (hends hl ((walk_of_landed hall).symm.trans h)).elim
  | succ budget ih =>
    rcases leg_slash t dir names with
      ⟨p', hslash, hall⟩ | ⟨base, target, rest, hslash, hall⟩ | ⟨-, ⟨fault, hall⟩ | ⟨l, hall, hl⟩⟩
    · rw [walk_of_landed hslash, ← walk_of_landed hall, h]
    · rw [walk_succ_of_detour hall] at h
      rw [walk_succ_of_detour hslash, ← List.append_assoc]
      exact ih h
    · nomatch (walk_of_refused hall).symm.trans h
    · exact (hends hl ((walk_of_landed hall).symm.trans h)).elim

/-- A walk goes on from the directory that its first names lead to. -/
theorem walk_onward {p : Place} (hafter : after ≠ []) (hslash : after ≠ [[]])
    (hdir : t.walk .find budget dir (before ++ [[]]) = .ok (.at p .directory)) :
    ∃ left, t.walk intent budget dir (before ++ after) = t.walk intent left p after := by
  rcases walk_append (t := t) hafter hslash with ⟨p', left, hfirst, hrest⟩ | ⟨fault, hrefused, -⟩
  · obtain ⟨rfl, -⟩ := Landing.at.inj (Except.ok.inj (hdir.symm.trans hfirst))
    exact ⟨left, hrest⟩
  · nomatch hdir.symm.trans hrefused

/-! ## Walks that may create -/

/-- A leg that may create comes nowhere else than one that may not, unless it is refused. -/
theorem leg_find_of_create (t : FileTree) (dir : Place) (names : List Name) :
    t.leg .find dir names = t.leg .create dir names ∨
      ∃ fault, t.leg .create dir names = .refused fault := by
  induction names generalizing dir with
  | nil => exact Or.inl rfl
  | cons name rest ih =>
    by_cases hhere : Route.isHere name = true
    · rw [leg_here hhere, leg_here hhere]
      exact ih _
    by_cases hup : name = Route.up
    · rw [hup, leg_up, leg_up]
      exact ih _
    by_cases hgo : rest = [[]]
    · right
      exact ⟨_, leg_refuses_slash hhere hup ⟨rfl, hgo⟩⟩
    rw [leg_look hhere hup (by simp), leg_look hhere hup (by simp [hgo])]
    rcases t.look dir name with fault | _ | contents | - | target
    · exact Or.inl rfl
    · exact Or.inl rfl
    · exact Or.inl rfl
    · exact ih _
    · exact Or.inl rfl

theorem walk_find_of_create {l : Landing} (h : t.walk .create budget dir names = .ok l) :
    t.walk .find budget dir names = .ok l := by
  fun_induction walk t .create budget dir names with
  | case1 budget dir names l' hleg =>
    obtain rfl := Except.ok.inj h
    rcases leg_find_of_create t dir names with heq | ⟨fault, hrefused⟩
    · exact walk_of_landed (heq.trans hleg)
    · nomatch hrefused.symm.trans hleg
  | case2 | case3 => nomatch h
  | case4 dir names base target rest hleg budget r ih =>
    rcases leg_find_of_create t dir names with heq | ⟨fault, hrefused⟩
    · rw [walk_succ_of_detour (heq.trans hleg)]
      exact ih h
    · nomatch hrefused.symm.trans hleg

/-! ## Walks in trees alike -/

/-- The trees have one current directory, and the directories and links of the first are also in the
    second, which may hold more of them. -/
structure Embeds (t u : FileTree) : Prop where
  cwd : u.cwd = t.cwd
  directory : ∀ p, t.get? p = some .directory → u.get? p = some .directory
  link : ∀ p target, t.get? p = some (.link target) → u.get? p = some (.link target)

namespace Embeds

/-- A leg leads to the same place in the other tree if no link or directory stands in its way. -/
theorem leg_landed (h : t.Embeds u) {l : Landing} (hl : t.leg intent dir names = .landed l)
    (hend : l.outline.2 = true ∨ u.IsPlain l.outline.1) :
    ∃ l', u.leg intent dir names = .landed l' ∧ l'.outline = l.outline := by
  induction names generalizing dir with
  | nil => exact ⟨_, rfl, congrArg _ (Leg.landed.inj hl)⟩
  | cons name rest ih =>
    rcases leg_cons_eq_landed hl with
      ⟨hhere, hl⟩ | ⟨rfl, hl⟩ | ⟨hhere, hup, hfits, hgo, ⟨hdir, hl⟩ | ⟨rfl, hdir, rfl⟩⟩
    · rw [leg_here hhere]
      exact ih hl
    · rw [leg_up]
      exact ih hl
    · rw [leg_enter hhere hup hfits (h.directory _ hdir) hgo]
      exact ih hl
    · -- the last name leads to no directory
      have hhas : (t.landingAt ⟨dir, name, false⟩).outline = _ := outline_landingAt hdir
      rw [hhas] at hend ⊢
      have hplain := hend.resolve_left Bool.false_ne_true
      exact ⟨_, leg_last hhere hup hfits hplain, outline_landingAt hplain.ne_directory⟩

/-- A leg that meets a link meets it in the other tree. -/
theorem leg_detour (h : t.Embeds u) {base : Place} {target : Path} {rest : List Name}
    (hl : t.leg intent dir names = .detour base target rest) :
    u.leg intent dir names = .detour base target rest := by
  fun_induction leg t intent dir names with
  | case1 | case4 | case5 | case6 | case7 | case9 | case10 => nomatch hl
  | case2 dir name names hhere ih =>
    rw [leg_here hhere]
    exact ih hl
  | case3 dir names _ ih =>
    rw [leg_up]
    exact ih hl
  | case8 dir name names hhere hup hgo hlook ih =>
    obtain ⟨hfits, hdir⟩ := look_eq_ok_iff.1 hlook
    rw [leg_enter hhere hup hfits (h.directory _ hdir) hgo]
    exact ih hl
  | case11 dir name names hhere hup hgo target' hlook =>
    obtain ⟨hfits, hlink⟩ := look_eq_ok_iff.1 hlook
    rw [leg_link hhere hup hfits (h.link _ _ hlink) hgo]
    exact hl

/-- **A walk leads to the same place** in a tree that holds the directories and links of its own, if
    it leads to a directory or no other entry that leads on stands at its end. -/
theorem walk (h : t.Embeds u) {l : Landing} (hl : t.walk intent budget dir names = .ok l)
    (hend : l.outline.2 = true ∨ u.IsPlain l.outline.1) :
    ∃ l', u.walk intent budget dir names = .ok l' ∧ l'.outline = l.outline := by
  fun_induction FileTree.walk t intent budget dir names with
  | case1 budget dir names l' hleg =>
    obtain rfl := Except.ok.inj hl
    obtain ⟨l'', hleg', hl'⟩ := h.leg_landed hleg hend
    exact ⟨l'', walk_of_landed hleg', hl'⟩
  | case2 | case3 => nomatch hl
  | case4 dir names base target rest hleg budget r ih =>
    rw [walk_succ_of_detour (h.leg_detour hleg)]
    exact ih hl

end Embeds

end FileTree
end FaultPlan
