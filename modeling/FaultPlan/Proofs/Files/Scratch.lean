/-
  Scratch directories are new and empty, and leave no trace.

  Where a scratch directory is made there was nothing, so there is nothing below it either
  (`Scratch.Made.empty`), and its path leads to it (`Scratch.Made.directoryAt`).  Blob paths in it
  are not led anywhere else: they have targets and ends directly in the directory
  (`Scratch.Made.target?`, `Scratch.Made.endOf?`).  When the directory is taken away again, with all
  that was changed below it, the tree holds what it held before (`Scratch.Made.get?_prune`).
-/
import FaultPlan.Files.Scratch
import FaultPlan.Proofs.Files.Joining
import FaultPlan.Proofs.Section.Clearing
import Mathlib.Data.List.Induction

namespace FaultPlan

namespace FileTree

variable {t : FileTree} {p q : Place}

/-- Above everything that a tree holds stand directories. -/
theorem get?_above {e : Entry} (h : t.get? p = some e) (hq : q <+: p) (hne : q ≠ p) :
    t.get? q = some .directory := by
  obtain ⟨rest, rfl⟩ := hq
  induction rest using List.reverseRecOn generalizing e with
  | nil => exact absurd (List.append_nil q).symm hne
  | append_singleton rest name ih =>
    have hdir := get?_parent h (by simp)
    rw [← List.append_assoc, List.dropLast_concat] at hdir
    by_cases hrest : rest = []
    · rwa [hrest, List.append_nil] at hdir
    · exact ih hdir (by simpa using hrest)

/-- Nothing lies below a place that holds nothing. -/
theorem get?_below (h : t.get? q = none) (hq : q <+: p) : t.get? p = none := by
  cases he : t.get? p with
  | none => rfl
  | some e =>
    rcases eq_or_ne q p with rfl | hne
    · nomatch h.symm.trans he
    · nomatch h.symm.trans (get?_above he hq hne)

/-- Taking a place away that does not hold the current directory. -/
theorem get?_prune (t : FileTree) (hp : ¬ p <+: t.cwd) (hroot : p ≠ []) (q : Place) :
    (t.prune p).get? q = if p <+: q then none else t.get? q := by
  have hentries : (t.prune p).entries = t.entries.filter fun x => !p.isPrefixOf x.1 := by
    rw [prune, dif_neg (by rwa [List.isPrefixOf_iff_prefix])]
  by_cases hq : q = []
  · subst hq
    rw [if_neg (by simpa [List.prefix_nil] using hroot)]
    rfl
  refine Option.ext fun e => ?_
  rw [get?_eq_some_iff _ hq, hentries, List.mem_filter]
  split
  · next hprefix => simp [List.isPrefixOf_iff_prefix.2 hprefix]
  · next hprefix =>
    have hkept : p.isPrefixOf q = false := by
      rw [← Bool.not_eq_true, List.isPrefixOf_iff_prefix]
      exact hprefix
    rw [t.get?_eq_some_iff hq, hkept]
    exact and_iff_left rfl

/-- The name at a spot is the last one of the path, if it leads nowhere by itself. -/
theorem exists_steps_of_spot {path : Path} {s : Spot} (h : t.spot (Route.ofPath path) = .ok s)
    (hrelative : s.isRelative = false) : ∃ before, Route.steps path = before ++ [s.name] := by
  rcases List.eq_nil_or_concat (Route.steps path) with hnil | ⟨before, last, hsteps⟩
  · have hnames : (Route.ofPath path).names = [] := by
      rw [Route.names_ofPath, hnil]
      simp
    unfold spot at h
    rw [hnames] at h
    dsimp only at h
    split at h
    · split at h
      · obtain rfl := Except.ok.inj h
        nomatch hrelative
      · nomatch h
    · next hlast => nomatch hlast
  · rw [List.concat_eq_append] at hsteps
    rw [(walk_of_spot hsteps h).1]
    exact ⟨before, hsteps⟩

/-- A walk goes on into a directory that the last name of a path leads to. -/
theorem walk_into {path : Path} {last : Name} {before : List Name} {budget : Nat} {dir parent : Place}
    (hsteps : Route.steps path = before ++ [last])
    (hwalk : t.walk .find budget dir (before ++ [[]]) = .ok (.at parent .directory))
    (hrelative : (last == Route.here || last == Route.up) = false) (hfits : Route.nameFits last = true)
    (hdir : t.get? (parent ++ [last]) = some .directory) :
    t.walk .find budget dir (Route.ofPath path).names = .ok (.at (parent ++ [last]) .directory) := by
  have hempty : last ≠ [] := Route.ne_nil_of_mem_steps (by rw [hsteps]; simp)
  obtain ⟨hdot, hup⟩ := Bool.or_eq_false_iff.1 hrelative
  have hhere : ¬ Route.isHere last = true := by
    rw [Route.isHere, Bool.or_eq_true, not_or]
    exact ⟨by simpa using hempty, Bool.eq_false_iff.1 hdot⟩
  have hinto : ∀ {after : List Name}, after = [] ∨ after = [[]] →
      t.walk .find budget dir (before ++ last :: after) = .ok (.at (parent ++ [last]) .directory) := by
    intro after hafter
    obtain ⟨left, hrest⟩ : ∃ left, t.walk .find budget dir (before ++ last :: after) =
        t.walk .find left parent (last :: after) := walk_onward (by simp) (by simp [hempty]) hwalk
    rw [hrest]
    refine walk_of_landed ?_
    rw [leg_enter hhere (beq_eq_false_iff_ne.1 hup) hfits hdir (by simp)]
    rcases hafter with rfl | rfl <;> rfl
  rw [Route.names_ofPath, hsteps]
  split
  · rw [List.append_assoc]
    exact hinto (Or.inr rfl)
  · exact hinto (Or.inl rfl)

/-- A directory is made where there is nothing yet. -/
theorem makeDirectory_eq_ok {r : Route} {made : FileTree} (h : t.makeDirectory r = .ok made) :
    ∃ s, t.spot r = .ok s ∧ s.isRelative = false ∧ Route.nameFits s.name = true ∧
      t.get? s.place = none ∧ made = t.put s.place .directory := by
  unfold makeDirectory at h
  obtain ⟨s, hs, h⟩ := bind_eq_ok_iff.1 h
  split at h
  · nomatch h
  next hrelative =>
  obtain ⟨found, hfound, h⟩ := bind_eq_ok_iff.1 h
  split at h
  · nomatch h
  obtain ⟨hfits, hvacant⟩ := look_eq_ok_iff.1 hfound
  exact ⟨s, hs, Bool.eq_false_iff.2 hrelative, hfits, hvacant, (Except.ok.inj h).symm⟩

theorem get?_put_directory (hroot : p ≠ []) (hparent : t.get? p.dropLast = some .directory)
    (hvacant : t.get? p = none) (q : Place) :
    (t.put p .directory).get? q = if q = p then some .directory else t.get? q :=
  t.get?_put hroot hparent (by rw [hvacant]; nofun) q

/-- A tree holds all its directories and links when one directory more is made. -/
theorem embeds_put (hroot : p ≠ []) (hparent : t.get? p.dropLast = some .directory)
    (hvacant : t.get? p = none) : t.Embeds (t.put p .directory) := by
  refine ⟨t.cwd_put _ _, fun q hq => ?_, fun q target hq => ?_⟩
  · rw [get?_put_directory hroot hparent hvacant]
    split
    · rfl
    · exact hq
  · rw [get?_put_directory hroot hparent hvacant, if_neg ?_]
    · exact hq
    · rintro rfl
      nomatch hvacant.symm.trans hq

end FileTree

namespace Scratch

variable {s : Scratch} {t begun : FileTree} {place p : Place} {sectionName : String}

/-- A scratch directory has been made at the place. -/
structure Made (s : Scratch) (t : FileTree) (place : Place) (begun : FileTree) : Prop where
  root : place ≠ []
  vacant : t.get? place = none
  cwd : begun.cwd = t.cwd
  get? : ∀ q, begun.get? q = if q = place then some .directory else t.get? q
  directoryAt : begun.directoryAt s.path = .ok place

theorem made_of_make (h : s.make t = .ok (place, begun)) : s.Made t place begun := by
  unfold make at h
  obtain ⟨r, hr, h⟩ := bind_eq_ok_iff.1 h
  obtain ⟨made, hmade, h⟩ := bind_eq_ok_iff.1 h
  obtain ⟨spot, hspot, h⟩ := bind_eq_ok_iff.1 h
  obtain ⟨rfl, rfl⟩ := Prod.mk.inj (Except.ok.inj h)
  obtain ⟨spot', hspot', hrelative, hfits, hvacant, rfl⟩ := FileTree.makeDirectory_eq_ok hmade
  obtain rfl := Except.ok.inj (hspot.symm.trans hspot')
  -- the names of the path before the last one lead to the directory that holds the new one
  obtain ⟨-, -, rfl⟩ := Route.parse_eq_ok_iff.1 hr
  obtain ⟨before, hsteps⟩ := FileTree.exists_steps_of_spot hspot hrelative
  obtain ⟨-, hparent⟩ := FileTree.walk_of_spot hsteps hspot
  have hdir : t.get? spot.parent = some .directory :=
    (FileTree.walk_sound (t.get?_startOf _) hparent).1
  have hroot : spot.place ≠ [] := by simp [FileTree.Spot.place]
  have hparent' : t.get? spot.place.dropLast = some .directory := by
    rwa [FileTree.Spot.place, List.dropLast_concat]
  have hget := FileTree.get?_put_directory hroot hparent' hvacant
  refine ⟨hroot, hvacant, t.cwd_put _ _, hget, ?_⟩
  rw [FileTree.directoryAt_eq_ok_iff, FileTree.followPath_eq_ok_iff_walk]
  refine ⟨_, hr, ?_, ?_⟩
  · rintro ⟨hnames, -⟩
    rw [Route.names_ofPath, hsteps] at hnames
    split at hnames <;> exact absurd hnames (by simp)
  · obtain ⟨l, hl, houtline⟩ :=
      (FileTree.embeds_put hroot hparent' hvacant).walk hparent (Or.inl rfl)
    obtain rfl := Landing.outline_eq_true_iff.1 houtline
    rw [FileTree.startOf_congr (t.cwd_put _ _)]
    refine FileTree.walk_into hsteps hl hrelative hfits ?_
    rw [hget]
    exact if_pos rfl

namespace Made

theorem home? (h : s.Made t place begun) : begun.home? s.path = some place := by
  have hpath : s.path ≠ [] := by
    intro hempty
    have hdir := h.directoryAt
    rw [hempty] at hdir
    nomatch hdir
  exact (FileTree.home?_of_directoryAt hpath).2 h.directoryAt

/-- The directory is empty. -/
theorem empty (h : s.Made t place begun) (hp : place <+: p) (hne : p ≠ place) :
    begun.get? p = none := by
  rw [h.get?, if_neg hne]
  exact FileTree.get?_below h.vacant hp

theorem not_leadsOn (h : s.Made t place begun) : ¬ begun.LeadsOn place sectionName := by
  have hnone := h.empty (List.prefix_append place [blobHead sectionName]) (by simp)
  rintro (⟨target, hlink⟩ | ⟨-, hdir⟩)
  · nomatch hnone.symm.trans hlink
  · nomatch hnone.symm.trans hdir

/-- The only target of a blob path in the directory is the blob itself. -/
theorem target? (h : s.Made t place begun)
    (hp : begun.target? (blobPath s.path sectionName) = some p) :
    p = place ++ [Path.ofText (blobStem ++ sectionName)] := by
  obtain ⟨place', hhome, ⟨hslash, rfl⟩ | hon⟩ := FileTree.target?_blobPath hp
  · obtain rfl := Option.some.inj (h.home?.symm.trans hhome)
    rw [blobHead_of_no_slash hslash]
  · obtain rfl := Option.some.inj (h.home?.symm.trans hhome)
    exact absurd hon h.not_leadsOn

theorem endOf? (h : s.Made t place begun)
    (hp : begun.endOf? (blobPath s.path sectionName) = some p) :
    p = place ++ [blobHead sectionName] := by
  obtain ⟨place', hhome, rfl | ⟨-, hon⟩⟩ := FileTree.endOf?_blobPath hp
  · obtain rfl := Option.some.inj (h.home?.symm.trans hhome)
    rfl
  · obtain rfl := Option.some.inj (h.home?.symm.trans hhome)
    exact absurd hon h.not_leadsOn

theorem not_holdsBlob (h : s.Made t place begun) : ¬ begun.HoldsBlob s.path p := by
  rintro ⟨place', name, contents, hdir, rfl, -, -, hfile⟩
  obtain rfl := Except.ok.inj (h.directoryAt.symm.trans hdir)
  nomatch (h.empty (List.prefix_append place [name]) (by simp)).symm.trans hfile

/-- There is nothing to clear, if the directory can be listed. -/
theorem clearBlobs (h : s.Made t place begun) (storage : Storage) :
    FaultPlan.clearBlobs storage s.path begun = (begun, match (storage.list begun place).fault? with
      | none => .ok ()
      | some fault => .error fault) := by
  obtain ⟨htree, hend⟩ := FileTree.clearBlobs_eq_self storage fun _ => h.not_holdsBlob
  exact Prod.ext htree (hend place h.directoryAt)

/-- **A scratch directory leaves no trace.**  When it is taken away after changes below it, the tree
    holds what it held before it was made. -/
theorem get?_prune {u : FileTree} (h : s.Made t place begun) (hcwd : u.cwd = begun.cwd)
    (hchanged : ∀ q, ¬ place <+: q → u.get? q = begun.get? q) :
    (u.prune place).cwd = t.cwd ∧ ∀ q, (u.prune place).get? q = t.get? q := by
  have hcurrent : ¬ place <+: u.cwd := by
    rw [hcwd, h.cwd]
    intro hbelow
    nomatch (FileTree.get?_below h.vacant hbelow).symm.trans
      (t.get?_eq_directory_iff.2 t.cwd_directory)
  refine ⟨?_, fun q => ?_⟩
  · rw [← h.cwd, ← hcwd, FileTree.prune]
    split <;> rfl
  · rw [u.get?_prune hcurrent h.root]
    split
    · next hbelow => exact (FileTree.get?_below h.vacant hbelow).symm
    · next hbelow =>
      rw [hchanged q hbelow, h.get?, if_neg ?_]
      rintro rfl
      exact hbelow (List.prefix_refl _)

/-- Sweeping a scratch directory out leaves no trace of it, unless it is refused on the way; outside of
    the directory it leaves no trace in any case. -/
theorem get?_sweep {u : FileTree} (h : s.Made t place begun) (storage : Storage)
    (hcwd : u.cwd = begun.cwd) (hchanged : ∀ q, ¬ place <+: q → u.get? q = begun.get? q) :
    (storage.sweep u place).cwd = t.cwd ∧
      (∀ q, ¬ place <+: q → (storage.sweep u place).get? q = t.get? q) ∧
      (storage.broken? u place = none → ∀ q, (storage.sweep u place).get? q = t.get? q) := by
  obtain ⟨hprune, hget⟩ := h.get?_prune hcwd hchanged
  cases hbroken : storage.broken? u place with
  | none =>
    rw [Storage.sweep, hbroken]
    exact ⟨hprune, fun q _ => hget q, fun _ => hget⟩
  | some left =>
    obtain ⟨hleft, hwithin⟩ := storage.broken?_within u place left hbroken
    rw [Storage.sweep, hbroken]
    refine ⟨hleft.trans (hcwd.trans h.cwd), fun q hq => ?_, nofun⟩
    rcases hwithin q with hkept | ⟨hbelow, -⟩
    · rw [Option.getD_some, hkept, hchanged q hq, h.get?, if_neg ?_]
      rintro rfl
      exact hq (List.prefix_refl _)
    · exact absurd hbelow hq

end Made
end Scratch
end FaultPlan
