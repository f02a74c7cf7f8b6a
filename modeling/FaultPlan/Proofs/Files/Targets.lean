/-
  Targets and ends of paths, in trees of any kind.

  A path has two places.  Its target is the file that it leads to, or the one that writing to the
  path would make: links are followed to the last (`target?`).  Its end is the entry under its last
  name: links are followed on the way there only (`endOf?`).  Writing sets the target
  (`write_eq_ok_iff_target`), reading gives what stands there (`read_of_target?`), and removing
  takes the end away (`unlink_eq_ok`).

  Links may be among what is removed, and what was reached through them cannot be reached any more.
  `Loses S` relates a tree to one that has lost links and differs from it at the places `S` only.
  The ends that paths have afterwards they had before (`Loses.endOf?`).
-/
import FaultPlan.Proofs.Files.Landings

namespace FaultPlan.FileTree

variable {t t' t'' u : FileTree} {S S' : Place → Prop} {intent : Intent} {path : Path} {p : Place}

/-! ## Paths -/

theorem followPath_eq_ok_iff_walk {l : Landing} :
    t.followPath intent path = .ok l ↔ ∃ r, Route.parse path = .ok r ∧
      ¬ (r.names = [] ∧ r.absolute = false) ∧
      t.walk intent linkBudget (t.startOf r) r.names = .ok l := by
  unfold followPath
  cases Route.parse path with
  | error fault => simp
  | ok r =>
    dsimp only
    rw [follow]
    split
    · next hnames => simp [hnames]
    next hnames =>
    constructor
    · exact fun h => ⟨r, rfl, hnames, h⟩
    · rintro ⟨r', hr, -, h⟩
      obtain rfl := Except.ok.inj hr
      exact h

theorem followPath_sound {l : Landing} (h : t.followPath intent path = .ok l) : l.Sound t := by
  obtain ⟨r, -, -, hwalk⟩ := followPath_eq_ok_iff_walk.1 h
  exact walk_sound (t.get?_startOf r) hwalk

/-- A path leads to the same place in a tree that holds the directories and links of its own. -/
theorem Embeds.followPath (h : t.Embeds u) {l : Landing} (hl : t.followPath intent path = .ok l)
    (hend : l.outline.2 = true ∨ u.IsPlain l.outline.1) :
    ∃ l', u.followPath intent path = .ok l' ∧ l'.outline = l.outline := by
  obtain ⟨r, hr, hnames, hwalk⟩ := followPath_eq_ok_iff_walk.1 hl
  have hstart : u.startOf r = t.startOf r := startOf_congr h.cwd r
  obtain ⟨l', hwalk', hl'⟩ := h.walk hwalk hend
  rw [← hstart] at hwalk'
  exact ⟨l', followPath_eq_ok_iff_walk.2 ⟨r, hr, hnames, hwalk'⟩, hl'⟩

theorem Embeds.directoryAt (h : t.Embeds u) (hp : t.directoryAt path = .ok p) :
    u.directoryAt path = .ok p := by
  obtain ⟨l, hl, houtline⟩ := h.followPath (directoryAt_eq_ok_iff.1 hp) (Or.inl rfl)
  obtain rfl := Landing.outline_eq_true_iff.1 houtline
  exact directoryAt_eq_ok_iff.2 hl

/-! ## Targets -/

theorem target?_eq_some_iff_landing :
    t.target? path = some p ↔ ∃ l, t.followPath .create path = .ok l ∧ l.outline = (p, false) := by
  unfold target?
  cases hl : t.followPath .create path with
  | error fault => simp
  | ok l =>
    rcases l with ⟨place, contents | - | target⟩ | ⟨parent, name⟩
    · simp [Landing.outline]
    · simp [Landing.outline]
    · exact absurd rfl ((followPath_sound hl).2 target)
    · simp [Landing.outline]

/-- Above what a tree holds stands a directory. -/
theorem get?_parent {e : Entry} (h : t.get? p = some e) (hp : p ≠ []) :
    t.get? p.dropLast = some .directory :=
  t.get?_eq_directory_iff.2 (t.rooted _ ((t.get?_eq_some_iff hp).1 h)).2

/-- A target is no root, lies in a directory and leads nowhere else. -/
theorem target?_spec (h : t.target? path = some p) :
    p ≠ [] ∧ t.get? p.dropLast = some .directory ∧ t.IsPlain p := by
  obtain ⟨l, hl, houtline⟩ := target?_eq_some_iff_landing.1 h
  have hsound := followPath_sound hl
  cases l with
  | vacant parent name =>
    obtain ⟨rfl, -⟩ := Prod.mk.inj houtline
    rw [List.dropLast_concat]
    exact ⟨by simp, hsound.1, Or.inl hsound.2⟩
  | «at» place entry =>
    obtain ⟨rfl, hentry⟩ := Prod.mk.inj houtline
    obtain ⟨hget, hlink⟩ := hsound
    cases entry with
    | directory => nomatch hentry
    | link target => exact absurd rfl (hlink target)
    | file contents =>
      have hroot : place ≠ [] := by
        rintro rfl
        nomatch hget
      exact ⟨hroot, get?_parent hget hroot, Or.inr ⟨contents, hget⟩⟩

theorem Embeds.target? (h : t.Embeds u) (hp : t.target? path = some p) (hplain : u.IsPlain p) :
    u.target? path = some p := by
  obtain ⟨l, hl, houtline⟩ := target?_eq_some_iff_landing.1 hp
  obtain ⟨l', hl', heq⟩ := h.followPath hl (Or.inr (by rwa [houtline]))
  exact target?_eq_some_iff_landing.2 ⟨l', hl', heq.trans houtline⟩

/-- Reading gives what stands at the target. -/
theorem read_of_target? {contents : Bytes} (h : t.target? path = some p)
    (hfile : t.get? p = some (.file contents)) : t.read path = .ok contents := by
  obtain ⟨l, hl, houtline⟩ := target?_eq_some_iff_landing.1 h
  have hsound := followPath_sound hl
  -- the walk that may create lands as the one that only looks
  obtain ⟨r, hr, hnames, hwalk⟩ := followPath_eq_ok_iff_walk.1 hl
  have hfind := followPath_eq_ok_iff_walk.2 ⟨r, hr, hnames, walk_find_of_create hwalk⟩
  cases l with
  | vacant parent name =>
    obtain ⟨rfl, -⟩ := Prod.mk.inj houtline
    nomatch hsound.2.symm.trans hfile
  | «at» place entry =>
    obtain ⟨rfl, -⟩ := Prod.mk.inj houtline
    obtain rfl := Option.some.inj (hsound.1.symm.trans hfile)
    rw [read, hfind]

theorem read_eq_ok_iff {contents : Bytes} : t.read path = .ok contents ↔
    ∃ p, t.followPath .find path = .ok (.at p (.file contents)) := by
  unfold read
  cases hl : t.followPath .find path with
  | error fault => simp
  | ok l =>
    rcases l with ⟨place, contents' | - | target⟩ | ⟨parent, name⟩
    · simp
    · simp
    · simp
    · simp

namespace SameBut

theorem embeds (h : t.SameBut S t') : t.Embeds t' :=
  ⟨h.cwd, fun p => (h.directory p).2, fun p target => (h.link p target).2⟩

theorem isPlain (h : t.SameBut S t') (hp : t.IsPlain p) : t'.IsPlain p := by
  cases he : t'.get? p with
  | none => exact Or.inl he
  | some e =>
    cases e with
    | file contents => exact Or.inr ⟨contents, he⟩
    | directory => exact absurd ((h.directory p).1 he) hp.ne_directory
    | link target =>
      have hlink := (h.link p target).1 he
      rcases hp with hnone | ⟨contents, hfile⟩
      · nomatch hnone.symm.trans hlink
      · nomatch hfile.symm.trans hlink

/-- The target of a path is the same in both trees, whatever links it leads through. -/
theorem target?_congr (h : t.SameBut S t') (path : Path) : t'.target? path = t.target? path := by
  refine Option.ext fun p => ⟨fun hp => ?_, fun hp => ?_⟩
  · exact h.symm.embeds.target? hp (h.symm.isPlain (target?_spec hp).2.2)
  · exact h.embeds.target? hp (h.isPlain (target?_spec hp).2.2)

/-- A path that leads to a file which has not changed leads to it in both trees. -/
theorem followPath_file (h : t.SameBut S t') {contents : Bytes} (hp : ¬ S p)
    (hl : t.followPath intent path = .ok (.at p (.file contents))) :
    t'.followPath intent path = .ok (.at p (.file contents)) := by
  have hfile : t'.get? p = some (.file contents) := (h.same p hp).trans (followPath_sound hl).1
  obtain ⟨l, hl', houtline⟩ := h.embeds.followPath hl (Or.inr (Or.inr ⟨contents, hfile⟩))
  have hsound := followPath_sound hl'
  cases l with
  | vacant parent name =>
    obtain ⟨rfl, -⟩ := Prod.mk.inj houtline
    nomatch hsound.2.symm.trans hfile
  | «at» place entry =>
    obtain ⟨rfl, -⟩ := Prod.mk.inj houtline
    obtain rfl := Option.some.inj (hsound.1.symm.trans hfile)
    exact hl'

/-- Setting a file where nothing leads on changes nothing else. -/
theorem of_set (hp : p ≠ []) (hparent : t.get? p.dropLast = some .directory) (hplain : t.IsPlain p)
    (contents : Bytes) : t.SameBut (· = p) (t.put p (.file contents)) := by
  have hget : ∀ q, (t.put p (.file contents)).get? q = _ :=
    t.get?_put hp hparent hplain.ne_directory
  constructor
  · exact t.cwd_put p _
  · intro q
    rw [hget]
    split
    · next hq => simp [hq, hplain.ne_directory]
    · exact Iff.rfl
  · intro q target
    rw [hget]
    split
    · next hq =>
      subst hq
      rcases hplain with hnone | ⟨_, hfile⟩
      · simp [hnone]
      · simp [hfile]
    · exact Iff.rfl
  · intro q hq
    rw [hget, if_neg hq]

end SameBut

/-! ## Writing -/

/-- **Writing to a path** sets the path's target, and succeeds exactly when it has one. -/
theorem write_eq_ok_iff_target {contents : Bytes} :
    t.write path contents = .ok t' ↔
      ∃ p, t.target? path = some p ∧ t' = t.put p (.file contents) := by
  unfold write target?
  cases hl : t.followPath .create path with
  | error fault => simp
  | ok l =>
    rcases l with ⟨place, contents | - | target⟩ | ⟨parent, name⟩
    · simp [eq_comm]
    · simp
    · exact absurd rfl ((followPath_sound hl).2 target)
    · simp [eq_comm]

/-- What writing to a path leaves: the contents at the target, and all else as it was. -/
theorem put_target? (h : t.target? path = some p) (contents : Bytes) :
    (t.put p (.file contents)).get? p = some (.file contents) ∧
      t.SameBut (· = p) (t.put p (.file contents)) := by
  obtain ⟨hp, hparent, hplain⟩ := target?_spec h
  refine ⟨?_, SameBut.of_set hp hparent hplain contents⟩
  rw [t.get?_put hp hparent hplain.ne_directory, if_pos rfl]

/-! ## Ends -/

/-- The place of the entry under the last name of a path, whether it is there or not. -/
def endOf? (t : FileTree) (path : Path) : Option Place :=
  match Route.parse path with
  | .ok r => (t.spot r).toOption.map Spot.place
  | .error _ => none

theorem endOf?_eq_some_iff :
    t.endOf? path = some p ↔ ∃ r s, Route.parse path = .ok r ∧ t.spot r = .ok s ∧ s.place = p := by
  unfold endOf?
  cases Route.parse path with
  | error fault => simp
  | ok r =>
    cases hs : t.spot r with
    | error fault => simp [hs, Except.toOption]
    | ok s => simp [hs, Except.toOption]

/-- A spot is reached through the directories and links of a tree. -/
theorem Embeds.spot (h : t.Embeds u) {r : Route} {s : Spot} (hs : t.spot r = .ok s) :
    u.spot r = .ok s := by
  have hstart : u.startOf r = t.startOf r := startOf_congr h.cwd r
  unfold FileTree.spot at hs ⊢
  dsimp only at hs ⊢
  split at hs
  · exact hs
  next last hlast =>
  split at hs
  · next parent e hwalk =>
    obtain ⟨q, hq, -⟩ := walk_of_slash hwalk
    obtain ⟨rfl, rfl⟩ := Landing.at.inj hq
    obtain ⟨l, hl, houtline⟩ := h.walk hwalk (Or.inl rfl)
    obtain rfl := Landing.outline_eq_true_iff.1 houtline
    rw [hstart, hl]
    exact hs
  · nomatch hs
  · nomatch hs

theorem Embeds.endOf? (h : t.Embeds u) (hp : t.endOf? path = some p) : u.endOf? path = some p := by
  obtain ⟨r, s, hr, hs, hplace⟩ := endOf?_eq_some_iff.1 hp
  exact endOf?_eq_some_iff.2 ⟨r, s, hr, h.spot hs, hplace⟩

/-- **Removing by a path** takes away the end of the path and nothing else. -/
theorem unlink_eq_ok (h : t.unlink path = .ok t') :
    ∃ p, t.endOf? path = some p ∧ t' = t.removeLeaves fun q _ => q == p := by
  unfold unlink at h
  obtain ⟨r, hr, h⟩ := bind_eq_ok_iff.1 h
  obtain ⟨s, hs, h⟩ := bind_eq_ok_iff.1 h
  split at h
  · nomatch h
  obtain ⟨found, -, h⟩ := bind_eq_ok_iff.1 h
  split at h
  · nomatch h
  · nomatch h
  split at h
  · nomatch h
  obtain rfl := Except.ok.inj h
  exact ⟨s.place, endOf?_eq_some_iff.2 ⟨r, s, hr, hs, rfl⟩, rfl⟩

/-! ## Losing links -/

/-- The second tree differs from the first at most at the places `S`.  It has the same directories,
    and no other links than the first. -/
structure Loses (S : Place → Prop) (t t' : FileTree) : Prop where
  cwd : t'.cwd = t.cwd
  directory : ∀ p, t'.get? p = some .directory ↔ t.get? p = some .directory
  link : ∀ p target, t'.get? p = some (.link target) → t.get? p = some (.link target)
  same : ∀ p, ¬ S p → t'.get? p = t.get? p

theorem SameBut.loses (h : t.SameBut S t') : t.Loses S t' :=
  ⟨h.cwd, h.directory, fun p target => (h.link p target).1, h.same⟩

namespace Loses

theorem refl (S : Place → Prop) (t : FileTree) : t.Loses S t := (SameBut.refl S t).loses

theorem mono (h : t.Loses S t') (hS : ∀ p, S p → S' p) : t.Loses S' t' :=
  ⟨h.cwd, h.directory, h.link, fun p hp => h.same p fun hSp => hp (hS p hSp)⟩

theorem trans (h : t.Loses S t') (h' : t'.Loses S t'') : t.Loses S t'' :=
  ⟨h'.cwd.trans h.cwd, fun p => (h'.directory p).trans (h.directory p),
    fun p target hlink => h.link p target (h'.link p target hlink),
    fun p hp => (h'.same p hp).trans (h.same p hp)⟩

theorem embeds (h : t.Loses S t') : t'.Embeds t :=
  ⟨h.cwd.symm, fun p => (h.directory p).1, h.link⟩

/-- The end of a path in the tree that is left is its end in the other. -/
theorem endOf? (h : t.Loses S t') (hp : t'.endOf? path = some p) : t.endOf? path = some p :=
  h.embeds.endOf? hp

theorem of_unlink (h : t.unlink path = .ok t') : t.Loses (fun p => t.endOf? path = some p) t' := by
  obtain ⟨p, hp, rfl⟩ := unlink_eq_ok h
  refine ⟨rfl, fun q => ?_, fun q target hlink => ?_, fun q hq => ?_⟩
  · rw [get?_removeLeaves, Option.filter_eq_some_iff]
    exact and_iff_left rfl
  · rw [get?_removeLeaves, Option.filter_eq_some_iff] at hlink
    exact hlink.1
  · have hne : (q == p) = false := beq_eq_false_iff_ne.2 fun heq => hq (heq ▸ hp)
    rw [get?_removeLeaves]
    cases t.get? q with
    | none => rfl
    | some e => simp [Option.filter, hne]

end Loses
end FaultPlan.FileTree
