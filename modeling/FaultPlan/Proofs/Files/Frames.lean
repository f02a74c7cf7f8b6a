/-
  Frames: what a change of files leaves alone.

  `SameBut S` relates trees that differ at most in the files at the places `S`; directories, links and
  the current directory are the same in both.  Without links every path then leads to the same place
  in both trees (`SameBut.target?_eq`), so that frames of successive changes compose.  Taking files
  away is such a change (`SameBut.of_removeFiles`), and so is removing by a path, at the place of the
  path's file (`SameBut.of_unlink`).
-/
import FaultPlan.Proofs.Files.Walks

namespace FaultPlan.FileTree

variable {t t' t'' : FileTree} {S S' : Place → Prop} {intent : Intent} {path : Path}

/-- Routes start at the same place when the current directories are the same. -/
theorem startOf_congr (h : t'.cwd = t.cwd) (r : Route) : t'.startOf r = t.startOf r := by
  rw [startOf, startOf, h]

theorem cwd_put (t : FileTree) (p : Place) (e : Entry) : (t.put p e).cwd = t.cwd := by
  unfold put
  split <;> rfl

/-- The trees differ at most in the files at the places `S`. -/
structure SameBut (S : Place → Prop) (t t' : FileTree) : Prop where
  cwd : t'.cwd = t.cwd
  directory : ∀ p, t'.get? p = some .directory ↔ t.get? p = some .directory
  link : ∀ p target, t'.get? p = some (.link target) ↔ t.get? p = some (.link target)
  same : ∀ p, ¬ S p → t'.get? p = t.get? p

namespace SameBut

theorem refl (S : Place → Prop) (t : FileTree) : t.SameBut S t :=
  ⟨rfl, fun _ => Iff.rfl, fun _ _ => Iff.rfl, fun _ _ => rfl⟩

theorem symm (h : t.SameBut S t') : t'.SameBut S t :=
  ⟨h.cwd.symm, fun p => (h.directory p).symm, fun p target => (h.link p target).symm,
    fun p hp => (h.same p hp).symm⟩

theorem mono (h : t.SameBut S t') (hS : ∀ p, S p → S' p) : t.SameBut S' t' :=
  ⟨h.cwd, h.directory, h.link, fun p hp => h.same p fun hSp => hp (hS p hSp)⟩

theorem trans (h : t.SameBut S t') (h' : t'.SameBut S t'') : t.SameBut S t'' :=
  ⟨h'.cwd.trans h.cwd, fun p => (h'.directory p).trans (h.directory p),
    fun p target => (h'.link p target).trans (h.link p target),
    fun p hp => (h'.same p hp).trans (h.same p hp)⟩

/-- One change after another. -/
theorem andThen (h : t.SameBut S t') (h' : t'.SameBut S' t'') :
    t.SameBut (fun p => S p ∨ S' p) t'' :=
  (h.mono fun _ => Or.inl).trans (h'.mono fun _ => Or.inr)

theorem linkFree (h : t.SameBut S t') (hfree : t.LinkFree) : t'.LinkFree :=
  fun p target hlink => hfree p target ((h.link p target).1 hlink)

/-! ## Paths in both trees -/

theorem slot?_eq (h : t.SameBut S t') (dir : Place) (names : List Name) :
    t'.slot? dir names = t.slot? dir names := by
  induction names generalizing dir with
  | nil => rfl
  | cons name rest ih => simp only [slot?, ih, h.directory]

theorem slotOf?_eq (h : t.SameBut S t') (path : Path) : t'.slotOf? path = t.slotOf? path := by
  simp only [slotOf?, startOf, h.slot?_eq, h.cwd]

/-- The file of a path has the same place in both trees. -/
theorem target?_eq (h : t.SameBut S t') (hfree : t.LinkFree) (path : Path) :
    t'.target? path = t.target? path := by
  refine Option.ext fun p => ?_
  rw [target?_eq_some_iff hfree, target?_eq_some_iff (h.linkFree hfree), h.slotOf?_eq, ne_eq,
    h.directory]

/-! ## Changes with a frame -/

/-- Taking files away is a change of files, whatever links there are. -/
theorem of_removeFiles {gone : Place → Entry → Bool}
    (hfile : ∀ p e, t.get? p = some e → gone p e = true → ∃ contents, e = .file contents)
    (hS : ∀ p e, t.get? p = some e → gone p e = true → S p) : t.SameBut S (t.removeLeaves gone) where
  cwd := rfl
  directory p := by
    rw [get?_removeLeaves, Option.filter_eq_some_iff]
    exact and_iff_left rfl
  link p target := by
    rw [get?_removeLeaves, Option.filter_eq_some_iff]
    refine and_iff_left_of_imp fun hlink => ?_
    have hkept : gone p (.link target) = false := by
      refine Bool.eq_false_iff.2 fun hgone => ?_
      obtain ⟨contents, hcontents⟩ := hfile p _ hlink hgone
      nomatch hcontents
    rw [hkept]
    rfl
  same p hp := by
    rw [get?_removeLeaves]
    cases he : t.get? p with
    | none => rfl
    | some e => simp [Option.filter, Bool.eq_false_iff.2 fun hgone => hp (hS p e he hgone)]

end SameBut

/-! ## Taking away -/

theorem removeLeaves_congr {gone gone' : Place → Entry → Bool}
    (h : ∀ p e, t.get? p = some e → gone p e = gone' p e) :
    t.removeLeaves gone = t.removeLeaves gone' := by
  have hentries : (t.removeLeaves gone).entries = (t.removeLeaves gone').entries :=
    List.filter_congr fun x hx => by rw [h x.1 x.2 ((t.get?_eq_some_iff (t.rooted x hx).1).2 hx)]
  simp only [removeLeaves] at hentries ⊢
  simp only [hentries]

theorem removeLeaves_none (t : FileTree) : t.removeLeaves (fun _ _ => false) = t := by
  have hentries : (t.removeLeaves fun _ _ => false).entries = t.entries :=
    List.filter_eq_self.2 fun x _ => by simp
  cases t
  simp only [removeLeaves] at hentries ⊢
  simp only [hentries]

theorem removeLeaves_removeLeaves (t : FileTree) (gone gone' : Place → Entry → Bool) :
    (t.removeLeaves gone).removeLeaves gone' = t.removeLeaves fun p e => gone p e || gone' p e := by
  have hentries : ((t.removeLeaves gone).removeLeaves gone').entries =
      (t.removeLeaves fun p e => gone p e || gone' p e).entries := by
    simp only [removeLeaves, List.filter_filter]
    refine List.filter_congr fun x _ => ?_
    cases x.2 == Entry.directory <;> cases gone x.1 x.2 <;> simp
  simp only [removeLeaves] at hentries ⊢
  simp only [hentries]

/-! ## Removing by a path -/

theorem SameBut.of_unlink (hfree : t.LinkFree) (h : t.unlink path = .ok t') :
    t.SameBut (fun p => t.target? path = some p) t' := by
  obtain ⟨p, contents, hp, hfile, rfl⟩ := (unlink_eq_ok_iff hfree).1 h
  refine SameBut.of_removeFiles (fun q e he hq => ?_) fun q e _ hq => ?_
  · rw [eq_of_beq hq] at he
    exact ⟨contents, Option.some.inj (he.symm.trans hfile)⟩
  · rw [hp, eq_of_beq hq]

theorem get?_unlink (hfree : t.LinkFree) (h : t.unlink path = .ok t') (p : Place) :
    t'.get? p = if t.target? path = some p then none else t.get? p := by
  split
  · next hp =>
    obtain ⟨q, contents, hq, hfile, rfl⟩ := (unlink_eq_ok_iff hfree).1 h
    obtain rfl := Option.some.inj (hp.symm.trans hq)
    rw [get?_removeLeaves, hfile]
    simp [Option.filter]
  · next hp => exact (SameBut.of_unlink hfree h).same p hp

/-- Where removing by a path is refused, the path has led to no file. -/
theorem get?_of_unlink_eq_error (hfree : t.LinkFree) {fault : IoFault}
    (h : t.unlink path = .error fault) {p : Place} (hp : t.target? path = some p) :
    t.get? p = none := by
  rcases get?_target? hfree hp with hnone | ⟨contents, hfile⟩
  · exact hnone
  · have hok := (unlink_eq_ok_iff hfree).2 ⟨p, contents, hp, hfile, rfl⟩
    nomatch h.symm.trans hok

end FaultPlan.FileTree
