/-
  Extracting: the calls that are made, and the files that they leave.

  `Extracts` relates the trees before and after a row of calls that all succeed.  An extraction is such
  a row for all sections (`Extracts.extractAfter`), or one for the sections before some section, a
  call for that section that fails, and the removal of every file that a call so far may have left
  (`Extracts.extractAfter_fails`).

  What is known of the single call carries over to a row.  Calls that change only the file of their
  destination change only such files (`Extracts.frame`), and what is left in one of them was left by
  the last call that it was the destination of (`Extracts.last_left`).
-/
import FaultPlan.Proofs.Section.Clearing

namespace FaultPlan

variable {storage : Storage} {x : Extractor} {dir : Path} {bytes : String → Bytes} {t t' : FileTree}

/-! ## Discarding -/

theorem Storage.unlink_eq_ok_iff {path : Path} : storage.unlink t path = .ok t' ↔
    t.unlink path = .ok t' ∧ storage.refusal? path = none := by
  unfold Storage.unlink
  cases t.unlink path with
  | error fault => simp
  | ok t₁ =>
    cases storage.refusal? path with
    | none => simp
    | some fault => simp

namespace FileTree

/-- Discarding takes the file of the first path away, if there is one and that is not refused, and
    goes on. -/
theorem discard_cons (storage : Storage) (hfree : t.LinkFree) (path : Path) (paths : List Path) :
    ∃ t', (discard storage (path :: paths) t).1 = (discard storage paths t').1 ∧
      t.SameBut (fun p => t.target? path = some p) t' ∧
      (∀ p, t.get? p = none → t'.get? p = none) ∧
      (storage.refusal? path = none → ∀ p, t.target? path = some p → t'.get? p = none) := by
  rw [discard]
  cases h : storage.unlink t path with
  | ok t' =>
    obtain ⟨hunlink, -⟩ := Storage.unlink_eq_ok_iff.1 h
    have hget := get?_unlink hfree hunlink
    refine ⟨t', rfl, SameBut.of_unlink hfree hunlink, fun p hnone => ?_, fun _ p hp => ?_⟩
    · rw [hget, hnone, ite_self]
    · rw [hget, if_pos hp]
  | error fault =>
    refine ⟨t, by cases fault <;> rfl, SameBut.refl _ t, fun _ => id, fun hallowed p hp => ?_⟩
    cases hunlink : t.unlink path with
    | ok t' => nomatch h.symm.trans (Storage.unlink_eq_ok_iff.2 ⟨hunlink, hallowed⟩)
    | error fault' => exact get?_of_unlink_eq_error hfree hunlink hp

/-- Discarding changes nothing but the files of the paths. -/
theorem discard_frame {paths : List Path} : ∀ {t : FileTree}, t.LinkFree →
    t.SameBut (fun p => ∃ path ∈ paths, t.target? path = some p) (discard storage paths t).1 := by
  induction paths with
  | nil => exact fun _ => SameBut.refl _ _
  | cons path paths ih =>
    intro t hfree
    obtain ⟨t', hrest, hframe, -⟩ := discard_cons storage hfree path paths
    rw [hrest]
    refine (hframe.andThen (ih (hframe.linkFree hfree))).mono ?_
    rintro p (hp | ⟨path', hpath', hp⟩)
    · exact ⟨path, List.mem_cons_self, hp⟩
    · rw [hframe.target?_eq hfree] at hp
      exact ⟨path', List.mem_cons_of_mem _ hpath', hp⟩

/-- **Discarding** leaves none of the files of the paths that may be removed. -/
theorem get?_discard {paths : List Path} {p : Place} : ∀ {t : FileTree}, t.LinkFree →
    (∃ path ∈ paths, t.target? path = some p ∧ storage.refusal? path = none) ∨ t.get? p = none →
      (discard storage paths t).1.get? p = none := by
  induction paths with
  | nil =>
    intro t _ h
    exact h.resolve_left (by simp)
  | cons path paths ih =>
    intro t hfree h
    obtain ⟨t', hrest, hframe, hvacant, hgone⟩ := discard_cons storage hfree path paths
    rw [hrest]
    refine ih (hframe.linkFree hfree) ?_
    -- the file of the first path is gone; those of the others have kept their places
    rcases h with ⟨path', hpath', hp, hallowed⟩ | hnone
    · rcases List.mem_cons.1 hpath' with rfl | hpath'
      · exact Or.inr (hgone hallowed p hp)
      · exact Or.inl ⟨path', hpath', (hframe.target?_eq hfree path').trans hp, hallowed⟩
    · exact Or.inr (hvacant p hnone)

end FileTree

/-! ## Rows of calls -/

/-- The call that extracts a section into a directory. -/
def LoadableSection.callIn (dir : Path) (s : LoadableSection) : Extract :=
  ⟨s.name, blobPath dir s.name⟩

/-- Calls for the sections in order, of which the first has the turn, all succeed, and lead from one
    tree to the other. -/
inductive Extractor.Extracts (x : Extractor) (dir : Path) :
    Nat → List LoadableSection → FileTree → FileTree → Prop where
  | nil {turn : Nat} {t : FileTree} : Extracts x dir turn [] t t
  | cons {turn : Nat} {s : LoadableSection} {rest : List LoadableSection} {t t' t'' : FileTree}
    (hcall : x turn s.name (blobPath dir s.name) t = (t', .ok ()))
    (hrest : Extracts x dir (turn + 1) rest t' t'') : Extracts x dir turn (s :: rest) t t''

/-- The programs that calls for the sections in order start, one call after the other. -/
def Extractor.startsFor (x : Extractor) (dir : Path) :
    (turn : Nat) → List LoadableSection → FileTree → List Call
  | _, [], _ => []
  | turn, s :: rest, t => x.starts turn s.name (blobPath dir s.name) t ++
      x.startsFor dir (turn + 1) rest (x turn s.name (blobPath dir s.name) t).1

section

variable {sections : List LoadableSection}

/-- An extraction makes its first call and goes on after it, if it succeeds. -/
theorem extractAfter_cons (storage : Storage) (x : Extractor) (dir : Path) (done : List SectionBlob)
    (s : LoadableSection) (rest : List LoadableSection) (t : FileTree) :
    extractAfter storage x dir done (s :: rest) t =
      match x done.length s.name (blobPath dir s.name) t with
      | (t', .ok ()) =>
        let after := extractAfter storage x dir (done ++ [s.blobIn dir]) rest t'
        { after with
          calls := s.callIn dir :: after.calls
          started := x.starts done.length s.name (blobPath dir s.name) t ++ after.started }
      | (t', .error failure) =>
        let cleaned := discard storage (done.map (·.path) ++ [blobPath dir s.name]) t'
        ⟨cleaned.1, [s.callIn dir], x.starts done.length s.name (blobPath dir s.name) t, cleaned.2,
          .error failure⟩ := by
  have hpath : (s.blobIn dir).path = blobPath dir s.name := rfl
  rw [extractAfter, hpath]
  unfold Extractor.act Extractor.starts
  dsimp only
  cases (x.extract done.length s.name (blobPath dir s.name) t).outcome <;> rfl

/-- Calls that all succeed make an extraction that succeeds. -/
theorem Extractor.Extracts.extractAfter {turn : Nat} (h : x.Extracts dir turn sections t t') :
    ∀ {done : List SectionBlob}, done.length = turn →
      extractAfter storage x dir done sections t = ⟨t', sections.map (·.callIn dir),
        x.startsFor dir turn sections t, [], .ok (done ++ sections.map (·.blobIn dir))⟩ := by
  induction h with
  | nil =>
    intro done _
    rw [FaultPlan.extractAfter, List.map_nil, List.map_nil, List.append_nil]
    rfl
  | @cons turn s rest t₀ t₁ t₂ hcall hrest ih =>
    rintro done rfl
    rw [extractAfter_cons, Extractor.startsFor, hcall]
    dsimp only
    rw [ih (by simp)]
    simp

/-- A call that fails ends an extraction with its failure, and what may have been written for its
    section and those before it is discarded. -/
theorem Extractor.Extracts.extractAfter_fails {turn : Nat} {s : LoadableSection} {t'' : FileTree}
    {failure : MetadataFailure} (h : x.Extracts dir turn sections t t')
    (hfails : x (turn + sections.length) s.name (blobPath dir s.name) t' = (t'', .error failure))
    (after : List LoadableSection) : ∀ done : List SectionBlob, done.length = turn →
      FaultPlan.extractAfter storage x dir done (sections ++ s :: after) t =
        let r := discard storage (done.map (·.path) ++ (sections ++ [s]).map fun s => blobPath dir s.name) t''
        ⟨r.1, (sections ++ [s]).map (·.callIn dir), x.startsFor dir turn (sections ++ [s]) t, r.2,
          .error failure⟩ := by
  induction h with
  | @nil turn t₀ =>
    rintro done rfl
    rw [List.length_nil, Nat.add_zero] at hfails
    rw [List.nil_append, extractAfter_cons, hfails]
    simp [Extractor.startsFor]
  | @cons turn s₀ rest t₀ t₁ t₂ hcall hrest ih =>
    rintro done rfl
    rw [List.length_cons, Nat.add_comm rest.length, ← Nat.add_assoc] at hfails
    have hmore := ih hfails (done ++ [s₀.blobIn dir]) (by simp)
    rw [List.cons_append, extractAfter_cons, hcall]
    dsimp only
    rw [hmore, List.cons_append, Extractor.startsFor, hcall]
    simp [LoadableSection.blobIn]

/-- A row of calls is one for the first sections, and one that goes on from there. -/
theorem Extractor.Extracts.split {before after : List LoadableSection} {turn : Nat}
    (h : x.Extracts dir turn (before ++ after) t t') : ∃ u, x.Extracts dir turn before t u ∧
      x.Extracts dir (turn + before.length) after u t' := by
  induction before generalizing turn t with
  | nil => exact ⟨t, .nil, h⟩
  | cons s before ih =>
    cases h with
    | cons hcall hrest =>
      obtain ⟨u, hbefore, hafter⟩ := ih hrest
      refine ⟨u, .cons hcall hbefore, ?_⟩
      rwa [List.length_cons, Nat.add_comm before.length, ← Nat.add_assoc]

/-- What calls start comes after what the calls before them started. -/
theorem Extractor.Extracts.startsFor_append {before : List LoadableSection} {turn : Nat}
    (h : x.Extracts dir turn before t t') (after : List LoadableSection) :
    x.startsFor dir turn (before ++ after) t =
      x.startsFor dir turn before t ++ x.startsFor dir (turn + before.length) after t' := by
  induction h with
  | nil => rfl
  | @cons turn s rest t₀ t₁ t₂ hcall hrest ih =>
    rw [List.cons_append, Extractor.startsFor, Extractor.startsFor, hcall, ih, List.append_assoc,
      List.length_cons, Nat.add_comm rest.length, ← Nat.add_assoc]

/-- Calls for the sections in order all succeed, or one of them is the first to fail. -/
theorem Extractor.extracts_or_fails (x : Extractor) (dir : Path) (turn : Nat)
    (sections : List LoadableSection) (t : FileTree) :
    (∃ t', x.Extracts dir turn sections t t') ∨
      ∃ before s after t' t'' failure, sections = before ++ s :: after ∧
        x.Extracts dir turn before t t' ∧
        x (turn + before.length) s.name (blobPath dir s.name) t' = (t'', .error failure) := by
  induction sections generalizing turn t with
  | nil => exact Or.inl ⟨t, .nil⟩
  | cons s rest ih =>
    cases hcall : x turn s.name (blobPath dir s.name) t with
    | mk t₁ result =>
      cases result with
      | error failure => exact Or.inr ⟨[], s, rest, t, t₁, failure, rfl, .nil, hcall⟩
      | ok =>
        rcases ih (turn + 1) t₁ with
          ⟨t', hrest⟩ | ⟨before, s', after, t', t'', failure, rfl, hbefore, hfails⟩
        · exact Or.inl ⟨t', .cons hcall hrest⟩
        · refine Or.inr ⟨s :: before, s', after, t', t'', failure, rfl, .cons hcall hbefore, ?_⟩
          rwa [List.length_cons, Nat.add_comm before.length, ← Nat.add_assoc]

/-! ## What calls leave -/

namespace Extractor

/-- A call changes at most the file that its destination leads to or would lead to; it may do so and
    fail. -/
def Confined (x : Extractor) : Prop :=
  ∀ turn sectionName destination t, FileTree.LinkFree t →
    t.SameBut (fun p => t.target? destination = some p) (x turn sectionName destination t).1

/-- A call that succeeds leaves the bytes of its section in the file that the destination leads to,
    and changes nothing else. -/
def Writes (x : Extractor) (bytes : String → Bytes) : Prop :=
  ∀ turn sectionName destination t t', FileTree.LinkFree t →
    x turn sectionName destination t = (t', .ok ()) →
      ∃ p, t'.followPath .find destination = .ok (.at p (.file (bytes sectionName))) ∧
        t.SameBut (· = p) t'

/-- In trees with the directories and links of this one, a call that succeeds changes at most the file
    of its destination. -/
def KeepsTo (x : Extractor) (t : FileTree) : Prop :=
  ∀ turn sectionName destination u u', t.SameBut (fun _ => True) u →
    x turn sectionName destination u = (u', .ok ()) →
      u.SameBut (fun p => u.target? destination = some p) u'

theorem KeepsTo.of_sameBut {S : Place → Prop} (hx : x.KeepsTo t) (h : t.SameBut S t') :
    x.KeepsTo t' := fun turn sectionName destination u u' hu =>
  hx turn sectionName destination u u' ((h.mono fun _ _ => trivial).trans hu)

theorem Confined.keepsTo (hx : x.Confined) (hfree : t.LinkFree) : x.KeepsTo t := by
  intro turn sectionName destination u u' hu h
  have hframe := hx turn sectionName destination u (hu.linkFree hfree)
  rwa [h] at hframe

/-- The file that a successful call leaves is that of its destination. -/
theorem Writes.target? (hx : x.Writes bytes) {turn : Nat} {sectionName : String} {destination : Path}
    (hfree : t.LinkFree) (h : x turn sectionName destination t = (t', .ok ())) :
    ∃ p, t.target? destination = some p ∧ t'.get? p = some (.file (bytes sectionName)) ∧
      t.SameBut (· = p) t' := by
  obtain ⟨p, hpath, hframe⟩ := hx turn sectionName destination t t' hfree h
  obtain ⟨hp, hfile⟩ := (FileTree.followPath_eq_file_iff (hframe.linkFree hfree)).1 hpath
  exact ⟨p, (hframe.target?_eq hfree destination).symm.trans hp, hfile, hframe⟩

theorem Writes.keepsTo (hx : x.Writes bytes) (hfree : t.LinkFree) : x.KeepsTo t := by
  intro turn sectionName destination u u' hu h
  obtain ⟨p, hp, -, hframe⟩ := hx.target? (hu.linkFree hfree) h
  refine hframe.mono ?_
  rintro q rfl
  exact hp

namespace Extracts

variable {turn : Nat}

/-- A row of calls changes nothing but the files of its destinations. -/
theorem frame (hx : x.KeepsTo t) (h : x.Extracts dir turn sections t t') :
    t.SameBut (fun p => ∃ s ∈ sections, t.target? (blobPath dir s.name) = some p) t' := by
  induction h with
  | nil => exact FileTree.SameBut.refl _ _
  | @cons turn s rest t₀ t₁ t₂ hcall _ ih =>
    have hstep := hx _ _ _ _ _ (FileTree.SameBut.refl _ _) hcall
    refine (hstep.andThen (ih (hx.of_sameBut hstep))).mono ?_
    rintro p (hp | ⟨s', hs', hp⟩)
    · exact ⟨s, List.mem_cons_self, hp⟩
    · rw [hstep.target?_congr] at hp
      exact ⟨s', List.mem_cons_of_mem _ hs', hp⟩

/-- **A failed extraction is rolled back.**  When calls have succeeded and the next one has failed,
    discarding the destinations leaves none of their files that may be removed, and all else as it
    was. -/
theorem rolled_back (storage : Storage) (hx : x.Confined) (hfree : t.LinkFree)
    {before : List LoadableSection} {s : LoadableSection} {t'' : FileTree} {next : Nat}
    {failure : MetadataFailure} (hbefore : x.Extracts dir turn before t t')
    (hfails : x next s.name (blobPath dir s.name) t' = (t'', .error failure)) :
    let final := (discard storage ((before ++ [s]).map fun s => blobPath dir s.name) t'').1
    t.SameBut (fun p => ∃ s' ∈ before ++ [s], t.target? (blobPath dir s'.name) = some p) final ∧
      ∀ s' ∈ before ++ [s], storage.refusal? (blobPath dir s'.name) = none →
        ∀ p, t.target? (blobPath dir s'.name) = some p → final.get? p = none := by
  intro final
  have hrow := hbefore.frame (hx.keepsTo hfree)
  have hcall := hx next s.name (blobPath dir s.name) t' (hrow.linkFree hfree)
  rw [hfails] at hcall
  -- the trees have the same paths to files before, during and after the calls
  have hsofar : t.SameBut
      (fun p => ∃ s' ∈ before ++ [s], t.target? (blobPath dir s'.name) = some p) t'' := by
    refine (hrow.andThen hcall).mono ?_
    rintro p (⟨s', hs', hp⟩ | hp)
    · exact ⟨s', List.mem_append_left _ hs', hp⟩
    · rw [hrow.target?_congr] at hp
      exact ⟨s, List.mem_append_right _ List.mem_cons_self, hp⟩
  have htarget := hsofar.target?_congr
  refine ⟨hsofar.trans ((FileTree.discard_frame (hsofar.linkFree hfree)).mono ?_), ?_⟩
  · rintro p ⟨path, hpath, hp⟩
    obtain ⟨s', hs', rfl⟩ := List.mem_map.1 hpath
    exact ⟨s', hs', (htarget _).symm.trans hp⟩
  · intro s' hs' hallowed p hp
    exact FileTree.get?_discard (hsofar.linkFree hfree)
      (Or.inl ⟨_, List.mem_map_of_mem hs', (htarget _).trans hp, hallowed⟩)

/-- **The last one decides.**  What a row of calls leaves in a file that is the destination of one of
    them was left there by the last call whose destination it is. -/
theorem last_left (hx : x.KeepsTo t) (h : x.Extracts dir turn sections t t') {p : Place} :
    (∃ s ∈ sections, t.target? (blobPath dir s.name) = some p) →
      ∃ before last after u u', sections = before ++ last :: after ∧
        t.target? (blobPath dir last.name) = some p ∧
        (∀ s' ∈ after, t.target? (blobPath dir s'.name) ≠ some p) ∧
        x.Extracts dir turn before t u ∧
        x (turn + before.length) last.name (blobPath dir last.name) u = (u', .ok ()) ∧
        t'.get? p = u'.get? p := by
  induction h with
  | nil => simp
  | @cons turn s rest t₀ t₁ t₂ hcall hrest ih =>
    have hstep := hx _ _ _ _ _ (FileTree.SameBut.refl _ _) hcall
    have hx₁ := hx.of_sameBut hstep
    have htarget := hstep.target?_congr
    rintro ⟨s', hs', hp⟩
    by_cases hagain : ∃ s'' ∈ rest, t₁.target? (blobPath dir s''.name) = some p
    · -- a later call decides
      obtain ⟨before, last, after, u, u', rfl, hlast, hafter, hrow, hwrites, hget⟩ := ih hx₁ hagain
      simp only [htarget] at hlast hafter
      refine ⟨s :: before, last, after, u, u', rfl, hlast, hafter, .cons hcall hrow, ?_, hget⟩
      rwa [List.length_cons, Nat.add_comm before.length, ← Nat.add_assoc]
    · have hnever : ∀ s'' ∈ rest, t₀.target? (blobPath dir s''.name) ≠ some p :=
        fun s'' hs'' hp'' => hagain ⟨s'', hs'', (htarget _).trans hp''⟩
      obtain rfl : s' = s := (List.mem_cons.1 hs').resolve_right fun hmem => hnever s' hmem hp
      exact ⟨[], s', rest, t₀, t₁, rfl, hp, hnever, .nil, hcall, (hrest.frame hx₁).same p hagain⟩

/-- **The last one writes.**  After a row of calls the destination of each section leads to a file,
    which holds the bytes of the last section whose destination leads there. -/
theorem last_writes (hx : x.Writes bytes) (hfree : t.LinkFree)
    (h : x.Extracts dir turn sections t t') : ∀ s ∈ sections, ∃ p before last after,
      t.target? (blobPath dir s.name) = some p ∧ sections = before ++ last :: after ∧
      t.target? (blobPath dir last.name) = some p ∧
      (∀ s' ∈ after, t.target? (blobPath dir s'.name) ≠ some p) ∧
      t'.get? p = some (.file (bytes last.name)) := by
  intro s hs
  have hkeeps := hx.keepsTo hfree
  -- the call for the section itself shows that its destination leads to a file
  obtain ⟨first, others, rfl⟩ := List.append_of_mem hs
  obtain ⟨u, hfirst, hothers⟩ := h.split
  have hframe := hfirst.frame hkeeps
  obtain ⟨p, hp⟩ : ∃ p, t.target? (blobPath dir s.name) = some p := by
    cases hothers with
    | cons hcall _ =>
      obtain ⟨p, hp, -⟩ := hx.target? (hframe.linkFree hfree) hcall
      exact ⟨p, (hframe.target?_congr _).symm.trans hp⟩
  obtain ⟨before, last, after, v, v', hsections, hlast, hafter, hrow, hcall, hget⟩ :=
    h.last_left hkeeps ⟨s, hs, hp⟩
  have hbefore := hrow.frame hkeeps
  obtain ⟨q, hq, hfile, -⟩ := hx.target? (hbefore.linkFree hfree) hcall
  rw [hbefore.target?_congr, hlast] at hq
  obtain rfl := Option.some.inj hq
  exact ⟨p, before, last, after, hp, hsections, hlast, hafter, hget.trans hfile⟩

end Extracts
end Extractor
end

end FaultPlan
