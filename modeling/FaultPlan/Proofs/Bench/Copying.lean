/-
  Copying: what the extractor of a build does to the files.

  What a program writes is its own matter.  A bench is confined if its programs write at most the file
  that their last argument leads to (`Bench.Confined`).  Then a call of the extractor reaches the file
  of its destination at most, through whatever links (`Build.extractor_contained`).  A shelf gives a
  confined bench if each of its programs is confined, which printers and copiers are.

  If the tool that copies sections is a copier that never ends well without having copied, then a call
  that succeeds leaves the bytes of the section at its destination (`Build.extractor_writes`).
-/
import FaultPlan.Bench.Binutils
import FaultPlan.Bench.Shelf
import FaultPlan.Proofs.Section.Reaching

namespace FaultPlan

variable {t t' : FileTree} {c : Copier} {shelf : Shelf} {bench : Bench}

/-! ## Programs and benches -/

/-- The program changes at most the file that its last argument leads to. -/
def Program.Confined (p : Program) : Prop :=
  ∀ args (t : FileTree), t.SameBut (fun q => t.target? (args.getLast?.getD []) = some q) (p args t).1

/-- Programs that write change at most the file that their last argument leads to. -/
def Bench.Confined (bench : Bench) : Prop :=
  ∀ (t : FileTree) program args t' ending, bench.copy t program args = .ok (t', ending) →
    t.SameBut (fun q => t.target? (args.getLast?.getD []) = some q) t'

theorem Program.printer_confined (reply : List Path → Ending) : (printer reply).Confined :=
  fun _ t => FileTree.SameBut.refl _ t

theorem Copier.run_confined (c : Copier) : Program.Confined c.run := by
  intro args t
  unfold Copier.run
  have hwrite : ∀ {t'}, t.write (args.getLast?.getD []) (c.image (sectionIn args)) = .ok t' →
      t.SameBut (fun q => t.target? (args.getLast?.getD []) = some q) t' := by
    intro t' h
    obtain ⟨p, hp, rfl⟩ := FileTree.write_eq_ok_iff_target.1 h
    refine (FileTree.put_target? hp _).2.mono ?_
    rintro q rfl
    exact hp
  dsimp only
  split
  · split
    · next h => exact hwrite h
    · exact FileTree.SameBut.refl _ t
  · split
    · split
      · next h => exact hwrite h
      · exact FileTree.SameBut.refl _ t
    · exact FileTree.SameBut.refl _ t

namespace Shelf

/-- A shelf starts no other program than the one that it has under the name. -/
theorem eq_some_of_start {name : Path} {args : List Path} {p : Program}
    (h : shelf.start t name args = .ok p) : shelf name = some p := by
  unfold start at h
  split at h
  · nomatch h
  split at h
  · nomatch h
  next p' hfind =>
  split at h
  · obtain rfl := Except.ok.inj h
    unfold find at hfind
    split at hfind
    · split at hfind <;> nomatch hfind
    split at hfind
    · nomatch hfind
    split at hfind
    · nomatch hfind
    split at hfind
    · next hprogram =>
      obtain rfl := Except.ok.inj hfind
      exact hprogram
    · nomatch hfind
  · nomatch h

theorem copy_eq_ok {name : Path} {args : List Path} {ending : Ending}
    (h : shelf.bench.copy t name args = .ok (t', ending)) :
    ∃ p, shelf name = some p ∧ p args t = (t', ending) := by
  obtain ⟨p, hstart, hrun⟩ := map_eq_ok_iff.1 h
  exact ⟨p, eq_some_of_start hstart, hrun⟩

/-- **A shelf is confined** if its programs are. -/
theorem bench_confined (h : ∀ name p, shelf name = some p → p.Confined) : shelf.bench.Confined := by
  intro t name args t' ending hcopy
  obtain ⟨p, hp, hrun⟩ := copy_eq_ok hcopy
  have hframe := h name p hp args t
  rwa [hrun] at hframe

/-- The shelf with one program. -/
def only (name : Name) (p : Program) : Shelf := fun name' => if name' = name then some p else none

theorem only_confined {name : Name} {p : Program} (h : p.Confined) : (only name p).bench.Confined := by
  refine bench_confined fun name' p' hp' => ?_
  obtain ⟨-, hp⟩ := Option.ite_none_right_eq_some.1 hp'
  obtain rfl := Option.some.inj hp
  exact h

end Shelf

/-! ## The extractor of a build -/

namespace Build

variable {b : Build}

theorem getLast?_copyArgs (b : Build) (sectionName : String) (destination : Path) :
    (b.copyArgs sectionName destination).getLast?.getD [] = destination := rfl

/-- **The extractor of a build** reaches the file of its destination at most. -/
theorem extractor_contained (b : Build) (h : bench.Confined) : (b.extractor bench).Contained := by
  intro turn sectionName destination t
  unfold Extractor.act extractor
  dsimp only
  cases hcopy : bench.copy t b.copier (b.copyArgs sectionName destination) with
  | error cause => exact FileTree.SameBut.refl _ t
  | ok result => exact h t _ _ _ _ hcopy

theorem extractor_eq_ok_iff {turn : Nat} {sectionName : String} {destination : Path} :
    b.extractor bench turn sectionName destination t = (t', .ok ()) ↔
      ∃ ending, bench.copy t b.copier (b.copyArgs sectionName destination) = .ok (t', ending) ∧
        ending.status.success = true := by
  unfold Extractor.act extractor outputOf
  dsimp only
  cases bench.copy t b.copier (b.copyArgs sectionName destination) with
  | error cause => simp
  | ok result =>
    obtain ⟨u, ending⟩ := result
    cases hsuccess : ending.status.success with
    | true => simp [Except.map, hsuccess, and_assoc]
    | false => simp [Except.map, hsuccess, and_assoc]

end Build

/-! ## Honest copiers -/

/-- A copier that ends well only if it has copied. -/
structure Copier.Honest (c : Copier) : Prop where
  fault : ∀ sectionName fault, c.fault sectionName = some fault → fault.ending.status.success = false
  unwritable : c.unwritable.status.success = false

/-- An honest copier that ends well has written the bytes of the section. -/
theorem Copier.Honest.run (hc : c.Honest) {args : List Path}
    (h : (c.run args t).2.status.success = true) :
    t.write (args.getLast?.getD []) (c.image (sectionIn args)) = .ok (c.run args t).1 := by
  unfold Copier.run at h ⊢
  dsimp only at h ⊢
  cases hfault : c.fault (sectionIn args) with
  | none =>
    rw [hfault] at h
    dsimp only at h ⊢
    split at h
    · next t' hwrite => exact hwrite
    · rw [hc.unwritable] at h
      nomatch h
  | some fault =>
    have hfails := hc.fault _ _ hfault
    rw [hfault] at h
    dsimp only at h
    split at h
    · split at h
      · rw [hfails] at h
        nomatch h
      · rw [hc.unwritable] at h
        nomatch h
    · rw [hfails] at h
      nomatch h

namespace Build

/-- A copier finds the section in the arguments that it is given. -/
theorem sectionIn_copyArgs (b : Build) (sectionName : String) (destination : Path) :
    Copier.sectionIn (b.copyArgs sectionName destination) = sectionName := by
  have hhead : Text.startsWith sectionOption (sectionOption ++ sectionName) = true := by
    rw [Text.startsWith, String.toList_append, List.isPrefixOf_iff_prefix]
    exact List.prefix_append _ _
  have hdrop : Text.dropHead? sectionOption (sectionOption ++ sectionName) = some sectionName := by
    rw [Text.dropHead?, if_pos hhead, String.toList_append, List.drop_left, String.ofList_toList]
  have hoption : (Path.text? ("--only-section=" ++ sectionName : String)).bind
      (Text.dropHead? sectionOption) = some sectionName := by
    rw [Path.text?, Path.ofText, Utf8.decode?_encode]
    exact hdrop
  have hformat : (Path.text? "-O").bind (Text.dropHead? sectionOption) = none := by decide
  have hbinary : (Path.text? "binary").bind (Text.dropHead? sectionOption) = none := by decide
  simp only [Copier.sectionIn, copyArgs, List.findSome?_cons, hformat, hbinary, hoption]
  rfl

/-- **With an honest copier** the extractor leaves the bytes of each section that it extracts. -/
theorem extractor_writes {b : Build} (hcopier : shelf b.copier = some c.run) (hc : c.Honest) :
    (b.extractor shelf.bench).Writes c.image := by
  intro turn sectionName destination t t' hfree h
  obtain ⟨ending, hcopy, hsuccess⟩ := extractor_eq_ok_iff.1 h
  obtain ⟨p, hp, hrun⟩ := Shelf.copy_eq_ok hcopy
  obtain rfl := Option.some.inj (hp.symm.trans hcopier)
  have hwrite := hc.run (show (c.run _ t).2.status.success = true by rw [hrun]; exact hsuccess)
  rw [hrun, getLast?_copyArgs, sectionIn_copyArgs] at hwrite
  obtain ⟨q, hq, hput⟩ := FileTree.write_eq_ok_iff_target.1 hwrite
  obtain ⟨hfile, hframe⟩ := FileTree.put_target? hq (c.image sectionName)
  rw [← show t' = _ from hput] at hfile hframe
  refine ⟨q, ?_, hframe⟩
  rw [FileTree.followPath_eq_file_iff (hframe.linkFree hfree), hframe.target?_congr]
  exact ⟨hq, hfile⟩

end Build
end FaultPlan
