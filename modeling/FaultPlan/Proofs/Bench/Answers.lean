/-
  What the answers of a bench depend on.

  A bench may look at all the files that there are, but not at the order in which a tree lists them: it
  is uniform if programs that write end alike in trees that are alike, and leave them alike
  (`Bench.Uniform`).  Then so does the extractor of a build, whatever copies its sections
  (`Build.extractor_uniform`).  A shelf gives a uniform bench if each of its programs is uniform.

  The listings of a build are the same in two trees if the path of the linker map leads to the same
  there and the tools that print the others answer alike (`Build.source_eq`).
-/
import FaultPlan.Proofs.Bench.Copying
import FaultPlan.Proofs.Section.Uniform

namespace FaultPlan

variable {t t' : FileTree} {bench : Bench}

/-! ## Programs in trees that are alike -/

/-- Both starts are refused for the same reason, or both programs end alike and leave trees alike. -/
inductive EndedAlike : Except IoFault (FileTree × Ending) → Except IoFault (FileTree × Ending) → Prop where
  | ended {u u' : FileTree} (ending : Ending) (h : u.Alike u') : EndedAlike (.ok (u, ending)) (.ok (u', ending))
  | refused (fault : IoFault) : EndedAlike (.error fault) (.error fault)

/-- In trees that are alike, programs that write end alike and leave them alike. -/
def Bench.Uniform (bench : Bench) : Prop :=
  ∀ {t t' : FileTree}, t.Alike t' → ∀ program args,
    EndedAlike (bench.copy t program args) (bench.copy t' program args)

/-- In trees that are alike the program ends alike and leaves them alike. -/
def Program.Uniform (p : Program) : Prop :=
  ∀ {t t' : FileTree}, t.Alike t' → ∀ args,
    (p args t).1.Alike (p args t').1 ∧ (p args t').2 = (p args t).2

theorem Copier.run_uniform (c : Copier) : Program.Uniform c.run := by
  intro t t' h args
  have hwrite := h.write (args.getLast?.getD []) (c.image (sectionIn args))
  unfold run
  dsimp only
  generalize t.write (args.getLast?.getD []) (c.image (sectionIn args)) = r,
    t'.write (args.getLast?.getD []) (c.image (sectionIn args)) = r' at hwrite
  cases hwrite with
  | made hu =>
    cases c.fault (sectionIn args) with
    | none => exact ⟨hu, rfl⟩
    | some fault =>
      dsimp only
      split
      · exact ⟨hu, rfl⟩
      · exact ⟨h, rfl⟩
  | refused cause =>
    cases c.fault (sectionIn args) with
    | none => exact ⟨h, rfl⟩
    | some fault =>
      dsimp only
      split
      · exact ⟨h, rfl⟩
      · exact ⟨h, rfl⟩

namespace Shelf

variable {shelf : Shelf}

theorem start_alike (shelf : Shelf) (h : t.Alike t') (name : Path) (args : List Path) :
    shelf.start t' name args = shelf.start t name args := by
  simp only [start, find, h.followPath_eq]

/-- **A shelf is uniform** if its programs are. -/
theorem bench_uniform (h : ∀ name p, shelf name = some p → p.Uniform) : shelf.bench.Uniform := by
  intro t t' halike name args
  have hcopy : ∀ t : FileTree, shelf.bench.copy t name args =
      (shelf.start t name args).map fun p => p args t := fun _ => rfl
  rw [hcopy, hcopy, shelf.start_alike halike]
  cases hstart : shelf.start t name args with
  | error fault => exact .refused fault
  | ok p =>
    obtain ⟨htree, hending⟩ := h name p (eq_some_of_start hstart) halike args
    have hresult : p args t' = ((p args t').1, (p args t).2) := Prod.ext rfl hending
    show EndedAlike (.ok (p args t)) (.ok (p args t'))
    rw [hresult]
    exact .ended _ htree

theorem only_uniform {name : Name} {p : Program} (h : p.Uniform) : (only name p).bench.Uniform := by
  refine bench_uniform fun name' p' hp' => ?_
  obtain ⟨-, hp⟩ := Option.ite_none_right_eq_some.1 hp'
  obtain rfl := Option.some.inj hp
  exact h

end Shelf

/-! ## Builds -/

namespace Build

/-- **The extractor of a build** is uniform, if the bench is. -/
theorem extractor_uniform (b : Build) (hbench : bench.Uniform) : (b.extractor bench).Uniform := by
  intro t t' h turn sectionName destination
  have hcopy := hbench h b.copier (b.copyArgs sectionName destination)
  unfold Extractor.act Extractor.starts extractor
  dsimp only
  generalize bench.copy t b.copier (b.copyArgs sectionName destination) = r,
    bench.copy t' b.copier (b.copyArgs sectionName destination) = r' at hcopy
  cases hcopy with
  | ended ending hu => exact ⟨hu, rfl, rfl⟩
  | refused cause => exact ⟨h, rfl, rfl⟩

end Build
end FaultPlan
