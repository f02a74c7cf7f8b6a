/-
  Blobs of earlier derivations, and what they do to a later one.

  Trees that differ in nothing but such blobs are alike once these are cleared
  (`FileTree.SameBut.cleared_alike`).  From there on a derivation does the same in both, whether it
  succeeds or has to discard what it made (`derivation_ignores_stale_blobs`).

  What is left of an earlier derivation matters where it cannot be cleared.  Then the derivation is
  refused; it has taken away blobs at most.  And a file that is no blob, though its name begins like
  one, is there in the end as it was in the beginning (`stale_files_that_matter`).
-/
import FaultPlan.Proofs.Bench.Answers
import FaultPlan.Proofs.Run.Derived
import FaultPlan.Proofs.Section.Listed

namespace FaultPlan

variable {storage : Storage} {o : Options} {source : Source} {x : Extractor} {dir : Path}
  {t t' : FileTree} {place : Place} {a : Analysis}

/-! ## Clearing -/

/-- A blob could stand at the place, directly in the directory that the path leads to. -/
def FileTree.StalePlace (t : FileTree) (dir : Path) (p : Place) : Prop :=
  ∃ place name, t.directoryAt dir = .ok place ∧ p = place ++ [name] ∧ Route.IsName name ∧
    isBlobName name = true

/-- The files of a directory that are named like blobs are blobs. -/
theorem FileTree.StalePlace.isBlobIn {p : Place} {contents : Bytes} (h : t.StalePlace dir p)
    (hplace : t.directoryAt dir = .ok place) : FaultPlan.isBlobIn place p (.file contents) = true := by
  obtain ⟨place', name, hplace', rfl, hname⟩ := h
  obtain rfl := Except.ok.inj (hplace.symm.trans hplace')
  exact isBlobIn_iff.2 ⟨name, contents, rfl, rfl, hname⟩

/-- **Clearing** makes trees alike that differ in blobs only. -/
theorem FileTree.SameBut.cleared_alike (h : t.SameBut (t.StalePlace dir) t')
    (hplace : t.directoryAt dir = .ok place) :
    (t.removeLeaves (FaultPlan.isBlobIn place)).Alike
      (t'.removeLeaves (FaultPlan.isBlobIn place)) where
  cwd := h.cwd
  get? p := by
    rw [get?_removeLeaves, get?_removeLeaves]
    by_cases hp : t.StalePlace dir p
    · refine Option.ext fun e => ?_
      rw [Option.filter_eq_some_iff, Option.filter_eq_some_iff]
      cases e with
      | directory => exact and_congr_left fun _ => h.directory p
      | link target => exact and_congr_left fun _ => h.link p target
      | file contents =>
        -- a file is taken away from either tree
        rw [hp.isBlobIn hplace]
        exact iff_of_false (fun hfile => nomatch hfile.2) (fun hfile => nomatch hfile.2)
    · rw [h.same p hp]

/-! ## Derivations -/

/-- A derivation whose directory cannot be cleared ends there, and has taken away blobs at most. -/
theorem derive_of_not_clearable (x : Extractor) (ha : (source.analyze o).outcome = .ok a)
    (hplace : t.directoryAt dir = .ok place) (hclear : ¬ t.Clearable storage dir) :
    ∃ fault left, t.Obstructs storage dir fault ∧
      derive storage o source x dir t =
        ⟨(source.analyze o).asked, [], (source.analyze o).started, [], left, .error (.io fault)⟩ ∧
      left.cwd = t.cwd ∧ ∀ p, left.get? p = t.get? p ∨ t.HoldsBlob dir p ∧ left.get? p = none := by
  obtain ⟨done, fault, hobstructs, hend⟩ := (FileTree.clearBlobs_of_directoryAt storage hplace).2 hclear
  have hsame := FileTree.clearBlobs_sameBut storage dir t
  have hget := FileTree.get?_clearBlobs storage dir t
  rw [hend] at hsame hget
  exact ⟨fault, _, hobstructs, derive_of_uncleared ha hend, hsame.cwd, hget⟩

/-- **A derivation ignores what is left of earlier ones**, if that can be cleared.  In trees that
    differ in nothing but blob files of the directory it ends alike, makes the same calls and leaves
    trees that hold the same.  Where the directory of one of the trees cannot be cleared, because it is
    not listed to its end or there is an objection to removing one of its blobs, the derivation in this
    tree fails for that reason, before any call of the extractor, and leaves all but blobs as it
    was. -/
theorem derivation_ignores_stale_blobs (storage : Storage) (hx : x.Uniform) (ha : (source.analyze o).outcome = .ok a)
    (hplace : t.directoryAt dir = .ok place) (h : t.SameBut (t.StalePlace dir) t') :
    let d := derive storage o source x dir t
    let d' := derive storage o source x dir t'
    (t.Clearable storage dir → t'.Clearable storage dir →
      d'.outcome = d.outcome ∧ d'.asked = d.asked ∧ d'.calls = d.calls ∧ d'.started = d.started ∧
        d'.leftovers = d.leftovers ∧ d.tree.Alike d'.tree) ∧
    ∀ u, u = t ∨ u = t' → ¬ u.Clearable storage dir →
      let r := derive storage o source x dir u
      (∃ fault, u.Obstructs storage dir fault ∧ r.outcome = .error (.io fault)) ∧ r.calls = [] ∧
        r.started = (source.analyze o).started ∧ r.tree.cwd = u.cwd ∧
        ∀ p, r.tree.get? p = u.get? p ∨ u.HoldsBlob dir p ∧ r.tree.get? p = none := by
  intro d d'
  have hplace' : t'.directoryAt dir = .ok place := h.embeds.directoryAt hplace
  refine ⟨fun hclear hclear' => ?_, fun u hu hclear => ?_⟩
  · have hcleared := (FileTree.clearBlobs_of_directoryAt storage hplace).1 hclear
    have hcleared' := (FileTree.clearBlobs_of_directoryAt storage hplace').1 hclear'
    have hd : d = _ := derive_of_cleared ha hcleared
    have hd' : d' = _ := derive_of_cleared ha hcleared'
    have hextract := extractAfter_alike storage hx dir a.sections
      (h.cleared_alike hplace) []
    rw [hd, hd']
    refine ⟨?_, rfl, hextract.calls, ?_, hextract.leftovers, hextract.tree⟩
    · exact congrArg (fun r => (Except.mapError Failure.ofMetadata r).map (a.configuration o))
        hextract.outcome
    · exact congrArg ((source.analyze o).started ++ ·) hextract.started
  · have hplace'' : u.directoryAt dir = .ok place := by
      rcases hu with rfl | rfl
      · exact hplace
      · exact hplace'
    obtain ⟨fault, left, hobstructs, hderive, hcwd, hget⟩ :=
      derive_of_not_clearable x ha hplace'' hclear
    rw [hderive]
    exact ⟨⟨fault, hobstructs, rfl⟩, rfl, rfl, hcwd, hget⟩

/-- A blob of an earlier derivation is replaced, and nothing tells that there was one. -/
theorem derivation_ignores_stale_blobs_replaced :
    let o := (Options.new "main").withHalt "win"
    let source := Source.ofTexts "Tag_CPU_name:\"6-M\"" "flash 0 100\nram 200 10\n"
      "10 g F main\n40 g F win\n" "0 .text 8 0 0 0 2\nALLOC\n"
    let copier : Copier := ⟨Utf8.encode, fun _ => none, ⟨[], [], .code 1⟩⟩
    let x := (Build.mk .arm "elf" "map").extractor (Shelf.only "arm-none-eabi-objcopy" copier.run).bench
    let t := FileTree.empty.put ["out"] .directory
    let t' := t.put ["out", "code_section.text"] (.file (Utf8.encode "stale"))
    (derive .plain o source x "out" t').outcome = (derive .plain o source x "out" t).outcome ∧
      (derive .plain o source x "out" t').tree.get? ["out", "code_section.text"] =
        some (.file (Utf8.encode ".text")) := by
  intro o source copier x t t'
  have hplace : t.directoryAt "out" = .ok ["out"] := by rfl
  have hplace' : t'.directoryAt "out" = .ok ["out"] := by rfl
  obtain ⟨a, ha⟩ : ∃ a, (source.analyze o).outcome = .ok a := ⟨_, by rfl⟩
  have hset : t.SameBut (t.StalePlace "out") t' := by
    refine (FileTree.SameBut.of_set (by simp) (by rfl) (Or.inl (by rfl)) _).mono ?_
    rintro p rfl
    exact ⟨["out"], "code_section.text", hplace, rfl, by decide, by decide⟩
  have hclear : t.Clearable .plain "out" :=
    (FileTree.clearBlobs_eq_ok_iff hplace).1 (by decide +kernel)
  have hclear' : t'.Clearable .plain "out" :=
    (FileTree.clearBlobs_eq_ok_iff hplace').1 (by decide +kernel)
  have hx : x.Uniform := Build.extractor_uniform _ (Shelf.only_uniform copier.run_uniform)
  obtain ⟨hsame, -⟩ := derivation_ignores_stale_blobs .plain hx ha hplace hset
  obtain ⟨houtcome, -, -, -, -, htree⟩ := hsame hclear hclear'
  refine ⟨houtcome, (htree.get? _).trans ?_⟩
  decide +kernel

/-! ## Where it matters -/

/-- Without sections a derivation leaves what clearing left. -/
theorem derive_of_no_sections {cleared : FileTree} (ha : (source.analyze o).outcome = .ok a)
    (hsections : a.sections = []) (hclear : clearBlobs storage dir t = (cleared, .ok ())) :
    (∃ c, (derive storage o source x dir t).outcome = .ok c) ∧
      (derive storage o source x dir t).tree = cleared := by
  rw [derive_of_cleared ha hclear, hsections]
  exact ⟨⟨_, rfl⟩, rfl⟩

/-- **What is left of earlier derivations can matter.**  No section is to be loaded.  In the empty
    directory a derivation succeeds, whatever the storage.  In a directory with a blob it fails if the
    path of the blob is too long, or if the storage refuses to remove it.  Otherwise it succeeds, and
    leaves a file there whose name begins like a blob's but is no text. -/
theorem stale_files_that_matter :
    let o := (Options.new "main").withHalt "win"
    let source := Source.ofTexts "Tag_CPU_name:\"6-M\"" "flash 0 100\nram 200 10\n"
      "10 g F main\n40 g F win\n" ""
    let x := (Build.mk .arm "elf" "map").extractor (Shelf.bench fun _ => none)
    let t := FileTree.empty.put ["d"] .directory
    let refusing := Storage.refusing .permissionDenied nofun
    x.Uniform ∧ (∃ a, (source.analyze o).outcome = .ok a) ∧ t.directoryAt "d" = .ok ["d"] ∧
      t.SameBut (fun p => p = (["d", "code_section.old"] : Place) ∨
        p = (["d", Path.ofText "code_section" ++ [0xFF]] : Place)) FileTree.stale ∧
      ((∃ c, (derive .plain o source x (dotted 2040) t).outcome = .ok c) ∧
        (derive .plain o source x (dotted 2040) FileTree.stale).outcome = .error (.io .nameTooLong)) ∧
      ((∃ c, (derive refusing o source x "d" t).outcome = .ok c) ∧
        (derive refusing o source x "d" FileTree.stale).outcome = .error (.io .permissionDenied)) ∧
      ((derive .plain o source x "d" t).tree = t ∧
        (∃ c, (derive .plain o source x "d" FileTree.stale).outcome = .ok c) ∧
        (derive .plain o source x "d" FileTree.stale).tree.get?
          ["d", Path.ofText "code_section" ++ [0xFF]] = some (.file [])) := by
  intro o source x t refusing
  obtain ⟨a, ha, hsections⟩ : ∃ a, (source.analyze o).outcome = .ok a ∧ a.sections = [] :=
    ⟨_, by rfl, by rfl⟩
  have hx : x.Uniform := Build.extractor_uniform _ (Shelf.bench_uniform fun _ _ h => by cases h)
  have hd : t.directoryAt "d" = .ok ["d"] := by rfl
  have hdotted : t.directoryAt (dotted 2040) = .ok ["d"] :=
    FileTree.directoryAt_dotted (by decide) rfl (by rfl)
  have hstale : FileTree.stale.directoryAt "d" = .ok ["d"] := by rfl
  have hstaleDotted : FileTree.stale.directoryAt (dotted 2040) = .ok ["d"] :=
    FileTree.directoryAt_dotted (by decide) rfl (by decide +kernel)
  -- the directory without files is cleared at once
  have hclear : ∀ {storage : Storage} {dir : Path}, storage.list t ["d"] = ⟨[], none⟩ →
      t.directoryAt dir = .ok ["d"] → clearBlobs storage dir t = (t, .ok ()) := by
    intro storage dir hlist hdir
    rw [clearBlobs, hdir]
    dsimp only
    rw [hlist]
    rfl
  have hplain : Storage.plain.objection? (joinPath "d" "code_section.old") = none := by decide
  have hrefused : refusing.objection? (joinPath "d" "code_section.old") = some .permissionDenied := by
    decide
  refine ⟨hx, ⟨a, ha⟩, hd, ?_, ⟨?_, ?_⟩, ⟨?_, ?_⟩, ?_, ?_⟩
  · have hold := FileTree.SameBut.of_set (t := t) (p := ["d", "code_section.old"]) (by simp) (by rfl)
      (Or.inl (by rfl)) (Utf8.encode "stale")
    refine hold.andThen (FileTree.SameBut.of_set (by simp) (by rfl) (Or.inl (by decide +kernel)) [])
  · exact (derive_of_no_sections ha hsections (hclear (by rfl) hdotted)).1
  · have hend := FileTree.clearBlobs_stale .plain hstaleDotted rfl
    rw [FileTree.objection?_dotted .plain (by decide)] at hend
    rw [derive_of_uncleared ha hend]
  · exact (derive_of_no_sections ha hsections (hclear (by rfl) hd)).1
  · have hend := FileTree.clearBlobs_stale refusing hstale rfl
    rw [hrefused] at hend
    rw [derive_of_uncleared ha hend]
  · exact (derive_of_no_sections ha hsections (hclear (by rfl) hd)).2
  · have hend := FileTree.clearBlobs_stale .plain hstale rfl
    rw [hplain] at hend
    obtain ⟨hsome, hleft⟩ := derive_of_no_sections (x := x) ha hsections hend
    refine ⟨hsome, ?_⟩
    rw [hleft]
    decide +kernel

end FaultPlan
