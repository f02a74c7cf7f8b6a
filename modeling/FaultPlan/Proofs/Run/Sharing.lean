/-
  Sections whose blobs share a file.

  Paths are compared by their components, so that `a//b` and `a/./b` are the same path, though they
  are written in different ways (`Path.Same`).  The path of a blob is that of the directory with the
  name of the blob's file at its end.  So two blobs have one path exactly if their sections have one
  name, and the same path exactly if the names of their files are the same path (`blobPath_inj`,
  `same_blobPath_iff`).  A listing may name sections alike, and nothing tells them apart then.

  Blobs with different paths have different files if nothing in the directory leads one of the paths
  on.  Later calls of an extractor that keeps to its destination then leave the file of an earlier
  section alone (`Extractor.Extracts.read_kept`, `blob_files_kept_apart_by_names`).  A link, a
  directory that the name of a section goes through, or an extractor that goes astray, all make
  different paths share a file (`sections_share_files`).
-/
import Mathlib.Data.List.Nodup
import FaultPlan.Proofs.Run.Namespace

namespace FaultPlan

/-! ## Paths -/

/-- The paths have the same components, and both or neither begin at the root. -/
def Path.Same (path path' : Path) : Prop :=
  (Route.ofPath path).absolute = (Route.ofPath path').absolute ∧
    (Route.ofPath path).components = (Route.ofPath path').components

instance (path path' : Path) : Decidable (path.Same path') :=
  inferInstanceAs (Decidable (_ ∧ _))

namespace Route

variable {dir file : Path}

/-- The components of a path are the names that lead on, after a dot that begins a relative path. -/
theorem components_eq (r : Route) : r.components =
    (if r.absolute = false ∧ r.names.head? = some here then [here] else []) ++
      r.names.filter (! isHere ·) := by
  unfold components
  split
  · next habsolute hnames =>
    rw [habsolute, hnames]
    rfl
  · next hother =>
    rw [if_neg, List.nil_append]
    rintro ⟨habsolute, hhead⟩
    obtain ⟨rest, hnames⟩ := List.head?_eq_some_iff.1 hhead
    exact hother rest habsolute hnames

theorem filter_names (path : Path) :
    (ofPath path).names.filter (! isHere ·) = (steps path).filter (! isHere ·) := by
  rw [names_ofPath]
  split
  · rw [List.filter_append]
    exact List.append_nil _
  · rfl

theorem head?_names (path : Path) : (ofPath path).names.head? = (steps path).head? := by
  rw [names_ofPath]
  split
  · next h =>
    rw [List.head?_append_of_ne_nil _ (by simpa using (Bool.and_eq_true_iff.1 h).2)]
  · rfl

/-- Where the first name leads on, all components are names that do. -/
theorem components_of_steps {first : Name} {more : List Name} (hfile : steps file = first :: more)
    (hfirst : ¬ isHere first = true) :
    (ofPath file).components = (steps file).filter (! isHere ·) := by
  have hhere : first ≠ here := by
    rintro rfl
    exact hfirst rfl
  rw [components_eq, head?_names, filter_names, hfile, if_neg (by simp [hhere]), List.nil_append]

/-- A joined path has the components of the directory and then those of the file, if the file begins
    with a name that leads on. -/
theorem components_joinPath {first : Name} {more : List Name} (hfile : steps file = first :: more)
    (hfirst : ¬ isHere first = true) :
    (ofPath (joinPath dir file)).components = (ofPath dir).components ++ (ofPath file).components := by
  by_cases hdir : dir = []
  · subst hdir
    rfl
  have hhead : (ofPath dir).absolute = false → (steps dir ++ steps file).head? = (steps dir).head? := by
    intro habsolute
    -- a relative path that is not empty has a name
    have hne : steps dir ≠ [] := fun hnil =>
      hdir (eq_nil_of_names (by rw [names_ofPath, hnil]; simp) habsolute)
    exact List.head?_append_of_ne_nil _ hne
  rw [components_of_steps hfile hfirst, components_eq, components_eq, filter_names, filter_names,
    head?_names, head?_names, steps_joinPath, List.filter_append, List.append_assoc,
    absolute_joinPath hdir]
  congr 1
  exact if_congr (and_congr_right fun habsolute => by rw [hhead habsolute]) rfl rfl

end Route

variable {storage : Storage} {o : Options} {source : Source} {x : Extractor} {dir : Path}
  {t t' : FileTree} {sections : List LoadableSection}

theorem blobPath_inj {name name' : String} : blobPath dir name = blobPath dir name' ↔ name = name' := by
  rw [blobPath, blobPath, Route.joinPath_inj, Path.ofText, Path.ofText, Utf8.encode_inj,
    String.append_right_inj]

/-- **Two blobs have the same path** exactly if the names of their files are the same path. -/
theorem same_blobPath_iff {name name' : String} : (blobPath dir name).Same (blobPath dir name') ↔
    (Path.ofText (blobStem ++ name)).Same (Path.ofText (blobStem ++ name')) := by
  have hcomponents : ∀ name : String, (Route.ofPath (blobPath dir name)).components =
      (Route.ofPath dir).components ++ (Route.ofPath (blobStem ++ name : String)).components := by
    intro name
    obtain ⟨more, hsteps, -⟩ := steps_blob name
    exact Route.components_joinPath hsteps (not_isHere_of_isBlobName (isBlobName_blobHead name)).1
  have habsolute : ∀ name : String, (Route.ofPath (blobStem ++ name : String)).absolute = false := by
    intro name
    exact beq_eq_false_iff_ne.2 (FileTree.head?_blob_ne_slash name)
  have hjoined : (Route.ofPath (blobPath dir name)).absolute =
      (Route.ofPath (blobPath dir name')).absolute := by
    by_cases hdir : dir = []
    · subst hdir
      exact (habsolute name).trans (habsolute name').symm
    · rw [blobPath, blobPath, Route.absolute_joinPath hdir, Route.absolute_joinPath hdir]
  rw [Path.Same, Path.Same, hcomponents, hcomponents, List.append_cancel_left_eq, habsolute, habsolute]
  exact and_congr_left fun _ => iff_of_true hjoined rfl

/-- Names without slashes are the same path only if they are the same name. -/
theorem same_blob_iff {name name' : String} (h : '/' ∉ name.toList) (h' : '/' ∉ name'.toList) :
    (Path.ofText (blobStem ++ name)).Same (Path.ofText (blobStem ++ name')) ↔ name = name' := by
  have hone : ∀ {name : String}, '/' ∉ name.toList →
      (Route.ofPath (blobStem ++ name : String)).components = [Path.ofText (blobStem ++ name)] := by
    intro name hname
    obtain ⟨more, hsteps, hmore⟩ := steps_blob name
    obtain rfl := hmore hname
    have hfirst := (not_isHere_of_isBlobName (isBlobName_blobHead name)).1
    rw [Route.components_of_steps hsteps hfirst, hsteps, List.filter_cons_of_pos (by simpa using hfirst),
      blobHead_of_no_slash hname]
    rfl
  constructor
  · rintro ⟨-, hsame⟩
    rw [hone h, hone h', List.singleton_inj, Path.ofText, Path.ofText, Utf8.encode_inj,
      String.append_right_inj] at hsame
    exact hsame
  · rintro rfl
    exact ⟨rfl, rfl⟩

/-- Nothing that stands in the directory leads the blob path of one of the sections on. -/
def FileTree.LeadsNoneOn (t : FileTree) (dir : Path) (sections : List LoadableSection) : Prop :=
  ∀ place, t.home? dir = some place → ∀ s ∈ sections, ¬ t.LeadsOn place s.name

theorem FileTree.SameBut.leadsNoneOn {S : Place → Prop} (h : t.SameBut S t')
    (hon : t.LeadsNoneOn dir sections) : t'.LeadsNoneOn dir sections := by
  intro place hhome s hs
  rw [h.home?_eq] at hhome
  rw [h.leadsOn_iff]
  exact hon place hhome s hs

/-! ## Files -/

/-- **Later calls** leave the file of a section alone, if none is for a section of that name and no
    path is led on. -/
theorem Extractor.Extracts.read_kept (hx : x.Contained) {turn : Nat} {s : LoadableSection}
    {after : List LoadableSection} (h : x.Extracts dir turn after t t')
    (hnames : ∀ s' ∈ after, s'.name ≠ s.name) (hon : t.LeadsNoneOn dir (s :: after))
    {contents : Bytes} (hread : t.read (blobPath dir s.name) = .ok contents) :
    t'.read (blobPath dir s.name) = .ok contents := by
  obtain ⟨p, hl⟩ := FileTree.read_eq_ok_iff.1 hread
  obtain ⟨place, hhome, ⟨hslash, hp⟩ | hled⟩ := FileTree.followPath_blobPath hl
  · have hframe := h.frame (hx.keepsTo t)
    refine FileTree.read_eq_ok_iff.2 ⟨p, hframe.followPath_file ?_ hl⟩
    rintro ⟨s', hs', htarget⟩
    obtain ⟨place', hhome', ⟨hslash', hp'⟩ | hled'⟩ := FileTree.target?_blobPath htarget
    · -- both stand in the directory, under names of their own
      obtain rfl := Option.some.inj (hhome.symm.trans hhome')
      have hheads := hp'.symm.trans hp
      rw [blobHead_of_no_slash hslash, blobHead_of_no_slash hslash'] at hheads
      have hlast := List.singleton_inj.1 (List.append_cancel_left hheads)
      exact hnames s' hs' ((String.append_right_inj _).1 (Utf8.encode_inj.1 hlast))
    · exact hon place' hhome' s' (List.mem_cons_of_mem s hs') hled'
  · exact absurd hled (hon place hhome s List.mem_cons_self)

/-- **The files of sections are kept apart by their names.**  The blobs are those of the loadable
    sections of the listing in order.  Two of them have one path, byte for byte, exactly if they have
    one name, and the same path exactly if the names of their files are the same path, which names
    without slashes are only if they are equal.  So all paths are different exactly if all names of
    files are.  If the extractor changes at most what its destination leads to, later sections have
    other names, and nothing in the directory leads any of the paths on, then what the path of a
    section leads to after its extraction is still there in the end. -/
theorem blob_files_kept_apart_by_names {c : Configuration}
    (hc : (derive storage o source x dir t).outcome = .ok c) :
    ∃ text headers, source .sectionHeaders = .ok text ∧ SectionHeader.ofListing text = .ok headers ∧
      let d := derive storage o source x dir t
      let sections := SectionHeader.loadable headers
      let file (s : LoadableSection) := Path.ofText ("code_section" ++ s.name)
      c.blobs = sections.map (·.blobIn dir) ∧
      (∀ b ∈ c.blobs, ∀ b' ∈ c.blobs, (b.path = b'.path ↔ b.name = b'.name) ∧
        (b.path.Same b'.path ↔
          (Path.ofText ("code_section" ++ b.name)).Same (Path.ofText ("code_section" ++ b'.name))) ∧
        ('/' ∉ b.name.toList → '/' ∉ b'.name.toList → (b.path.Same b'.path ↔ b.name = b'.name))) ∧
      ((c.blobs.map (·.path)).Nodup ↔ (sections.map (·.name)).Nodup) ∧
      (c.blobs.Pairwise (fun b b' => ¬ b.path.Same b'.path) ↔
        sections.Pairwise fun s s' => ¬ (file s).Same (file s')) ∧
      (x.Contained → ∀ before s after, sections = before ++ s :: after →
        ∃ cleared extracted, clearBlobs storage dir t = (cleared, .ok ()) ∧
          x.Extracts dir 0 (before ++ [s]) cleared extracted ∧
          x.Extracts dir (before.length + 1) after extracted d.tree ∧
          ((∀ s' ∈ after, s'.name ≠ s.name) → t.LeadsNoneOn dir (s :: after) →
            ∀ contents, extracted.read (blobPath dir s.name) = .ok contents →
              d.tree.read (blobPath dir s.name) = .ok contents)) := by
  obtain ⟨a, cleared, t', ha, hclear, hrow, hderive⟩ := derive_of_ok hc
  obtain ⟨text, headers, htext, hheaders, hsections⟩ := ha.sections
  have hblobs : c.blobs = a.sections.map (·.blobIn dir) := by
    rw [hderive] at hc
    rw [← Except.ok.inj hc]
    rfl
  refine ⟨text, headers, htext, hheaders, ?_⟩
  rw [hsections]
  refine ⟨hblobs, ?_, ?_, ?_, ?_⟩
  · rw [hblobs]
    intro b hb b' hb'
    obtain ⟨s, -, rfl⟩ := List.mem_map.1 hb
    obtain ⟨s', -, rfl⟩ := List.mem_map.1 hb'
    exact ⟨blobPath_inj, same_blobPath_iff,
      fun h h' => same_blobPath_iff.trans (same_blob_iff h h')⟩
  · have hpaths : c.blobs.map (·.path) = (a.sections.map (·.name)).map (blobPath dir) := by
      rw [hblobs, List.map_map, List.map_map]
      rfl
    rw [hpaths, List.nodup_map_iff fun _ _ => blobPath_inj.1]
  · rw [hblobs, List.pairwise_map]
    exact List.Pairwise.iff fun s s' => not_congr same_blobPath_iff
  · intro hx before s after hsplit
    rw [hsplit, List.append_cons] at hrow
    obtain ⟨extracted, hbefore, hafter⟩ := hrow.split
    rw [Nat.zero_add, List.length_append, List.length_singleton] at hafter
    have htree : (derive storage o source x dir t).tree = t' := congrArg Derivation.tree hderive
    rw [htree]
    refine ⟨cleared, extracted, hclear, hbefore, hafter, fun hnames hon contents hread => ?_⟩
    have hcleared := FileTree.clearBlobs_sameBut storage dir t
    rw [hclear] at hcleared
    have hsofar := hcleared.andThen (hbefore.frame (hx.keepsTo cleared))
    exact hafter.read_kept hx hnames (hsofar.leadsNoneOn hon) hread

/-- Two sections of different names have different paths. -/
theorem blob_files_kept_apart_by_names_two :
    let o := (Options.new "main").withHalt "win"
    let source := Source.ofTexts "Tag_CPU_name:\"6-M\"" "flash 0 100\nram 200 10\n"
      "10 g F main\n40 g F win\n" "0 .a 8 0 0 0 2\nALLOC\n1 .b 8 100 0 0 2\nALLOC\n"
    let copier : Copier := ⟨Utf8.encode, fun _ => none, ⟨[], [], .code 1⟩⟩
    let x := (Build.mk .arm "elf" "map").extractor (Shelf.only "arm-none-eabi-objcopy" copier.run).bench
    let d := derive .plain o source x "out" (FileTree.empty.put ["out"] .directory)
    ∃ c, d.outcome = .ok c ∧ (c.blobs.map (·.name)) = [".a", ".b"] ∧
      c.blobs.Pairwise fun b b' => ¬ b.path.Same b'.path := by
  intro o source copier x d
  have hc : d.outcome = .ok ⟨.armv6m, ⟨⟨0, 0x100⟩, ⟨0x200, 0x10⟩⟩, 0x10, [⟨"win", 0x40⟩], [],
      [⟨".a", 0, "out/code_section.a"⟩, ⟨".b", 0x100, "out/code_section.b"⟩], none⟩ := by
    decide +kernel
  obtain ⟨-, -, -, -, -, hpaths, -⟩ := blob_files_kept_apart_by_names hc
  refine ⟨_, hc, rfl, List.pairwise_pair.2 fun hsame => ?_⟩
  obtain ⟨-, -, hnames⟩ := hpaths _ List.mem_cons_self _ (List.mem_cons_of_mem _ List.mem_cons_self)
  exact absurd ((hnames (by decide) (by decide)).1 hsame) (by decide)

/-- **Sections may share a file.**  Two sections of one name have one path.  Two names may be written
    differently and be the same path.  Two paths lead to one file through a directory that the name of
    a section goes through, or through a link, and the first section is overwritten by the second.  So
    it is when an extractor writes where it was not told to. -/
theorem sections_share_files :
    let o := (Options.new "main").withHalt "win"
    let source (first second : String) := Source.ofTexts "Tag_CPU_name:\"6-M\""
      "flash 0 100\nram 200 10\n" "10 g F main\n40 g F win\n"
      ("0 " ++ first ++ " 8 0 0 0 2\nALLOC\n1 " ++ second ++ " 8 100 0 0 2\nALLOC\n")
    let copier : Copier := ⟨Utf8.encode, fun _ => none, ⟨[], [], .code 1⟩⟩
    let x := (Build.mk .arm "elf" "map").extractor (Shelf.only "arm-none-eabi-objcopy" copier.run).bench
    let astray : Extractor := .ofAct fun turn name _ => x turn name "out/code_section.a"
    let t := FileTree.empty.put ["out"] .directory
    let nested := t.put ["out", "code_section.d"] .directory
    let linked := t.put ["out", "code_section.b"] (.link "code_section.a")
    let paths (d : Derivation) : Except Failure (List Path) :=
      d.outcome.map fun c => c.blobs.map (·.path)
    let first (d : Derivation) := d.tree.read "out/code_section.a"
    x.Contained ∧
      paths (derive .plain o (source ".a" ".a") x "out" t)
          = .ok ["out/code_section.a", "out/code_section.a"] ∧
      (paths (derive .plain o (source ".d/x" ".d//x") x "out" nested)
          = .ok ["out/code_section.d/x", "out/code_section.d//x"] ∧
        Path.Same "out/code_section.d/x" "out/code_section.d//x") ∧
      (paths (derive .plain o (source ".a" ".d/../code_section.a") x "out" nested)
          = .ok ["out/code_section.a", "out/code_section.d/../code_section.a"] ∧
        first (derive .plain o (source ".a" ".d/../code_section.a") x "out" nested)
          = .ok (Utf8.encode ".d/../code_section.a")) ∧
      (paths (derive .plain o (source ".a" ".b") x "out" linked)
          = .ok ["out/code_section.a", "out/code_section.b"] ∧
        first (derive .plain o (source ".a" ".b") x "out" linked) = .ok (Utf8.encode ".b")) ∧
      paths (derive .plain o (source ".a" ".b") astray "out" t)
          = .ok ["out/code_section.a", "out/code_section.b"] ∧
        first (derive .plain o (source ".a" ".b") astray "out" t) = .ok (Utf8.encode ".b") := by
  intro o source copier x astray t nested linked paths first
  refine ⟨Build.extractor_contained _ (Shelf.only_confined copier.run_confined), ?_⟩
  decide +kernel

end FaultPlan
