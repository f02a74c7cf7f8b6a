/-
  Paths below a directory.

  A joined path has the names of the directory and then those of the file (`steps_joinPath`), so
  that its walk leads through the directory and goes on from there (`exists_home_of_walk`).  The
  directory is the one that the path of the directory leads to, or for the empty path the current
  one (`home?`).

  Blob paths are joined with a file name that begins with the stem, whatever the name of the section
  puts behind it.  From its directory the walk of a blob path takes one step with a name that begins
  so (`blobHead`).  It ends there, unless a link stands there, or a directory and the name of the
  section has a slash (`target?_blobPath`, `endOf?_blobPath`).
-/
import FaultPlan.Proofs.Files.Targets
import FaultPlan.Proofs.Text.Decoding
import FaultPlan.Section.Blob

namespace FaultPlan

/-! ## Names of paths -/

namespace Route

variable {path dir file : Path}

theorem names_ofPath (path : Path) : (ofPath path).names =
    if path.getLast? == some slash && !(steps path).isEmpty then steps path ++ [[]]
    else steps path := rfl

theorem ne_nil_of_mem_steps {name : Name} (h : name ∈ steps path) : name ≠ [] := by
  have hne := (List.mem_filter.1 h).2
  rintro rfl
  nomatch hne

theorem steps_append_slash (first second : Path) :
    steps (first ++ slash :: second) = steps first ++ steps second := by
  simp only [steps, Text.pieces_append_cut (p := (· == slash)) (c := slash) rfl, List.filter_append]

theorem steps_nil : steps [] = [] := rfl

/-- A joined path is the directory and the file, with one slash between them or none. -/
theorem joinPath_eq_append (dir : Path) :
    ∃ between, (between = [] ∨ between = [slash]) ∧ ∀ file, joinPath dir file = dir ++ between ++ file := by
  unfold joinPath
  split
  · next hlast =>
    obtain rfl := List.getLast?_eq_none_iff.1 hlast
    exact ⟨[], Or.inl rfl, fun file => rfl⟩
  next last _ =>
  by_cases hlast : last = slash
  · exact ⟨[], Or.inl rfl, fun file => by rw [if_pos hlast, List.append_nil]⟩
  · exact ⟨[slash], Or.inr rfl, fun file => by rw [if_neg hlast, List.append_assoc]; rfl⟩

/-- Different files of one directory have different paths. -/
theorem joinPath_inj {file' : Path} : joinPath dir file = joinPath dir file' ↔ file = file' := by
  obtain ⟨between, -, hjoin⟩ := joinPath_eq_append dir
  rw [hjoin, hjoin, List.append_cancel_left_eq]

/-- How a joined path reads: a directory that is not empty stands before the file, with one slash
    between them. -/
theorem exists_joinPath_eq (file : Path) (hdir : dir ≠ []) : ∃ before,
    joinPath dir file = before ++ slash :: file ∧ (dir = before ∨ dir = before ++ [slash]) := by
  unfold joinPath
  split
  · next hlast => exact absurd (List.getLast?_eq_none_iff.1 hlast) hdir
  next last hlast =>
  by_cases hslash : last = slash
  · obtain ⟨before, hbefore⟩ := List.getLast?_eq_some_iff.1 hlast
    rw [hslash] at hbefore
    exact ⟨before, by rw [if_pos hslash, hbefore, List.append_assoc]; rfl, Or.inr hbefore⟩
  · exact ⟨dir, if_neg hslash, Or.inl rfl⟩

/-- **A joined path has the names of the directory and then those of the file.** -/
theorem steps_joinPath (dir file : Path) : steps (joinPath dir file) = steps dir ++ steps file := by
  by_cases hdir : dir = []
  · subst hdir
    rfl
  obtain ⟨before, hjoin, rfl | hslash⟩ := exists_joinPath_eq file hdir
  · rw [hjoin, steps_append_slash]
  · rw [hjoin, steps_append_slash, hslash, steps_append_slash, steps_nil, List.append_nil]

theorem getLast?_joinPath (hfile : file ≠ []) : (joinPath dir file).getLast? = file.getLast? := by
  by_cases hdir : dir = []
  · subst hdir
    rfl
  obtain ⟨before, hjoin, -⟩ := exists_joinPath_eq file hdir
  rw [hjoin, List.append_cons, List.getLast?_append, List.getLast?_eq_some_getLast hfile]
  rfl

theorem names_joinPath (hfile : steps file ≠ []) :
    (ofPath (joinPath dir file)).names = steps dir ++ (ofPath file).names := by
  have hne : file ≠ [] := by
    rintro rfl
    exact hfile rfl
  have hall : steps dir ++ steps file ≠ [] := by simp [hfile]
  rw [names_ofPath, names_ofPath, steps_joinPath, getLast?_joinPath hne,
    List.isEmpty_eq_false_iff.2 hall, List.isEmpty_eq_false_iff.2 hfile]
  split
  · rw [List.append_assoc]
  · rfl

theorem absolute_joinPath (hdir : dir ≠ []) :
    (ofPath (joinPath dir file)).absolute = (ofPath dir).absolute := by
  obtain ⟨between, -, hjoin⟩ := joinPath_eq_append dir
  cases dir with
  | nil => exact absurd rfl hdir
  | cons b rest =>
    rw [hjoin]
    rfl

/-- The system takes a path that holds no NUL character and is not too long. -/
theorem parse_eq_ok_iff {r : Route} :
    parse path = .ok r ↔ hasNul path = false ∧ pathFits path = true ∧ r = ofPath path := by
  unfold parse
  cases hasNul path with
  | true => simp
  | false =>
    cases pathFits path with
    | false => simp
    | true => simp [eq_comm]

/-- A path that the system takes has a directory that it takes. -/
theorem parse_of_joinPath {r : Route} (h : parse (joinPath dir file) = .ok r) :
    parse dir = .ok (ofPath dir) ∧ r = ofPath (joinPath dir file) := by
  obtain ⟨rest, hrest⟩ : ∃ rest, joinPath dir file = dir ++ rest := by
    obtain ⟨between, -, hjoin⟩ := joinPath_eq_append dir
    exact ⟨between ++ file, by rw [hjoin, List.append_assoc]⟩
  obtain ⟨hnul, hfits, rfl⟩ := parse_eq_ok_iff.1 h
  refine ⟨parse_eq_ok_iff.2 ⟨?_, ?_, rfl⟩, rfl⟩
  · rw [← Bool.not_eq_true] at hnul ⊢
    simp only [hasNul, List.contains_iff_mem, hrest] at hnul ⊢
    exact fun hmem => hnul (List.mem_append_left _ hmem)
  · have hsize : (joinPath dir file).length ≤ 4095 := of_decide_eq_true hfits
    refine decide_eq_true ?_
    rw [hrest, List.length_append] at hsize
    omega

/-- A path without names is made of slashes. -/
theorem eq_slash_of_steps_eq_nil (h : steps path = []) : ∀ b ∈ path, b = slash := by
  unfold steps at h
  induction path with
  | nil => nofun
  | cons c cs ih =>
    by_cases hc : c = slash
    · subst hc
      have hpieces := Text.pieces_append_cut (p := (· == slash)) (c := slash) rfl [] cs
      rw [List.nil_append] at hpieces
      rw [hpieces] at h
      intro d hd
      rcases List.mem_cons.1 hd with rfl | hd
      · rfl
      · exact ih h d hd
    · -- a byte that is no slash begins a name
      obtain ⟨w, ws, hw⟩ := List.exists_cons_of_ne_nil (Text.pieces_ne_nil (· == slash) cs)
      have hpieces : Text.pieces (· == slash) ([c] ++ cs) = ([c] ++ w) :: ws :=
        Text.pieces_append_of_uncut (by simpa using hc) hw
      rw [List.singleton_append] at hpieces
      rw [hpieces] at h
      nomatch h

/-- A path that leads nowhere by itself is empty. -/
theorem eq_nil_of_names (hnames : (ofPath path).names = [])
    (habsolute : (ofPath path).absolute = false) : path = [] := by
  have hsteps : steps path = [] := by
    rw [names_ofPath] at hnames
    split at hnames
    · exact absurd hnames (by simp)
    · exact hnames
  cases path with
  | nil => rfl
  | cons c cs =>
    obtain rfl := eq_slash_of_steps_eq_nil hsteps c List.mem_cons_self
    nomatch habsolute

end Route

/-! ## Names of blobs -/

/-- The names of blob files are texts that begin with the stem. -/
theorem isBlobName_iff {name : Name} :
    isBlobName name = true ↔ ∃ rest : String, name = Path.ofText (blobStem ++ rest) := by
  unfold isBlobName Path.text?
  cases hname : Utf8.decode? name with
  | none =>
    refine ⟨nofun, ?_⟩
    rintro ⟨rest, rfl⟩
    rw [Path.ofText, Utf8.decode?_encode] at hname
    nomatch hname
  | some text =>
    dsimp only
    rw [Text.startsWith, List.isPrefixOf_iff_prefix]
    constructor
    · rintro ⟨rest, hrest⟩
      refine ⟨String.ofList rest, ?_⟩
      rw [Utf8.decode?_eq_some_iff.1 hname, Path.ofText, ← String.ofList_toList (s := text), ← hrest,
        String.ofList_append, String.ofList_toList]
    · rintro ⟨rest, rfl⟩
      rw [Path.ofText, Utf8.decode?_encode] at hname
      obtain rfl := Option.some.inj hname
      rw [String.toList_append]
      exact List.prefix_append _ _

theorem isBlobName_blob (sectionName : String) :
    isBlobName (Path.ofText (blobStem ++ sectionName)) = true := isBlobName_iff.2 ⟨sectionName, rfl⟩

/-- The name of a blob file is one that a directory may hold, were it not too long. -/
theorem not_isHere_of_isBlobName {name : Name} (h : isBlobName name = true) :
    ¬ Route.isHere name = true ∧ name ≠ Route.up := by
  constructor
  · intro hhere
    rcases Bool.or_eq_true_iff.1 hhere with hname | hname
    · rw [eq_of_beq hname] at h
      nomatch h
    · rw [eq_of_beq hname] at h
      nomatch h
  · rintro rfl
    nomatch h

theorem slash_mem_encode_iff {text : String} : slash ∈ Path.ofText text ↔ '/' ∈ text.toList :=
  Utf8.mem_encode_iff (by decide) (by decide) text

/-- The first name of a blob's path below its directory. -/
def blobHead (sectionName : String) : Name :=
  (Route.steps (Path.ofText (blobStem ++ sectionName))).headD []

example : blobHead ".text" = "code_section.text" ∧ blobHead ".d/../x" = "code_section.d" := by decide

/-- The first name is the stem with the beginning of the section's name. -/
theorem exists_steps_blob (sectionName : String) : ∃ (w : String) (more : List Name),
    Route.steps (Path.ofText (blobStem ++ sectionName)) = Path.ofText (blobStem ++ w) :: more ∧
      ('/' ∉ sectionName.toList → w = sectionName ∧ more = []) := by
  have hall : blobStem.toList.all (fun c => !(c == '/')) = true := by decide
  have hstem : ∀ c ∈ blobStem.toList, (c == '/') = false := fun c hc => by
    simpa using List.all_eq_true.1 hall c hc
  obtain ⟨w, ws, hw⟩ :=
    List.exists_cons_of_ne_nil (Text.pieces_ne_nil (· == '/') sectionName.toList)
  have hpieces := Text.pieces_append_of_uncut hstem hw
  -- the bytes are cut where the text is
  have hbytes := Utf8.pieces_encode (b := slash) (c := '/') (by decide) (by decide)
    (blobStem ++ sectionName).toList
  rw [String.toList_append, hpieces, List.map_cons] at hbytes
  have hfirst : (blobStem.toList ++ w).flatMap String.utf8EncodeChar =
      Path.ofText (blobStem ++ String.ofList w) := by
    rw [Path.ofText, Utf8.encode, String.toList_append, String.toList_ofList]
  refine ⟨String.ofList w, (ws.map (·.flatMap String.utf8EncodeChar)).filter (! ·.isEmpty), ?_,
    fun hslash => ?_⟩
  · have hne : Path.ofText (blobStem ++ String.ofList w) ≠ [] := by
      rw [Path.ofText, Utf8.encode_append]
      exact List.append_ne_nil_of_left_ne_nil (by decide) _
    rw [Route.steps, Path.ofText, Utf8.encode, String.toList_append, hbytes, hfirst, List.filter_cons,
      List.isEmpty_eq_false_iff.2 hne]
    rfl
  · have huncut : ∀ c ∈ sectionName.toList, (c == '/') = false := fun c hc =>
      beq_eq_false_iff_ne.2 fun h => hslash (h ▸ hc)
    rw [Text.pieces_of_uncut huncut] at hw
    obtain ⟨rfl, rfl⟩ := List.cons.inj hw
    exact ⟨String.ofList_toList, rfl⟩

theorem isBlobName_blobHead (sectionName : String) : isBlobName (blobHead sectionName) = true := by
  obtain ⟨w, more, hsteps, -⟩ := exists_steps_blob sectionName
  rw [blobHead, hsteps]
  exact isBlobName_blob w

theorem blobHead_of_no_slash {sectionName : String} (h : '/' ∉ sectionName.toList) :
    blobHead sectionName = Path.ofText (blobStem ++ sectionName) := by
  obtain ⟨w, more, hsteps, hone⟩ := exists_steps_blob sectionName
  rw [blobHead, hsteps, (hone h).1]
  rfl

theorem steps_blob (sectionName : String) : ∃ more,
    Route.steps (Path.ofText (blobStem ++ sectionName)) = blobHead sectionName :: more ∧
      ('/' ∉ sectionName.toList → more = []) := by
  obtain ⟨w, more, hsteps, hone⟩ := exists_steps_blob sectionName
  refine ⟨more, ?_, fun hfree => (hone hfree).2⟩
  rw [blobHead, hsteps]
  rfl

/-- The names of a blob's path below its directory: more than one if the name of the section has a
    slash, and only then. -/
theorem names_blob (sectionName : String) : ∃ more,
    (Route.ofPath (Path.ofText (blobStem ++ sectionName))).names = blobHead sectionName :: more ∧
      (more = [] ↔ '/' ∉ sectionName.toList) := by
  obtain ⟨more, hsteps, hone⟩ := steps_blob sectionName
  rw [Route.names_ofPath, hsteps]
  split
  · next hlast =>
    refine ⟨more ++ [[]], rfl, ⟨fun h => absurd h (by simp), fun hfree => ?_⟩⟩
    -- the slash at the end can only be the section's
    have hlast := eq_of_beq (Bool.and_eq_true_iff.1 hlast).1
    have hmem := slash_mem_encode_iff.1 (List.mem_of_getLast? hlast)
    rw [String.toList_append, List.mem_append] at hmem
    exact absurd (hmem.resolve_left (by decide)) hfree
  · next hlast =>
    refine ⟨more, rfl, ⟨?_, hone⟩⟩
    rintro rfl hmem
    refine hlast ?_
    -- nothing but slashes stands behind the first one
    obtain ⟨before, behind, hname⟩ := List.append_of_mem hmem
    have hsplit : Path.ofText (blobStem ++ sectionName) =
        Path.ofText (blobStem ++ String.ofList before) ++ slash :: Path.ofText (String.ofList behind) := by
      simp only [Path.ofText, Utf8.encode, String.toList_append, hname, String.toList_ofList,
        List.flatMap_append, List.flatMap_cons, List.append_assoc]
      rfl
    have hboth := hsteps
    obtain ⟨_, hbefore, -⟩ := steps_blob (String.ofList before)
    rw [hsplit, Route.steps_append_slash, hbefore] at hboth
    obtain ⟨-, hnil⟩ := List.cons.inj hboth
    have hbehind := Route.eq_slash_of_steps_eq_nil (List.append_eq_nil_iff.1 hnil).2
    rw [hsplit, List.getLast?_append, List.getLast?_cons]
    cases hc : (Path.ofText (String.ofList behind)).getLast? with
    | none => rfl
    | some c =>
      rw [hbehind c (List.mem_of_getLast? hc)]
      rfl

/-! ## Walks below a directory -/

namespace FileTree

variable {t : FileTree} {intent : Intent} {dir file : Path} {sectionName : String} {place p : Place}

/-- The directory below which the paths joined with `dir` lead. -/
def home? (t : FileTree) (dir : Path) : Option Place :=
  if dir = [] then some t.cwd else (t.directoryAt dir).toOption

/-- The empty path leads to no directory. -/
theorem ne_nil_of_directoryAt (h : t.directoryAt dir = .ok place) : dir ≠ [] := by
  rintro rfl
  nomatch h

theorem home?_of_directoryAt (hdir : dir ≠ []) :
    t.home? dir = some place ↔ t.directoryAt dir = .ok place := by
  rw [home?, if_neg hdir]
  cases t.directoryAt dir with
  | error fault => simp [Except.toOption]
  | ok q => simp [Except.toOption]

/-- The names of the directory lead to it. -/
theorem home?_of_walk {r : Route} (hrelative : file.head? ≠ some slash)
    (hr : Route.parse (joinPath dir file) = .ok r)
    (h : t.walk .find linkBudget (t.startOf r) (Route.steps dir ++ [[]])
      = .ok (.at place .directory)) : t.home? dir = some place := by
  obtain ⟨hparse, rfl⟩ := Route.parse_of_joinPath hr
  by_cases hdir : dir = []
  · subst hdir
    have hstart : t.startOf (Route.ofPath (joinPath [] file)) = t.cwd := by
      have habsolute : (Route.ofPath (joinPath [] file)).absolute = false :=
        beq_eq_false_iff_ne.2 hrelative
      rw [startOf, habsolute]
      rfl
    rw [hstart] at h
    obtain ⟨rfl, -⟩ := Landing.at.inj (Except.ok.inj ((walk_of_landed rfl).symm.trans h))
    rfl
  · have hstart : t.startOf (Route.ofPath (joinPath dir file)) = t.startOf (Route.ofPath dir) := by
      rw [startOf, startOf, Route.absolute_joinPath hdir]
    rw [hstart] at h
    refine (home?_of_directoryAt hdir).2 (directoryAt_eq_ok_iff.2
      (followPath_eq_ok_iff_walk.2 ⟨_, hparse, ?_, ?_⟩))
    · rintro ⟨hnames, habsolute⟩
      exact hdir (Route.eq_nil_of_names hnames habsolute)
    · rw [Route.names_ofPath]
      split
      · exact h
      · obtain ⟨q, hq, hwalk⟩ := walk_of_slash h
        obtain ⟨rfl, -⟩ := Landing.at.inj hq
        exact hwalk

/-- **The walk of a joined path** leads through the directory and goes on from there. -/
theorem exists_home_of_walk {r : Route} {more : List Name} {l : Landing}
    (hrelative : file.head? ≠ some slash)
    (hr : Route.parse (joinPath dir file) = .ok r) (hmore : more ≠ []) (hslash : more ≠ [[]])
    (h : t.walk intent linkBudget (t.startOf r) (Route.steps dir ++ more) = .ok l) :
    ∃ place left, t.home? dir = some place ∧ t.walk intent left place more = .ok l := by
  rcases walk_append hmore hslash with ⟨place, left, hhome, hrest⟩ | ⟨fault, -, hrefused⟩
  · exact ⟨place, left, home?_of_walk hrelative hr hhome, hrest.symm.trans h⟩
  · nomatch hrefused.symm.trans h

/-- What the first name of a walk comes to: it is the last one, a link stands there, or a directory
    from which the walk goes on. -/
theorem walk_cons {first : Name} {more : List Name} {budget : Nat} {l : Landing}
    (hhere : ¬ Route.isHere first = true) (hup : first ≠ Route.up)
    (h : t.walk intent budget place (first :: more) = .ok l) :
    (more = [] ∧ l.outline.1 = place ++ [first]) ∨
      (∃ target, t.get? (place ++ [first]) = some (.link target)) ∨
      (more ≠ [] ∧ t.get? (place ++ [first]) = some .directory) := by
  by_cases hgo : intent = .create ∧ more = [[]]
  · have hleg : t.leg intent place (first :: more) = _ := leg_refuses_slash hhere hup hgo
    nomatch (walk_of_refused hleg).symm.trans h
  have hleg : t.leg intent place (first :: more) = _ := leg_look hhere hup hgo
  cases hlook : t.look place first with
  | error fault =>
    rw [hlook] at hleg
    nomatch (walk_of_refused hleg).symm.trans h
  | ok found =>
    obtain ⟨-, hfound⟩ := look_eq_ok_iff.1 hlook
    rw [hlook] at hleg
    rcases found with _ | contents | - | target
    · by_cases hmore : more = []
      · subst hmore
        obtain rfl := Except.ok.inj ((walk_of_landed hleg).symm.trans h)
        exact Or.inl ⟨rfl, rfl⟩
      · nomatch (walk_of_refused (hleg.trans (if_neg hmore))).symm.trans h
    · by_cases hmore : more = []
      · subst hmore
        obtain rfl := Except.ok.inj ((walk_of_landed hleg).symm.trans h)
        exact Or.inl ⟨rfl, rfl⟩
      · nomatch (walk_of_refused (hleg.trans (if_neg hmore))).symm.trans h
    · by_cases hmore : more = []
      · subst hmore
        obtain rfl := Except.ok.inj ((walk_of_landed hleg).symm.trans h)
        exact Or.inl ⟨rfl, rfl⟩
      · exact Or.inr (Or.inr ⟨hmore, hfound⟩)
    · exact Or.inr (Or.inl ⟨target, hfound⟩)

/-! ## Blob paths -/

/-- Directly in the directory something stands under the first name of a blob's path that leads the
    path on. -/
def LeadsOn (t : FileTree) (place : Place) (sectionName : String) : Prop :=
  (∃ target, t.get? (place ++ [blobHead sectionName]) = some (.link target)) ∨
    ('/' ∈ sectionName.toList ∧ t.get? (place ++ [blobHead sectionName]) = some .directory)

namespace SameBut

variable {t' : FileTree} {S : Place → Prop}

theorem home?_eq (h : t.SameBut S t') (dir : Path) : t'.home? dir = t.home? dir := by
  by_cases hdir : dir = []
  · rw [home?, home?, if_pos hdir, if_pos hdir, h.cwd]
  · refine Option.ext fun place => ?_
    rw [home?_of_directoryAt hdir, home?_of_directoryAt hdir]
    exact ⟨h.symm.embeds.directoryAt, h.embeds.directoryAt⟩

theorem leadsOn_iff (h : t.SameBut S t') :
    t'.LeadsOn place sectionName ↔ t.LeadsOn place sectionName :=
  or_congr (exists_congr fun target => h.link _ target) (and_congr_right fun _ => h.directory _)

end SameBut

theorem head?_blob_ne_slash (sectionName : String) :
    (Path.ofText (blobStem ++ sectionName)).head? ≠ some slash := by
  rw [Path.ofText, Utf8.encode_append]
  nofun

/-- **A blob path leads** to what stands directly in the directory, under the name of the blob,
    unless something there leads the path on. -/
theorem followPath_blobPath {l : Landing}
    (hl : t.followPath intent (blobPath dir sectionName) = .ok l) :
    ∃ place, t.home? dir = some place ∧
      (('/' ∉ sectionName.toList ∧ l.outline.1 = place ++ [blobHead sectionName]) ∨
        t.LeadsOn place sectionName) := by
  obtain ⟨r, hr, -, hwalk⟩ := followPath_eq_ok_iff_walk.1 hl
  obtain ⟨more, hnames, hone⟩ := names_blob sectionName
  obtain ⟨_, hsteps, -⟩ := steps_blob sectionName
  obtain ⟨hhere, hup⟩ := not_isHere_of_isBlobName (isBlobName_blobHead sectionName)
  have hempty : blobHead sectionName ≠ [] := fun h => hhere (by rw [h]; rfl)
  obtain ⟨-, hroute⟩ := Route.parse_of_joinPath hr
  rw [hroute, Route.names_joinPath (by simp [hsteps]), hnames, ← hroute] at hwalk
  obtain ⟨place, left, hhome, hrest⟩ := exists_home_of_walk (head?_blob_ne_slash sectionName) hr
    (by simp) (by simp [hempty]) hwalk
  refine ⟨place, hhome, ?_⟩
  rcases walk_cons hhere hup hrest with ⟨hnil, hplace⟩ | hlink | ⟨hmore, hdir⟩
  · exact Or.inl ⟨hone.1 hnil, hplace⟩
  · exact Or.inr (Or.inl hlink)
  · exact Or.inr (Or.inr ⟨Classical.not_not.1 fun hfree => hmore (hone.2 hfree), hdir⟩)

/-- The target of a blob path stands there too. -/
theorem target?_blobPath (h : t.target? (blobPath dir sectionName) = some p) :
    ∃ place, t.home? dir = some place ∧
      (('/' ∉ sectionName.toList ∧ p = place ++ [blobHead sectionName]) ∨
        t.LeadsOn place sectionName) := by
  obtain ⟨l, hl, houtline⟩ := target?_eq_some_iff_landing.1 h
  have hplace := followPath_blobPath hl
  rwa [houtline] at hplace

/-- The spot of a path is looked for under the last of its names. -/
theorem spot_eq {path : Path} {last : Name} {before : List Name}
    (hsteps : Route.steps path = before ++ [last]) : t.spot (Route.ofPath path) =
      match t.walk .find linkBudget (t.startOf (Route.ofPath path)) (before ++ [[]]) with
      | .ok (.at parent _) => .ok ⟨parent, last, (Route.ofPath path).names.getLast? == some []⟩
      | .ok (.vacant ..) => .error .notFound
      | .error fault => .error fault := by
  have hlast : last ≠ [] := Route.ne_nil_of_mem_steps (by rw [hsteps]; simp)
  have hnames : (if (Route.ofPath path).names.getLast? == some []
      then (Route.ofPath path).names.dropLast else (Route.ofPath path).names) = before ++ [last] := by
    rw [Route.names_ofPath, hsteps]
    split
    · rw [List.getLast?_concat, List.dropLast_concat]
      rfl
    · rw [List.getLast?_concat, if_neg (by simpa using hlast)]
  unfold spot
  dsimp only
  rewrite [hnames, List.getLast?_concat, List.dropLast_concat]
  rfl

theorem walk_of_spot {path : Path} {last : Name} {before : List Name} {s : Spot}
    (hsteps : Route.steps path = before ++ [last]) (h : t.spot (Route.ofPath path) = .ok s) :
    s.name = last ∧ t.walk .find linkBudget (t.startOf (Route.ofPath path)) (before ++ [[]])
      = .ok (.at s.parent .directory) := by
  rw [spot_eq hsteps] at h
  split at h
  · next parent e hwalk =>
    obtain rfl := Except.ok.inj h
    obtain ⟨q, hq, -⟩ := walk_of_slash hwalk
    obtain ⟨rfl, rfl⟩ := Landing.at.inj hq
    exact ⟨rfl, hwalk⟩
  · nomatch h
  · nomatch h

/-- **The end of a blob path** stands directly in the directory, under the first name of the path,
    unless the name of the section has a slash and something there leads the path on. -/
theorem endOf?_blobPath (h : t.endOf? (blobPath dir sectionName) = some p) :
    ∃ place, t.home? dir = some place ∧
      (p = place ++ [blobHead sectionName] ∨
        '/' ∈ sectionName.toList ∧ t.LeadsOn place sectionName) := by
  obtain ⟨r, s, hr, hs, rfl⟩ := endOf?_eq_some_iff.1 h
  have hroute : r = Route.ofPath (blobPath dir sectionName) := (Route.parse_of_joinPath hr).2
  rw [hroute] at hs
  obtain ⟨more, hsteps, hone⟩ := steps_blob sectionName
  have hall : Route.steps (blobPath dir sectionName) =
      Route.steps dir ++ (blobHead sectionName :: more) := by
    rw [blobPath, Route.steps_joinPath, hsteps]
  rcases List.eq_nil_or_concat more with rfl | ⟨before, last, rfl⟩
  · -- the names of the directory are all that stand before the last one
    obtain ⟨hname, hwalk⟩ := walk_of_spot hall hs
    rw [← hroute] at hwalk
    refine ⟨s.parent, home?_of_walk (head?_blob_ne_slash sectionName) hr hwalk, Or.inl ?_⟩
    rw [Spot.place, hname]
  · rw [List.concat_eq_append, ← List.cons_append, ← List.append_assoc] at hall
    obtain ⟨-, hwalk⟩ := walk_of_spot hall hs
    rw [← hroute, List.append_assoc, List.cons_append] at hwalk
    obtain ⟨place, left, hhome, hrest⟩ := exists_home_of_walk
      (head?_blob_ne_slash sectionName) hr (by simp) (by simp) hwalk
    have hmem : '/' ∈ sectionName.toList :=
      Classical.not_not.1 fun hfree => absurd (hone hfree) (by simp)
    refine ⟨place, hhome, Or.inr ⟨hmem, ?_⟩⟩
    obtain ⟨hhere, hup⟩ := not_isHere_of_isBlobName (isBlobName_blobHead sectionName)
    rcases walk_cons hhere hup hrest with ⟨hnil, -⟩ | hlink | ⟨-, hdir⟩
    · exact absurd hnil (by simp)
    · exact Or.inl hlink
    · exact Or.inr ⟨hmem, hdir⟩

end FileTree
end FaultPlan
