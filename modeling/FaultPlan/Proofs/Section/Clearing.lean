/-
  Clearing: one pass through the listing of a directory.

  `HoldsBlob` says that a place holds a blob file directly in the directory that a path leads to.  The
  pass visits the listed names in order and removes the blobs among them by their paths, up to the
  first removal that is refused.  The path of a listed name leads to the entry itself
  (`unlink_joinPath`).  What carries the induction is that a removal leaves the way to the directory as
  it is, and everything that is still to be visited (`clearListed_spec`).

  So clearing takes away nothing but blobs, however it ends (`clearBlobs_sameBut`).  If the directory is
  listed to its end and no removal is refused, it takes away all of them, in whatever order they are
  listed, and in no other case does it succeed (`clearBlobs_of_directoryAt`).
-/
import FaultPlan.Section.Extraction
import FaultPlan.Proofs.Files.Joining

namespace FaultPlan

/-! ## Names -/

namespace Route

variable {dir : Path} {name : Name}

theorem IsName.steps_eq (h : IsName name) : steps name = [name] := by
  have huncut : ∀ b ∈ name, (b == slash) = false := fun b hb =>
    beq_eq_false_iff_ne.2 fun heq => h.2.1 (heq ▸ hb)
  rw [steps, Text.pieces_of_uncut huncut, List.filter_cons, List.isEmpty_eq_false_iff.2 h.1]
  simp

theorem IsName.names_eq (h : IsName name) : (ofPath name).names = [name] := by
  have hlast : name.getLast? ≠ some slash := fun hlast => h.2.1 (List.mem_of_getLast? hlast)
  rw [names_ofPath, h.steps_eq, if_neg (by simpa using hlast)]

theorem hasNul_joinPath (hdir : hasNul dir = false) (hname : hasNul name = false) :
    hasNul (joinPath dir name) = false := by
  obtain ⟨between, hbetween, hjoin⟩ := joinPath_eq_append dir
  simp only [hasNul, List.contains_eq_mem, decide_eq_false_iff_not] at hdir hname ⊢
  rw [hjoin, List.mem_append, List.mem_append]
  rcases hbetween with rfl | rfl
  · simp [hdir, hname]
  · simp [hdir, hname, slash]

end Route

/-- Why the blob file at a path would not be removed, if it would not. -/
def Storage.objection? (storage : Storage) (path : Path) : Option IoFault :=
  if Route.pathFits path then storage.refusal? path else some .nameTooLong

/-- Tells whether the entry at a place is a blob file directly in a directory. -/
def isBlobIn (dir p : Place) : Entry → Bool
  | .file _ => p.dropLast == dir &&
      p.getLast?.any fun name => decide (Route.IsName name) && isBlobName name
  | _ => false

theorem isBlobIn_iff {dir p : Place} {e : Entry} :
    isBlobIn dir p e = true ↔ ∃ name contents, p = dir ++ [name] ∧ e = .file contents ∧
      Route.IsName name ∧ isBlobName name = true := by
  constructor
  · intro h
    unfold isBlobIn at h
    split at h
    · next contents =>
      obtain ⟨hparent, hlast⟩ := Bool.and_eq_true_iff.1 h
      obtain ⟨name, hname, hblob⟩ := (Option.any_eq_true _ _).1 hlast
      obtain ⟨hisName, hblob⟩ := Bool.and_eq_true_iff.1 hblob
      obtain ⟨parent, rfl⟩ := List.getLast?_eq_some_iff.1 hname
      rw [List.dropLast_concat] at hparent
      exact ⟨name, contents, by rw [eq_of_beq hparent], rfl, of_decide_eq_true hisName, hblob⟩
    · nomatch h
  · rintro ⟨name, contents, rfl, rfl, hisName, hblob⟩
    simp [isBlobIn, hisName, hblob]

namespace FileTree

variable {storage : Storage} {t t' cleared : FileTree} {S : Place → Prop} {dir : Path}
  {place p : Place} {name : Name} {names : List Name}

/-- The place holds a blob file, directly in the directory that the path leads to. -/
def HoldsBlob (t : FileTree) (dir : Path) (p : Place) : Prop :=
  ∃ place name contents, t.directoryAt dir = .ok place ∧ p = place ++ [name] ∧
    Route.IsName name ∧ isBlobName name = true ∧ t.get? p = some (.file contents)

theorem holdsBlob_iff (hdir : t.directoryAt dir = .ok place) :
    t.HoldsBlob dir p ↔ ∃ e, t.get? p = some e ∧ isBlobIn place p e = true := by
  constructor
  · rintro ⟨place', name, contents, hdir', hp, hname, hblob, hfile⟩
    obtain rfl := Except.ok.inj (hdir.symm.trans hdir')
    exact ⟨_, hfile, isBlobIn_iff.2 ⟨name, contents, hp, rfl, hname, hblob⟩⟩
  · rintro ⟨e, he, hin⟩
    obtain ⟨name, contents, hp, rfl, hname, hblob⟩ := isBlobIn_iff.1 hin
    exact ⟨place, name, contents, hdir, hp, hname, hblob, he⟩

/-- A blob that is not among what was changed was there before. -/
theorem HoldsBlob.of_sameBut (hblob : t'.HoldsBlob dir p) (h : t.SameBut S t') (hp : ¬ S p) :
    t.HoldsBlob dir p := by
  obtain ⟨place, name, contents, hdir, hplace, hname, hstem, hfile⟩ := hblob
  exact ⟨place, name, contents, h.symm.embeds.directoryAt hdir, hplace, hname, hstem,
    (h.same p hp).symm.trans hfile⟩

/-- What `clearListed` looks for under a name is a blob in the directory. -/
theorem holdsBlobAt_iff (hname : Route.IsName name) :
    t.holdsBlobAt place name = true ↔
      ∃ e, t.get? (place ++ [name]) = some e ∧ isBlobIn place (place ++ [name]) e = true := by
  rw [holdsBlobAt, Bool.and_eq_true]
  constructor
  · rintro ⟨hblob, hfile⟩
    split at hfile
    · next contents he => exact ⟨_, he, isBlobIn_iff.2 ⟨name, contents, rfl, rfl, hname, hblob⟩⟩
    · nomatch hfile
  · rintro ⟨e, he, hin⟩
    obtain ⟨name', contents, hp, rfl, -, hblob⟩ := isBlobIn_iff.1 hin
    obtain rfl := List.singleton_inj.1 (List.append_cancel_left hp)
    rw [he]
    exact ⟨hblob, rfl⟩

/-! ## Removing by the path of a name -/

/-- The path of a name in a directory ends in that directory. -/
theorem spot_joinPath (hdir : t.directoryAt dir = .ok place) (hname : Route.IsName name) :
    t.spot (Route.ofPath (joinPath dir name)) = .ok ⟨place, name, false⟩ := by
  obtain ⟨r, hr, -, hwalk⟩ := followPath_eq_ok_iff_walk.1 (directoryAt_eq_ok_iff.1 hdir)
  obtain ⟨-, -, rfl⟩ := Route.parse_eq_ok_iff.1 hr
  have hsteps : Route.steps (joinPath dir name) = Route.steps dir ++ [name] := by
    rw [Route.steps_joinPath, hname.steps_eq]
  have hparent : t.walk .find linkBudget (t.startOf (Route.ofPath (joinPath dir name)))
      (Route.steps dir ++ [[]]) = .ok (.at place .directory) := by
    rw [startOf, Route.absolute_joinPath (ne_nil_of_directoryAt hdir), ← startOf]
    rw [Route.names_ofPath] at hwalk
    split at hwalk
    · exact hwalk
    · exact walk_add_slash hwalk
  have hnames : (Route.ofPath (joinPath dir name)).names.getLast? = some name := by
    rw [Route.names_joinPath (by simp [hname.steps_eq]), hname.names_eq, List.getLast?_concat]
  have hslash : (some name == some []) = false := by simpa using hname.1
  rw [spot_eq hsteps, hparent, hnames, hslash]

/-- **A blob is removed by the path of its name**, unless there is an objection. -/
theorem unlink_joinPath {contents : Bytes} (hdir : t.directoryAt dir = .ok place)
    (hname : Route.IsName name) (hblob : isBlobName name = true)
    (hfile : t.get? (place ++ [name]) = some (.file contents)) :
    storage.unlink t (joinPath dir name) = match storage.objection? (joinPath dir name) with
      | none => .ok (t.removeLeaves fun p _ => p == place ++ [name])
      | some fault => .error fault := by
  obtain ⟨r, hr, -⟩ := followPath_eq_ok_iff_walk.1 (directoryAt_eq_ok_iff.1 hdir)
  obtain ⟨hnul, -⟩ := Route.parse_eq_ok_iff.1 hr
  have hjoin : Route.hasNul (joinPath dir name) = false :=
    Route.hasNul_joinPath hnul hname.2.2.1
  have hrelative : (⟨place, name, false⟩ : Spot).isRelative = false := by
    obtain ⟨hhere, hup⟩ := not_isHere_of_isBlobName hblob
    obtain ⟨-, hdot⟩ := Bool.or_eq_false_iff.1 (Bool.eq_false_iff.2 hhere)
    exact Bool.or_eq_false_iff.2 ⟨hdot, beq_eq_false_iff_ne.2 hup⟩
  unfold Storage.unlink Storage.objection?
  by_cases hfits : Route.pathFits (joinPath dir name) = true
  · have hparse := Route.parse_eq_ok_iff.2 ⟨hjoin, hfits, rfl⟩
    have hlook : t.look place name = .ok (some (.file contents)) :=
      look_eq_ok_iff.2 ⟨hname.2.2.2, hfile⟩
    have hunlink : t.unlink (joinPath dir name) =
        .ok (t.removeLeaves fun p _ => p == place ++ [name]) := by
      rw [unlink, hparse]
      simp only [bind, Except.bind, spot_joinPath hdir hname]
      rw [hrelative, if_neg Bool.false_ne_true, hlook]
      rfl
    rw [hunlink, if_pos hfits]
    cases storage.refusal? (joinPath dir name) <;> rfl
  · have hunlink : t.unlink (joinPath dir name) = .error .nameTooLong := by
      rw [unlink, Route.parse, hjoin, if_neg Bool.false_ne_true, if_neg hfits]
      rfl
    rw [hunlink, if_neg hfits]

/-- Taking the blob of one name away leaves the way to the directory, and what stands under any other
    name. -/
theorem removeLeaves_name (hin : t.holdsBlobAt place name = true) (hname : Route.IsName name)
    (hdir : t.directoryAt dir = .ok place) :
    let left := t.removeLeaves fun p _ => p == place ++ [name]
    left.directoryAt dir = .ok place ∧
      ∀ name', name' ≠ name → left.holdsBlobAt place name' = t.holdsBlobAt place name' := by
  obtain ⟨e, he, hblob⟩ := (holdsBlobAt_iff hname).1 hin
  obtain ⟨-, contents, -, rfl, -⟩ := isBlobIn_iff.1 hblob
  have hsame : t.SameBut (· = place ++ [name]) (t.removeLeaves fun p _ => p == place ++ [name]) := by
    refine SameBut.of_removeFiles (fun p e' he' hgone => ?_) fun p e' _ hgone => eq_of_beq hgone
    rw [eq_of_beq hgone, he] at he'
    exact ⟨contents, (Option.some.inj he').symm⟩
  refine ⟨hsame.embeds.directoryAt hdir, fun name' hne => ?_⟩
  rw [holdsBlobAt, holdsBlobAt, hsame.same _ (by simpa using hne)]

/-! ## One pass -/

/-- The blobs of a directory are taken away, as far as they are among the names. -/
def removeListed (t : FileTree) (place : Place) (names : List Name) : FileTree :=
  t.removeLeaves fun p e => isBlobIn place p e && names.any fun name => p == place ++ [name]

theorem removeListed_nil : t.removeListed place [] = t := by
  simp only [removeListed, List.any_nil, Bool.and_false, removeLeaves_none]

theorem removeListed_cons_of_blob (hname : Route.IsName name)
    (hin : t.holdsBlobAt place name = true) : t.removeListed place (name :: names) =
      (t.removeLeaves fun p _ => p == place ++ [name]).removeListed place names := by
  obtain ⟨e, he, hblob⟩ := (holdsBlobAt_iff hname).1 hin
  rw [removeListed, removeListed, removeLeaves_removeLeaves]
  refine removeLeaves_congr fun p e' he' => ?_
  rw [List.any_cons]
  by_cases hp : p = place ++ [name]
  · subst hp
    obtain rfl := Option.some.inj (he.symm.trans he')
    simp [hblob]
  · rw [beq_eq_false_iff_ne.2 hp, Bool.false_or, Bool.false_or]

theorem removeListed_cons_of_not_blob (hname : Route.IsName name)
    (hin : ¬ t.holdsBlobAt place name = true) :
    t.removeListed place (name :: names) = t.removeListed place names := by
  refine removeLeaves_congr fun p e he => ?_
  rw [List.any_cons]
  by_cases hp : p = place ++ [name]
  · subst hp
    have hnot : isBlobIn place (place ++ [name]) e = false :=
      Bool.eq_false_iff.2 fun hblob => hin ((holdsBlobAt_iff hname).2 ⟨e, he, hblob⟩)
    rw [hnot, Bool.false_and, Bool.false_and]
  · rw [beq_eq_false_iff_ne.2 hp, Bool.false_or]

/-- **What one pass does.**  It takes away the blobs among the names if there is no objection to any of
    them.  Otherwise it ends with the first objection, and has taken away the blobs before. -/
theorem clearListed_spec (hdir : t.directoryAt dir = .ok place) (hnodup : names.Nodup)
    (hnames : ∀ name ∈ names, Route.IsName name) :
    (clearListed storage dir place names t = (t.removeListed place names, .ok ()) ∧
      ∀ name ∈ names, t.holdsBlobAt place name = true →
        storage.objection? (joinPath dir name) = none) ∨
    ∃ done name more fault, names = done ++ name :: more ∧ t.holdsBlobAt place name = true ∧
      storage.objection? (joinPath dir name) = some fault ∧
      clearListed storage dir place names t = (t.removeListed place done, .error fault) := by
  induction names generalizing t with
  | nil =>
    rw [removeListed_nil]
    exact Or.inl ⟨rfl, nofun⟩
  | cons name rest ih =>
    obtain ⟨hfresh, hnodup⟩ := List.nodup_cons.1 hnodup
    have hname : Route.IsName name := hnames name List.mem_cons_self
    have hrest : ∀ name ∈ rest, Route.IsName name := fun n hn => hnames n (List.mem_cons_of_mem _ hn)
    rw [clearListed]
    by_cases hin : t.holdsBlobAt place name = true
    · obtain ⟨e, he, hblob⟩ := (holdsBlobAt_iff hname).1 hin
      obtain ⟨name', contents, hp, rfl, -, hstem⟩ := isBlobIn_iff.1 hblob
      obtain rfl := List.singleton_inj.1 (List.append_cancel_left hp)
      rw [if_pos hin, unlink_joinPath hdir hname hstem he]
      cases hobjection : storage.objection? (joinPath dir name) with
      | some fault =>
        refine Or.inr ⟨[], name, rest, fault, rfl, hin, hobjection, ?_⟩
        rw [removeListed_nil]
      | none =>
        -- what is still to be visited stands as it was listed
        obtain ⟨hdir', hkept⟩ := removeLeaves_name hin hname hdir
        have hother : ∀ n ∈ rest, n ≠ name := fun n hn heq => hfresh (heq ▸ hn)
        rcases ih hdir' hnodup hrest with ⟨hpass, hnone⟩ | ⟨done, n, more, fault, rfl, hn, hfault, hpass⟩
        · rw [← removeListed_cons_of_blob hname hin] at hpass
          refine Or.inl ⟨hpass, List.forall_mem_cons.2 ⟨fun _ => hobjection, fun n hn hblob => ?_⟩⟩
          exact hnone n hn ((hkept n (hother n hn)).trans hblob)
        · rw [← removeListed_cons_of_blob hname hin] at hpass
          rw [hkept n (hother n (by simp))] at hn
          exact Or.inr ⟨name :: done, n, more, fault, rfl, hn, hfault, hpass⟩
    · rw [if_neg hin]
      rcases ih hdir hnodup hrest with ⟨hpass, hnone⟩ | ⟨done, n, more, fault, rfl, hn, hfault, hpass⟩
      · rw [← removeListed_cons_of_not_blob hname hin] at hpass
        exact Or.inl ⟨hpass, List.forall_mem_cons.2 ⟨fun h => absurd h hin, hnone⟩⟩
      · rw [← removeListed_cons_of_not_blob hname hin] at hpass
        exact Or.inr ⟨name :: done, n, more, fault, rfl, hn, hfault, hpass⟩

/-! ## Clearing -/

/-- The directory is listed to its end, and there is no objection to removing any of its blobs. -/
def Clearable (storage : Storage) (t : FileTree) (dir : Path) : Prop :=
  ∀ place, t.directoryAt dir = .ok place → (storage.list t place).fault? = none ∧
    ∀ name, t.HoldsBlob dir (place ++ [name]) → storage.objection? (joinPath dir name) = none

/-- Clearing a directory ends with the fault: the listing breaks off so, or there is this objection to
    the removal of a blob. -/
def Obstructs (storage : Storage) (t : FileTree) (dir : Path) (fault : IoFault) : Prop :=
  ∃ place, t.directoryAt dir = .ok place ∧ ((storage.list t place).fault? = some fault ∨
    ∃ name, t.HoldsBlob dir (place ++ [name]) ∧ storage.objection? (joinPath dir name) = some fault)

theorem clearListed_list (storage : Storage) (hdir : t.directoryAt dir = .ok place) :
    let names := (storage.list t place).names
    (clearListed storage dir place names t = (t.removeListed place names, .ok ()) ∧
      ∀ name ∈ names, t.HoldsBlob dir (place ++ [name]) →
        storage.objection? (joinPath dir name) = none) ∨
    ∃ done name fault, t.HoldsBlob dir (place ++ [name]) ∧
      storage.objection? (joinPath dir name) = some fault ∧
      clearListed storage dir place names t = (t.removeListed place done, .error fault) := by
  have hnames : ∀ name ∈ (storage.list t place).names, Route.IsName name := fun name hname =>
    (storage.list_holds t place name hname).1
  rcases clearListed_spec hdir (storage.list_nodup t place) hnames with
    ⟨hpass, hnone⟩ | ⟨done, name, more, fault, hsplit, hin, hfault, hpass⟩
  · refine Or.inl ⟨hpass, fun name hmem hblob => hnone name hmem ?_⟩
    exact (holdsBlobAt_iff (hnames name hmem)).2 ((holdsBlob_iff hdir).1 hblob)
  · have hname := hnames name (by rw [hsplit]; simp)
    exact Or.inr ⟨done, name, fault, (holdsBlob_iff hdir).2 ((holdsBlobAt_iff hname).1 hin), hfault,
      hpass⟩

/-- What a listing that does not break off has of blobs are all of them. -/
theorem removeListed_list (h : (storage.list t place).fault? = none) :
    t.removeListed place (storage.list t place).names = t.removeLeaves (isBlobIn place) := by
  refine removeLeaves_congr fun p e he => ?_
  by_cases hblob : isBlobIn place p e = true
  · obtain ⟨name, contents, rfl, rfl, hname, -⟩ := isBlobIn_iff.1 hblob
    have hlisted : name ∈ (storage.list t place).names :=
      storage.list_complete t place h name hname (by rw [he]; nofun)
    have hany : ((storage.list t place).names.any fun n => place ++ [name] == place ++ [n]) = true :=
      List.any_eq_true.2 ⟨name, hlisted, beq_self_eq_true _⟩
    rw [hany, Bool.and_true]
  · rw [Bool.eq_false_iff.2 hblob, Bool.false_and]

/-- Taking listed blobs away changes nothing but blobs. -/
theorem removeListed_sameBut (hdir : t.directoryAt dir = .ok place) :
    t.SameBut (t.HoldsBlob dir) (t.removeListed place names) := by
  refine SameBut.of_removeFiles (fun p e _ hgone => ?_) fun p e he hgone => ?_
  · obtain ⟨-, contents, -, he, -⟩ := isBlobIn_iff.1 (Bool.and_eq_true_iff.1 hgone).1
    exact ⟨contents, he⟩
  · exact (holdsBlob_iff hdir).2 ⟨e, he, (Bool.and_eq_true_iff.1 hgone).1⟩

/-- **Clearing** a directory succeeds exactly if it is listed to its end and there is no objection to
    removing any of its blobs, and has then taken all of them away.  Otherwise it ends with a fault of
    the listing or of a removal. -/
theorem clearBlobs_of_directoryAt (storage : Storage) (hdir : t.directoryAt dir = .ok place) :
    (t.Clearable storage dir →
      clearBlobs storage dir t = (t.removeLeaves (isBlobIn place), .ok ())) ∧
    (¬ t.Clearable storage dir → ∃ done fault, t.Obstructs storage dir fault ∧
      clearBlobs storage dir t = (t.removeListed place done, .error fault)) := by
  unfold clearBlobs
  rw [hdir]
  dsimp only
  rcases clearListed_list storage hdir with
    ⟨hpass, hnone⟩ | ⟨done, name, fault, hblob, hfault, hpass⟩
  · rw [hpass]
    cases hbroken : (storage.list t place).fault? with
    | none =>
      refine ⟨fun _ => by rw [removeListed_list hbroken], fun hnot => absurd ?_ hnot⟩
      intro place' hdir'
      obtain rfl := Except.ok.inj (hdir.symm.trans hdir')
      refine ⟨hbroken, fun name hblob => hnone name ?_ hblob⟩
      obtain ⟨e, he, hin⟩ := (holdsBlob_iff hdir).1 hblob
      obtain ⟨name', _, hp, -, hname, -⟩ := isBlobIn_iff.1 hin
      obtain rfl := List.singleton_inj.1 (List.append_cancel_left hp)
      exact storage.list_complete t place hbroken name hname (by rw [he]; nofun)
    | some fault =>
      refine ⟨fun hclear => ?_, fun _ => ⟨_, fault, ⟨place, hdir, Or.inl hbroken⟩, rfl⟩⟩
      nomatch hbroken.symm.trans (hclear place hdir).1
  · rw [hpass]
    refine ⟨fun hclear => ?_, fun _ => ⟨done, fault, ⟨place, hdir, Or.inr ⟨name, hblob, hfault⟩⟩, rfl⟩⟩
    nomatch hfault.symm.trans ((hclear place hdir).2 name hblob)

theorem clearBlobs_of_missing (h : t.directoryAt dir = .error .notFound) :
    clearBlobs storage dir t = (t, .ok ()) := by
  rw [clearBlobs, h]

theorem clearBlobs_of_error {fault : IoFault} (h : t.directoryAt dir = .error fault)
    (hfault : fault ≠ .notFound) : clearBlobs storage dir t = (t, .error fault) := by
  rw [clearBlobs, h]
  cases fault <;> first | rfl | exact absurd rfl hfault

/-- **Clearing changes nothing but blobs**, however it ends and whatever links there are. -/
theorem clearBlobs_sameBut (storage : Storage) (dir : Path) (t : FileTree) :
    t.SameBut (t.HoldsBlob dir) (clearBlobs storage dir t).1 := by
  cases hdir : t.directoryAt dir with
  | ok place =>
    by_cases hclear : t.Clearable storage dir
    · obtain ⟨hbroken, -⟩ := hclear place hdir
      rw [(clearBlobs_of_directoryAt storage hdir).1 hclear, ← removeListed_list hbroken]
      exact removeListed_sameBut hdir
    · obtain ⟨done, fault, -, hend⟩ := (clearBlobs_of_directoryAt storage hdir).2 hclear
      rw [hend]
      exact removeListed_sameBut hdir
  | error fault =>
    rw [clearBlobs, hdir]
    cases fault <;> exact SameBut.refl _ _

/-- A tree that a pass was made through holds at each place what it held, or has lost a blob there. -/
theorem get?_clearBlobs (storage : Storage) (dir : Path) (t : FileTree) (p : Place) :
    (clearBlobs storage dir t).1.get? p = t.get? p ∨
      t.HoldsBlob dir p ∧ (clearBlobs storage dir t).1.get? p = none := by
  have hremoved : ∀ {place : Place} {names : List Name}, t.directoryAt dir = .ok place →
      (t.removeListed place names).get? p = t.get? p ∨
        t.HoldsBlob dir p ∧ (t.removeListed place names).get? p = none := by
    intro place names hdir
    by_cases hblob : t.HoldsBlob dir p
    · rw [removeListed, get?_removeLeaves]
      cases t.get? p with
      | none => exact Or.inl rfl
      | some e =>
        rw [Option.filter_some]
        split
        · exact Or.inl rfl
        · exact Or.inr ⟨hblob, rfl⟩
    · exact Or.inl ((removeListed_sameBut hdir).same p hblob)
  cases hdir : t.directoryAt dir with
  | ok place =>
    by_cases hclear : t.Clearable storage dir
    · obtain ⟨hbroken, -⟩ := hclear place hdir
      rw [(clearBlobs_of_directoryAt storage hdir).1 hclear, ← removeListed_list hbroken]
      exact hremoved hdir
    · obtain ⟨done, fault, -, hend⟩ := (clearBlobs_of_directoryAt storage hdir).2 hclear
      rw [hend]
      exact hremoved hdir
  | error fault =>
    rw [clearBlobs, hdir]
    cases fault <;> exact Or.inl rfl

/-- Clearing that succeeds leaves no blob. -/
theorem not_holdsBlob_of_clearBlobs (h : clearBlobs storage dir t = (cleared, .ok ())) :
    ¬ cleared.HoldsBlob dir p := by
  intro hblob
  have hsame := clearBlobs_sameBut storage dir t
  rw [h] at hsame
  have hblob' := hblob
  obtain ⟨place, -, -, hdir', -⟩ := hblob'
  have hdir : t.directoryAt dir = .ok place := hsame.symm.embeds.directoryAt hdir'
  by_cases hclear : t.Clearable storage dir
  · obtain ⟨rfl, -⟩ := Prod.mk.inj (((clearBlobs_of_directoryAt storage hdir).1 hclear).symm.trans h)
    obtain ⟨e, he, hin⟩ := (holdsBlob_iff hdir').1 hblob
    rw [get?_removeLeaves, Option.filter_eq_some_iff, hin] at he
    obtain ⟨-, contents, -, rfl, -⟩ := isBlobIn_iff.1 hin
    nomatch he.2
  · obtain ⟨done, fault, -, hend⟩ := (clearBlobs_of_directoryAt storage hdir).2 hclear
    obtain ⟨-, hfault⟩ := Prod.mk.inj (hend.symm.trans h)
    nomatch hfault

/-- A blob that is there after clearing and a change is among what was changed. -/
theorem HoldsBlob.changed (hblob : t'.HoldsBlob dir p)
    (hclear : clearBlobs storage dir t = (cleared, .ok ())) (h : cleared.SameBut S t') : S p :=
  Classical.byContradiction fun hp => not_holdsBlob_of_clearBlobs hclear (hblob.of_sameBut h hp)

/-- Where there is no blob, clearing changes nothing and fails only with the listing. -/
theorem clearBlobs_eq_self (storage : Storage) (hnone : ∀ p, ¬ t.HoldsBlob dir p) :
    (clearBlobs storage dir t).1 = t ∧ (∀ place, t.directoryAt dir = .ok place →
      (clearBlobs storage dir t).2 = match (storage.list t place).fault? with
        | none => .ok ()
        | some fault => .error fault) := by
  have hremoved : ∀ {place : Place} {names : List Name}, t.directoryAt dir = .ok place →
      t.removeListed place names = t := by
    intro place names hdir
    refine Eq.trans ?_ t.removeLeaves_none
    refine removeLeaves_congr fun p e he => ?_
    rw [Bool.eq_false_iff.2 fun hin => hnone p ((holdsBlob_iff hdir).2 ⟨e, he, hin⟩), Bool.false_and]
  cases hdir : t.directoryAt dir with
  | error fault =>
    refine ⟨?_, nofun⟩
    rw [clearBlobs, hdir]
    cases fault <;> rfl
  | ok place =>
    by_cases hclear : t.Clearable storage dir
    · obtain ⟨hbroken, -⟩ := hclear place hdir
      rw [(clearBlobs_of_directoryAt storage hdir).1 hclear, ← removeListed_list hbroken, hremoved hdir]
      refine ⟨rfl, ?_⟩
      rintro _ ⟨⟩
      rw [hbroken]
    · obtain ⟨done, fault, ⟨place', hdir', hwhy⟩, hend⟩ := (clearBlobs_of_directoryAt storage hdir).2 hclear
      obtain rfl := Except.ok.inj (hdir.symm.trans hdir')
      rw [hend, hremoved hdir]
      refine ⟨rfl, ?_⟩
      rintro _ ⟨⟩
      rcases hwhy with hbroken | ⟨name, hblob, -⟩
      · rw [hbroken]
      · exact absurd hblob (hnone _)

end FileTree
end FaultPlan
