/-
  Clearing takes away exactly the blobs, where it can.

  A directory is listed in no order that one could rely on.  That clearing comes to the same tree
  whatever the order is, that it changes nothing when it is done again, and what it may leave behind
  when the listing breaks off or a removal is refused: all of it follows from what one pass does
  (`clearBlobs_exact`).  A blob whose path is too long cannot be removed, nor can one on a storage
  that refuses it, and a file whose name is no text is not even looked at
  (`clearBlobs_leaves_blobs`).
-/
import FaultPlan.Proofs.Section.LongPaths

namespace FaultPlan

namespace Storage

/-- A storage that lists as the tree does and refuses every removal. -/
def refusing (fault : IoFault) (h : fault ≠ .notFound) : Storage :=
  { Storage.plain with
    refusal? := fun _ => some fault
    refusal?_ne := fun _ => fun hsome => h (Option.some.inj hsome) }

/-- A storage that refuses nothing, and lists names the other way round. -/
def reversed : Storage :=
  { Storage.plain with
    list := fun t p => ⟨(Storage.plain.list t p).names.reverse, none⟩
    list_nodup := fun t p => (List.reverse_perm _).nodup_iff.2 (Storage.plain.list_nodup t p)
    list_holds := fun t p name h => Storage.plain.list_holds t p name (List.mem_reverse.1 h)
    list_complete := fun t p _ name hname hget =>
      List.mem_reverse.2 (Storage.plain.list_complete t p rfl name hname hget) }

/-- A storage that refuses no removal, but no directory can be listed. -/
def unlisted (fault : IoFault) : Storage :=
  { Storage.plain with
    list := fun _ _ => ⟨[], some fault⟩
    list_nodup := fun _ _ => List.nodup_nil
    list_holds := fun _ _ _ h => absurd h List.not_mem_nil
    list_complete := fun _ _ h => by cases h }

end Storage

namespace FileTree

variable {storage : Storage} {t : FileTree} {dir : Path} {place : Place}

/-- Whether a directory can be cleared is told at the one place that its path leads to. -/
theorem clearable_iff (hdir : t.directoryAt dir = .ok place) :
    t.Clearable storage dir ↔ (storage.list t place).fault? = none ∧
      ∀ name, t.HoldsBlob dir (place ++ [name]) → storage.objection? (joinPath dir name) = none := by
  constructor
  · exact fun h => h place hdir
  · rintro h place' hdir'
    obtain rfl := Except.ok.inj (hdir.symm.trans hdir')
    exact h

theorem clearBlobs_eq_ok_iff (hdir : t.directoryAt dir = .ok place) :
    (clearBlobs storage dir t).2 = .ok () ↔ t.Clearable storage dir := by
  obtain ⟨hok, herror⟩ := clearBlobs_of_directoryAt storage hdir
  by_cases hclear : t.Clearable storage dir
  · rw [hok hclear]
    exact iff_of_true rfl hclear
  · obtain ⟨done, fault, -, hend⟩ := herror hclear
    rw [hend]
    exact iff_of_false nofun hclear

/-- **Clearing takes away exactly the blobs.**  Where the path leads to a directory, clearing succeeds
    exactly if the directory is listed to its end and there is no objection to removing any of its
    blobs; then nothing stands where there was a blob, and everything else is as it was.  If it fails,
    this is for the end of the listing or for such an objection, and it has taken away blobs at most.
    A directory that is missing needs no clearing.  Where the path leads to no directory for another
    reason, clearing is refused for that reason.

    Where clearing succeeds, it comes to the same tree in whatever order the directory is listed, and
    clearing once more changes nothing. -/
theorem clearBlobs_exact (storage : Storage) (t : FileTree) (dir : Path) :
    let r := clearBlobs storage dir t
    (∀ place, t.directoryAt dir = .ok place →
      (r.2 = .ok () ↔ (storage.list t place).fault? = none ∧
        ∀ name, t.HoldsBlob dir (place ++ [name]) →
          storage.objection? (joinPath dir name) = none) ∧
      (r.2 = .ok () → r.1.cwd = t.cwd ∧ ∀ p, (t.HoldsBlob dir p → r.1.get? p = none) ∧
        (¬ t.HoldsBlob dir p → r.1.get? p = t.get? p)) ∧
      ∀ fault, r.2 = .error fault → r.1.cwd = t.cwd ∧
        ((storage.list t place).fault? = some fault ∨
          ∃ name, t.HoldsBlob dir (place ++ [name]) ∧
            storage.objection? (joinPath dir name) = some fault) ∧
        ∀ p, r.1.get? p = t.get? p ∨ t.HoldsBlob dir p ∧ r.1.get? p = none) ∧
    (t.directoryAt dir = .error .notFound → r = (t, .ok ())) ∧
    (∀ fault, t.directoryAt dir = .error fault → fault ≠ .notFound → r = (t, .error fault)) ∧
    (r.2 = .ok () →
      (∀ storage' : Storage, storage'.refusal? = storage.refusal? →
        (∀ place, t.directoryAt dir = .ok place → (storage'.list t place).fault? = none) →
        clearBlobs storage' dir t = r) ∧
      (clearBlobs storage dir r.1).1 = r.1 ∧
      ((∀ place, r.1.directoryAt dir = .ok place → (storage.list r.1 place).fault? = none) →
        clearBlobs storage dir r.1 = (r.1, .ok ()))) := by
  intro r
  have hsame := clearBlobs_sameBut storage dir t
  refine ⟨fun place hdir => ⟨?_, fun hok => ⟨hsame.cwd, fun p => ⟨fun hblob => ?_, hsame.same p⟩⟩,
    fun fault hfault => ⟨hsame.cwd, ?_, get?_clearBlobs storage dir t⟩⟩,
    clearBlobs_of_missing, fun fault => clearBlobs_of_error, fun hok => ⟨fun storage' hrefusal hlisted => ?_, ?_⟩⟩
  · rw [clearBlobs_eq_ok_iff hdir, clearable_iff hdir]
  · rcases get?_clearBlobs storage dir t p with hkept | ⟨-, hgone⟩
    · -- a blob that has been kept would be one that is left
      obtain ⟨place', name, contents, hdir', hp, hname, hstem, hfile⟩ := hblob
      have hleft : r.1.HoldsBlob dir p := ⟨place', name, contents, hsame.embeds.directoryAt hdir', hp,
        hname, hstem, hkept.trans hfile⟩
      exact absurd hleft (not_holdsBlob_of_clearBlobs (Prod.ext rfl hok))
    · exact hgone
  · have hnot : ¬ t.Clearable storage dir := fun hclear => by
      nomatch hfault.symm.trans ((clearBlobs_eq_ok_iff hdir).2 hclear)
    obtain ⟨done, fault', ⟨place', hdir', hwhy⟩, hend⟩ := (clearBlobs_of_directoryAt _ hdir).2 hnot
    obtain rfl := Except.ok.inj (hdir.symm.trans hdir')
    have heq : fault' = fault := Except.error.inj ((congrArg Prod.snd hend).symm.trans hfault)
    rwa [heq] at hwhy
  · cases hdir : t.directoryAt dir with
    | ok place =>
      have hclear := (clearBlobs_eq_ok_iff hdir).1 hok
      have hclear' : t.Clearable storage' dir := by
        refine (clearable_iff hdir).2 ⟨hlisted place hdir, fun name hblob => ?_⟩
        rw [Storage.objection?, hrefusal]
        exact (hclear place hdir).2 name hblob
      exact ((clearBlobs_of_directoryAt _ hdir).1 hclear').trans
        ((clearBlobs_of_directoryAt _ hdir).1 hclear).symm
    | error fault =>
      by_cases hmissing : fault = .notFound
      · subst hmissing
        exact (clearBlobs_of_missing hdir).trans (clearBlobs_of_missing hdir).symm
      · exact (clearBlobs_of_error hdir hmissing).trans (clearBlobs_of_error hdir hmissing).symm
  · have hagain := clearBlobs_eq_self storage
      fun _ => not_holdsBlob_of_clearBlobs (Prod.ext rfl hok : clearBlobs storage dir t = (r.1, .ok ()))
    refine ⟨hagain.1, fun hlisted => Prod.ext hagain.1 ?_⟩
    cases hdir : r.1.directoryAt dir with
    | ok place => rw [hagain.2 place hdir, hlisted place hdir]
    | error fault =>
      -- what is missing after clearing was missing before it
      cases hbefore : t.directoryAt dir with
      | ok place => nomatch hdir.symm.trans (hsame.embeds.directoryAt hbefore)
      | error fault' =>
        by_cases hmissing : fault' = .notFound
        · subst hmissing
          have hr : r = (t, .ok ()) := clearBlobs_of_missing hbefore
          rw [hr, clearBlobs_of_missing hbefore]
        · nomatch hok.symm.trans (congrArg Prod.snd (clearBlobs_of_error hbefore hmissing))

/-! ## Trees of one directory -/

/-- A directory with a blob, a link and a directory whose names begin like a blob's, and a file. -/
def crowded : FileTree :=
  (((((FileTree.empty.put ["d"] .directory).put ["d", "code_section.a"] (.file [])).put
    ["d", "code_section.b"] (.link "code_section.a")).put ["d", "code_section.c"] .directory).put
      ["d", "code_section.c", "code_section.x"] (.file [])).put ["d", "other"] (.file [])

/-- Of all that begins like a blob only the file goes, in either order. -/
theorem clearBlobs_exact_crowded :
    crowded.directoryAt "d" = .ok ["d"] ∧ ∃ cleared,
      clearBlobs .plain "d" crowded = (cleared, .ok ()) ∧
      clearBlobs .reversed "d" crowded = (cleared, .ok ()) ∧
      cleared.get? ["d", "code_section.a"] = none ∧
      cleared.get? ["d", "code_section.b"] = some (.link "code_section.a") ∧
      cleared.get? ["d", "code_section.c", "code_section.x"] = some (.file []) ∧
      clearBlobs .plain "d" cleared = (cleared, .ok ()) := by
  have hdir : crowded.directoryAt "d" = .ok ["d"] := by rfl
  obtain ⟨hin, -, -, hafter⟩ := clearBlobs_exact .plain crowded "d"
  obtain ⟨hiff, hok, -⟩ := hin _ hdir
  -- a path this short is taken, and the plain storage refuses nothing
  have hclear : (clearBlobs .plain "d" crowded).2 = .ok () := by
    refine hiff.2 ⟨rfl, fun name hblob => ?_⟩
    obtain ⟨e, he, hblob⟩ := (holdsBlob_iff hdir).1 hblob
    have hmem := (crowded.get?_eq_some_iff (by simp)).1 he
    have hall : crowded.entries.all (fun x =>
        (Storage.plain.objection? (joinPath "d" (x.1.getLastD []))).isNone) = true := by
      decide +kernel
    simpa using List.all_eq_true.1 hall _ hmem
  obtain ⟨-, hexact⟩ := hok hclear
  obtain ⟨horder, -, hagain⟩ := hafter hclear
  have hblob : crowded.HoldsBlob "d" ["d", "code_section.a"] :=
    ⟨["d"], "code_section.a", [], hdir, rfl, by decide, by decide, by decide +kernel⟩
  -- a blob is a file in the directory itself
  have hkept : ∀ p e, crowded.get? p = some e → isBlobIn ["d"] p e = false →
      (clearBlobs .plain "d" crowded).1.get? p = some e := by
    intro p e he hno
    refine ((hexact p).2 fun hblob => ?_).trans he
    obtain ⟨e', he', hyes⟩ := (holdsBlob_iff hdir).1 hblob
    obtain rfl := Option.some.inj (he.symm.trans he')
    nomatch hno.symm.trans hyes
  exact ⟨hdir, _, Prod.ext rfl hclear, (horder .reversed rfl fun _ _ => rfl).trans (Prod.ext rfl hclear),
    (hexact _).1 hblob, hkept _ _ (by decide +kernel) (by decide +kernel),
    hkept _ _ (by decide +kernel) (by decide +kernel), hagain fun _ _ => rfl⟩

/-- A directory with a blob, and a file whose name begins like a blob's but is no text. -/
def stale : FileTree :=
  ((FileTree.empty.put ["d"] .directory).put ["d", "code_section.old"] (.file (Utf8.encode "stale"))).put
    ["d", Path.ofText "code_section" ++ [0xFF]] (.file [])

/-- The one blob of the directory is removed, unless there is an objection. -/
theorem clearBlobs_stale (storage : Storage) (hdir : stale.directoryAt dir = .ok ["d"])
    (hlist : storage.list stale ["d"] = Storage.plain.list stale ["d"]) :
    clearBlobs storage dir stale = match storage.objection? (joinPath dir "code_section.old") with
      | some fault => (stale, .error fault)
      | none => (stale.removeLeaves fun p _ => p == (["d", "code_section.old"] : Place), .ok ()) := by
  have hplain : Storage.plain.list stale ["d"] =
      ⟨[Path.ofText "code_section" ++ [0xFF], "code_section.old"], none⟩ := by decide +kernel
  have hfile : stale.get? ((["d"] : Place) ++ [Path.ofText "code_section.old"]) =
      some (.file (Utf8.encode "stale")) := by decide +kernel
  rw [clearBlobs, hdir]
  dsimp only
  rw [hlist, hplain]
  dsimp only
  rw [clearListed, if_neg (by decide +kernel), clearListed, if_pos (by decide +kernel),
    unlink_joinPath hdir (by decide) (by decide) hfile]
  cases storage.objection? (joinPath dir "code_section.old") <;> rfl

/-- **Clearing may leave blobs behind**, although the path leads to the directory: one whose path is too
    long, or that the storage refuses to remove, or in a directory that cannot be listed.  And it
    leaves a file whose name begins with the bytes of the stem and is no text. -/
theorem clearBlobs_leaves_blobs :
    stale.directoryAt (dotted 2040) = .ok ["d"] ∧ stale.directoryAt "d" = .ok ["d"] ∧
      clearBlobs .plain (dotted 2040) stale = (stale, .error .nameTooLong) ∧
      clearBlobs (.refusing .permissionDenied nofun) "d" stale = (stale, .error .permissionDenied) ∧
      clearBlobs (.unlisted .permissionDenied) "d" stale = (stale, .error .permissionDenied) ∧
      (clearBlobs .plain "d" stale).2 = .ok () ∧
      (clearBlobs .plain "d" stale).1.get? ["d", Path.ofText "code_section" ++ [0xFF]] =
        some (.file []) := by
  have hlong : stale.directoryAt (dotted 2040) = .ok ["d"] :=
    directoryAt_dotted (by decide) rfl (by decide +kernel)
  have hdir : stale.directoryAt "d" = .ok ["d"] := by rfl
  have hplain : Storage.plain.objection? (joinPath "d" "code_section.old") = none := by decide
  have hrefused : (Storage.refusing .permissionDenied nofun).objection?
      (joinPath "d" "code_section.old") = some .permissionDenied := by decide
  refine ⟨hlong, hdir, ?_, ?_, ?_, ?_, ?_⟩
  · rw [clearBlobs_stale .plain hlong rfl, objection?_dotted .plain (by decide)]
  · rw [clearBlobs_stale (.refusing _ _) hdir rfl, hrefused]
  · rw [clearBlobs, hdir]
    rfl
  · rw [clearBlobs_stale .plain hdir rfl, hplain]
  · rw [clearBlobs_stale .plain hdir rfl, hplain]
    decide +kernel

end FileTree
end FaultPlan
