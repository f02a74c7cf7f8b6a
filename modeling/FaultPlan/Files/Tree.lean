/-
  File trees: what a file system holds, as a value.

  A tree lists its entries by place, the names that lead there from the root.  The root itself is
  always a directory and is not listed.  Three invariants come with every tree: places are listed
  once, whatever is listed lies in a directory that is listed too, and so is the current directory.
  The three ways to change a tree keep them: `put` sets a file, link or new directory inside an
  existing directory, `removeLeaves` takes files and links away, `prune` takes a directory away with
  all that is below it.
-/
import FaultPlan.Files.Path

namespace FaultPlan

/-- The names that lead from the root to an entry. -/
abbrev Place := List Name

inductive Entry where
  | file (contents : Bytes)
  | directory
  /-- A symbolic link with the path that it holds. -/
  | link (target : Path)
  deriving DecidableEq, Repr

/-- Tells whether the place is the root or listed as a directory. -/
def DirectoryIn (entries : List (Place × Entry)) (p : Place) : Prop :=
  p = [] ∨ (p, Entry.directory) ∈ entries

structure FileTree where
  entries : List (Place × Entry)
  /-- The current directory, where relative paths begin. -/
  cwd : Place
  distinct : (entries.map Prod.fst).Nodup
  rooted : ∀ x ∈ entries, x.1 ≠ [] ∧ DirectoryIn entries x.1.dropLast
  cwd_directory : DirectoryIn entries cwd

namespace FileTree

/-- The empty tree, in which the root is the current directory. -/
def empty : FileTree := ⟨[], [], .nil, by simp, .inl rfl⟩

/-! ## Looking up -/

/-- The entry at a place, if there is one. -/
def get? (t : FileTree) (p : Place) : Option Entry :=
  if p = [] then some .directory else (t.entries.find? (·.1 == p)).map (·.2)

theorem find?_eq_some_iff {p : Place} {e : Entry} : ∀ {es : List (Place × Entry)},
    (es.map Prod.fst).Nodup → ((es.find? (·.1 == p)).map (·.2) = some e ↔ (p, e) ∈ es)
  | [], _ => by simp
  | (q, d) :: es, h => by
    obtain ⟨hq, hes⟩ := List.nodup_cons.1 h
    by_cases hpq : q = p
    · subst hpq
      have hmem : ∀ e', (q, e') ∉ es := fun e' h' => hq (List.mem_map.2 ⟨_, h', rfl⟩)
      simp [hmem, eq_comm]
    · simp [hpq, Ne.symm hpq, find?_eq_some_iff (p := p) (e := e) hes]

/-- Below the root, what a place holds is what the tree lists. -/
theorem get?_eq_some_iff (t : FileTree) {p : Place} {e : Entry} (hp : p ≠ []) :
    t.get? p = some e ↔ (p, e) ∈ t.entries := by
  rw [get?, if_neg hp]; exact find?_eq_some_iff t.distinct

theorem get?_eq_directory_iff (t : FileTree) {p : Place} :
    t.get? p = some .directory ↔ DirectoryIn t.entries p := by
  by_cases hp : p = []
  · simp [hp, get?, DirectoryIn]
  · simp [t.get?_eq_some_iff hp, DirectoryIn, hp]

/-! ## Changing -/

/-- Entries that satisfy `gone` are taken away, directories excepted. -/
def removeLeaves (t : FileTree) (gone : Place → Entry → Bool) : FileTree where
  entries := t.entries.filter fun x => x.2 == .directory || !gone x.1 x.2
  cwd := t.cwd
  distinct := t.distinct.sublist (List.filter_sublist.map _)
  rooted x hx := by
    have keep {p : Place} : DirectoryIn t.entries p → DirectoryIn
        (t.entries.filter fun x => x.2 == .directory || !gone x.1 x.2) p :=
      Or.imp id fun h => List.mem_filter.2 ⟨h, by simp⟩
    obtain ⟨hne, hdir⟩ := t.rooted x (List.mem_filter.1 hx).1
    exact ⟨hne, keep hdir⟩
  cwd_directory := t.cwd_directory.imp id fun h => List.mem_filter.2 ⟨h, by simp⟩

/-- The entry is set at the place, if the place lies in a directory and is none itself; otherwise
    the tree stays as it is. -/
def put (t : FileTree) (p : Place) (e : Entry) : FileTree :=
  if h : p ≠ [] ∧ t.get? p.dropLast = some .directory ∧ t.get? p ≠ some .directory then
    have keep {q : Place} : DirectoryIn t.entries q →
        DirectoryIn ((p, e) :: t.entries.filter (·.1 != p)) q := Or.imp id fun hq => by
      refine List.mem_cons_of_mem _ (List.mem_filter.2 ⟨hq, ?_⟩)
      have : q ≠ p := fun hqp => h.2.2 (t.get?_eq_directory_iff.2 (.inr (hqp ▸ hq)))
      simpa using this
    { entries := (p, e) :: t.entries.filter (·.1 != p)
      cwd := t.cwd
      distinct := List.nodup_cons.2
        ⟨by simp, t.distinct.sublist (List.filter_sublist.map _)⟩
      rooted := fun x hx => by
        rcases List.mem_cons.1 hx with rfl | hx
        · exact ⟨h.1, keep (t.get?_eq_directory_iff.1 h.2.1)⟩
        · obtain ⟨hne, hdir⟩ := t.rooted x (List.mem_filter.1 hx).1
          exact ⟨hne, keep hdir⟩
      cwd_directory := keep t.cwd_directory }
  else t

/-- The place and everything below it are taken away, unless the current directory is there. -/
def prune (t : FileTree) (p : Place) : FileTree :=
  if h : p.isPrefixOf t.cwd then t else
    have keep {q : Place} (hq : ¬ p <+: q) : DirectoryIn t.entries q →
        DirectoryIn (t.entries.filter fun x => !p.isPrefixOf x.1) q :=
      Or.imp id fun hmem => List.mem_filter.2
        ⟨hmem, by simpa [← List.isPrefixOf_iff_prefix] using hq⟩
    { entries := t.entries.filter fun x => !p.isPrefixOf x.1
      cwd := t.cwd
      distinct := t.distinct.sublist (List.filter_sublist.map _)
      rooted := fun x hx => by
        obtain ⟨hmem, hx⟩ := List.mem_filter.1 hx
        obtain ⟨hne, hdir⟩ := t.rooted x hmem
        have hx : ¬ p <+: x.1 := by simpa [← List.isPrefixOf_iff_prefix] using hx
        exact ⟨hne, keep (fun hp => hx (hp.trans (List.dropLast_prefix _))) hdir⟩
      cwd_directory := keep (by simpa [← List.isPrefixOf_iff_prefix] using h) t.cwd_directory }

/-- The place becomes the current directory, if it is a directory. -/
def enter (t : FileTree) (p : Place) : FileTree :=
  if h : t.get? p = some .directory then
    { t with cwd := p, cwd_directory := t.get?_eq_directory_iff.1 h }
  else t

/-! ## What the changes do -/

theorem get?_put (t : FileTree) {p : Place} {e : Entry} (hp : p ≠ [])
    (hdir : t.get? p.dropLast = some .directory) (hfree : t.get? p ≠ some .directory) (q : Place) :
    (t.put p e).get? q = if q = p then some e else t.get? q := by
  rw [put, dif_pos ⟨hp, hdir, hfree⟩]
  by_cases hq : q = []
  · subst hq; simp [get?, Ne.symm hp]
  · simp only [get?, if_neg hq]
    by_cases hqp : q = p
    · subst hqp; simp
    · rw [if_neg hqp, List.find?_cons_of_neg (by simpa using Ne.symm hqp), List.find?_filter]
      congr 2
      funext x
      by_cases hx : x.1 = q <;> simp_all

theorem get?_removeLeaves (t : FileTree) (gone : Place → Entry → Bool) (p : Place) :
    (t.removeLeaves gone).get? p
      = (t.get? p).filter fun e => e == .directory || !gone p e := by
  by_cases hp : p = []
  · subst hp; rfl
  · refine Option.ext fun e => ?_
    rw [get?_eq_some_iff _ hp, Option.filter_eq_some_iff, t.get?_eq_some_iff hp]
    exact List.mem_filter

end FileTree
end FaultPlan
