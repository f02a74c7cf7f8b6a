/-
  The items of a comma-separated text, each as a whole.

  A piece stands between two of the characters that cut, or between one of them and an end of the
  text, and holds none itself (`mem_pieces_iff`).  So a text has an item exactly if the item, with
  blanks around it or without, stands in it between commas (`mem_items_iff`); to be a part of a
  longer item is not enough.  All items together are what is left of the pieces that make the text
  again when commas are set between them (`itemsOf_iff`).
-/
import Mathlib.Data.List.Basic
import FaultPlan.Proofs.Text.Words

namespace FaultPlan.Text

/-- The piece stands among the characters, and what is next to it on either side cuts. -/
def StandsBetween (p : Char → Bool) (piece cs : List Char) : Prop :=
  ∃ before behind, cs = before ++ piece ++ behind ∧
    (∀ c, before.getLast? = some c → p c = true) ∧ (∀ c, behind.head? = some c → p c = true) ∧
    ∀ c ∈ piece, p c = false

section

variable {p : Char → Bool} {piece : List Char}

/-- The first cut gives the first piece, and all others stand behind it. -/
theorem standsBetween_of_mem_pieces {cs : List Char} (h : piece ∈ pieces p cs) :
    StandsBetween p piece cs := by
  cases hfind : cs.find? p with
  | none =>
    have huncut : ∀ c ∈ cs, p c = false := by simpa using List.find?_eq_none.1 hfind
    rw [pieces_of_uncut huncut] at h
    obtain rfl := List.mem_singleton.1 h
    exact ⟨[], [], by simp, nofun, nofun, huncut⟩
  | some c =>
    obtain ⟨hc, xs, ys, rfl, hxs⟩ := List.find?_eq_some_iff_append.1 hfind
    have huncut : ∀ d ∈ xs, p d = false := by simpa using hxs
    rw [pieces_append_cut hc, pieces_of_uncut huncut] at h
    rcases List.mem_append.1 h with h | h
    · obtain rfl := List.mem_singleton.1 h
      refine ⟨[], c :: ys, rfl, nofun, ?_, huncut⟩
      intro d hd
      obtain rfl := Option.some.inj hd
      exact hc
    · obtain ⟨before, behind, rfl, hbefore, hbehind, hpiece⟩ := standsBetween_of_mem_pieces h
      refine ⟨xs ++ c :: before, behind, by simp, ?_, hbehind, hpiece⟩
      intro d hd
      cases before with
      | nil =>
        rw [List.getLast?_concat] at hd
        obtain rfl := Option.some.inj hd
        exact hc
      | cons b bs =>
        rw [List.getLast?_append_of_ne_nil _ (List.cons_ne_nil _ _), List.getLast?_cons_cons] at hd
        exact hbefore d hd
termination_by cs.length

/-- **Pieces** are what stands between two cuts. -/
theorem mem_pieces_iff {cs : List Char} : piece ∈ pieces p cs ↔ StandsBetween p piece cs := by
  constructor
  · exact standsBetween_of_mem_pieces
  · rintro ⟨before, behind, rfl, hbefore, hbehind, hpiece⟩
    have hfirst : piece ∈ pieces p (piece ++ behind) := by
      cases behind with
      | nil => simp [pieces_of_uncut hpiece]
      | cons c ys =>
        rw [pieces_append_cut (hbehind c rfl), pieces_of_uncut hpiece]
        exact List.mem_cons_self
    rw [List.append_assoc]
    cases hlast : before.getLast? with
    | none =>
      rw [List.getLast?_eq_none_iff.1 hlast]
      exact hfirst
    | some c =>
      obtain ⟨front, rfl⟩ := List.getLast?_eq_some_iff.1 hlast
      rw [List.append_assoc, List.singleton_append, pieces_append_cut (hbefore c hlast)]
      exact List.mem_append_right _ hfirst

end

/-- The text has the item as a whole: it stands between commas or the ends of the text, and blanks
    around it do not count. -/
def HasItem (item s : String) : Prop :=
  ∃ piece, StandsBetween (· == ',') piece s.toList ∧ trimChars piece = item.toList

theorem hasItem_iff {item s : String} :
    HasItem item s ↔ item.toList ∈ (pieces (· == ',') s.toList).map trimChars := by
  simp only [HasItem, List.mem_map, mem_pieces_iff]

instance (item s : String) : Decidable (HasItem item s) := decidable_of_iff _ hasItem_iff.symm

theorem mem_items_iff {item s : String} (hne : item ≠ "") : item ∈ items s ↔ HasItem item s := by
  have hchars : item.toList ≠ [] := by simpa using hne
  rw [hasItem_iff, items, List.mem_map]
  constructor
  · rintro ⟨cs, hcs, rfl⟩
    rw [String.toList_ofList]
    exact (List.mem_filter.1 hcs).1
  · intro h
    refine ⟨item.toList, List.mem_filter.2 ⟨h, ?_⟩, String.ofList_toList⟩
    simpa using hne

/-! ## All items -/

/-- Pieces are cut as the library cuts a list. -/
theorem pieces_eq_splitOnP (p : Char → Bool) (cs : List Char) : pieces p cs = cs.splitOnP p := by
  induction cs with
  | nil => rfl
  | cons c cs ih =>
    rw [pieces, List.splitOnP_cons_eq_if_modifyHead, ih]
    split
    · rfl
    · cases hcuts : cs.splitOnP p with
      | nil => exact absurd hcuts (List.splitOnP_ne_nil p cs)
      | cons w ws => rfl

/-- The items of the text: it is made of pieces without a comma, set one behind the other with a comma
    between each two, and the items are these pieces without the blanks around them, as far as they
    are not empty then. -/
def ItemsOf (s : String) (found : List String) : Prop :=
  ∃ cuts : List (List Char), [','].intercalate cuts = s.toList ∧ (∀ cut ∈ cuts, ',' ∉ cut) ∧
    found = ((cuts.map trimChars).filter (! ·.isEmpty)).map String.ofList

/-- **The items of a text** are those that are read in it, in their order. -/
theorem itemsOf_iff {s : String} {found : List String} : ItemsOf s found ↔ found = items s := by
  have hpieces : pieces (· == ',') s.toList = s.toList.splitOn ',' := pieces_eq_splitOnP _ _
  constructor
  · rintro ⟨cuts, hcuts, huncut, rfl⟩
    rw [items, hpieces, ← hcuts]
    by_cases hne : cuts = []
    · -- no piece at all makes the empty text, as one empty piece does
      subst hne
      rfl
    · rw [List.splitOn_intercalate ',' huncut hne]
  · rintro rfl
    refine ⟨pieces (· == ',') s.toList, ?_, ?_, rfl⟩
    · rw [hpieces, List.intercalate_splitOn]
    · intro cut hcut hmem
      exact Bool.false_ne_true ((uncut_of_mem_pieces hcut ',' hmem).symm.trans rfl)

example : HasItem "ALLOC" "CONTENTS,  ALLOC ,LOAD" ∧ ¬ HasItem "ALLOC" "PREALLOC, ALLOC LOAD" := by
  decide

end FaultPlan.Text
