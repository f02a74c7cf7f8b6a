/-
  The words of a text, and texts that are put together of words.

  A blank separates the words before it from those behind it (`words_of_blank`), so that a text
  which sets tokens between blanks has the words of its tokens, whether they stand on one line or
  below each other (`words_intercalate`, `words_join_lines`).  A token is its own only word if it is
  not empty and holds no blank (`IsWord`), and no other texts are words (`isWord_of_mem_words`).  So
  tokens are read back as they were written exactly if all of them are words
  (`flatMap_words_eq_self_iff`).
-/
import FaultPlan.Text.Pieces

namespace FaultPlan.Text

/-! ## Pieces -/

section

variable {α : Type} {p : α → Bool} {xs ys : List α}

theorem pieces_ne_nil (p : α → Bool) (xs : List α) : pieces p xs ≠ [] := by
  cases xs with
  | nil => nofun
  | cons c cs =>
    rw [pieces]
    split
    · nofun
    · split <;> nofun

theorem pieces_append_cut {c : α} (hc : p c = true) (xs ys : List α) :
    pieces p (xs ++ c :: ys) = pieces p xs ++ pieces p ys := by
  induction xs with
  | nil =>
    change pieces p (c :: ys) = [] :: pieces p ys
    rw [pieces, if_pos hc]
  | cons d ds ih =>
    rw [List.cons_append, pieces, pieces, ih]
    split
    · rfl
    · cases hds : pieces p ds with
      | nil => exact absurd hds (pieces_ne_nil _ _)
      | cons w ws => rfl

/-- Characters that do not cut go to the first piece of what follows. -/
theorem pieces_append_of_uncut (hxs : ∀ c ∈ xs, p c = false) {w : List α} {ws : List (List α)}
    (hys : pieces p ys = w :: ws) : pieces p (xs ++ ys) = (xs ++ w) :: ws := by
  induction xs with
  | nil => exact hys
  | cons c cs ih =>
    have hc : ¬ p c = true := Bool.eq_false_iff.1 (hxs c List.mem_cons_self)
    rw [List.cons_append, pieces, if_neg hc, ih fun d hd => hxs d (List.mem_cons_of_mem c hd)]
    rfl

theorem pieces_of_uncut (hxs : ∀ c ∈ xs, p c = false) : pieces p xs = [xs] := by
  have hnil : pieces p [] = [[]] := rfl
  simpa using pieces_append_of_uncut hxs hnil

/-- No piece holds a character that cuts. -/
theorem uncut_of_mem_pieces {w : List α} (h : w ∈ pieces p xs) : ∀ c ∈ w, p c = false := by
  induction xs generalizing w with
  | nil =>
    obtain rfl := List.mem_singleton.1 h
    nofun
  | cons d ds ih =>
    rw [pieces] at h
    split at h
    · rcases List.mem_cons.1 h with rfl | h
      · nofun
      · exact ih h
    next hd =>
    cases hds : pieces p ds with
    | nil => exact absurd hds (pieces_ne_nil _ _)
    | cons v vs =>
      rw [hds] at h ih
      rcases List.mem_cons.1 h with rfl | h
      · -- the first piece has got one character more
        intro c hc
        rcases List.mem_cons.1 hc with rfl | hc
        · exact Bool.eq_false_iff.2 hd
        · exact ih List.mem_cons_self c hc
      · exact ih (List.mem_cons_of_mem v h)

end

/-! ## Words -/

/-- The text is one word: it is not empty and holds no blank. -/
structure IsWord (s : String) : Prop where
  ne_empty : s ≠ ""
  no_blank : ∀ c ∈ s.toList, isBlank c = false

theorem isWord_iff {s : String} : IsWord s ↔ s ≠ "" ∧ s.toList.all (! isBlank ·) = true := by
  constructor
  · exact fun h => ⟨h.ne_empty, by simpa using h.no_blank⟩
  · exact fun ⟨hne, hall⟩ => ⟨hne, by simpa using hall⟩

instance (s : String) : Decidable (IsWord s) := decidable_of_iff _ isWord_iff.symm

theorem isWord_of_mem_words {s w : String} (h : w ∈ words s) : IsWord w := by
  obtain ⟨cs, hcs, rfl⟩ := List.mem_map.1 h
  obtain ⟨hpiece, hne⟩ := List.mem_filter.1 hcs
  constructor
  · intro hempty
    have hnil : cs = [] := by simpa using congrArg String.toList hempty
    rw [hnil] at hne
    nomatch hne
  · rw [String.toList_ofList]
    exact uncut_of_mem_pieces hpiece

theorem words_of_isWord {s : String} (h : IsWord s) : words s = [s] := by
  have hne : s.toList ≠ [] := by simpa using h.ne_empty
  rw [words, pieces_of_uncut h.no_blank, List.filter_cons, List.isEmpty_eq_false_iff.2 hne]
  simp

/-- A word stays one when characters that are no blanks are put in front of it. -/
theorem isWord_append {s s' : String} (h : ∀ c ∈ s.toList, isBlank c = false) (h' : IsWord s') :
    IsWord (s ++ s') where
  ne_empty hempty := h'.ne_empty (by simpa using (String.append_eq_empty_iff.1 hempty).2)
  no_blank c hc := by
    rw [String.toList_append] at hc
    exact (List.mem_append.1 hc).elim (h c) (h'.no_blank c)

/-! ## Texts made of words -/

/-- **A blank separates** the words before it from those behind it. -/
theorem words_of_blank {s before behind : String} {b : Char} (hb : isBlank b = true)
    (h : s.toList = before.toList ++ b :: behind.toList) :
    words s = words before ++ words behind := by
  rw [words, h, pieces_append_cut hb, List.filter_append, List.map_append]
  rfl

theorem words_append_space (before behind : String) :
    words (before ++ " " ++ behind) = words before ++ words behind :=
  words_of_blank (b := ' ') (by decide) (by simp)

theorem words_append_feed (line : String) : words (line ++ "\n") = words line := by
  have hfeed : (line ++ "\n").toList = line.toList ++ '\n' :: "".toList := by simp
  have hempty : words "" = [] := by decide
  rw [words_of_blank (by decide) hfeed, hempty, List.append_nil]

theorem words_intercalate (tokens : List String) :
    words (" ".intercalate tokens) = tokens.flatMap words := by
  induction tokens with
  | nil => decide
  | cons token rest ih =>
    cases rest with
    | nil => simp
    | cons next rest =>
      rw [String.intercalate_cons_cons, words_append_space, ih]
      rfl

theorem words_join_lines (lines : List String) :
    words (String.join (lines.map (· ++ "\n"))) = lines.flatMap words := by
  induction lines with
  | nil => decide
  | cons line rest ih =>
    rw [List.map_cons, String.join_cons, List.flatMap_cons, ← ih]
    exact words_of_blank (b := '\n') (by decide) (by simp)

/-- **Tokens are read back** as they were written exactly if all of them are words. -/
theorem flatMap_words_eq_self_iff {tokens : List String} :
    tokens.flatMap words = tokens ↔ ∀ token ∈ tokens, IsWord token := by
  constructor
  · intro h token htoken
    rw [← h] at htoken
    obtain ⟨s, -, hs⟩ := List.mem_flatMap.1 htoken
    exact isWord_of_mem_words hs
  · intro h
    induction tokens with
    | nil => rfl
    | cons token rest ih =>
      rw [List.flatMap_cons, words_of_isWord (h token List.mem_cons_self),
        ih fun later hlater => h later (List.mem_cons_of_mem token hlater)]
      rfl

end FaultPlan.Text
