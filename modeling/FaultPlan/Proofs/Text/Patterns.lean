/-
  Patterns, and where they are found.

  A pattern can match the beginning of a text in several ways.  `ways` lists them in order of
  preference: a repetition prefers one character more to one less, and of two patterns in a row the
  first chooses first.  A pattern is found where it matches leftmost, in the way preferred there
  (`Finds`).  Main statements: a repetition in a row takes all that it can take
  (`head?_ways_many`), and a fixed text with something behind it that matches anywhere is found at
  the first occurrence of that text (`finds_literal_iff`), which is where `afterFirst?` cuts
  (`afterFirst?_eq_some_iff`).
-/
import FaultPlan.Text.Pieces
import Mathlib.Data.List.Infix

namespace FaultPlan.Text

/-! ## The first occurrence of a text -/

/-- `before` and `rest` are what stands in front of the first occurrence of `needle` and behind
    it. -/
structure FirstCut (needle cs before rest : List Char) : Prop where
  split : cs = before ++ (needle ++ rest)
  first : ∀ before' rest', cs = before' ++ (needle ++ rest') → before.length ≤ before'.length

namespace FirstCut

variable {needle cs before rest before' rest' : List Char}

theorem isInfix (h : FirstCut needle cs before rest) : needle <:+: cs :=
  ⟨before, rest, by rw [h.split, List.append_assoc]⟩

theorem of_eq_append (h : cs = needle ++ rest) : FirstCut needle cs [] rest :=
  ⟨h, fun _ _ _ => Nat.zero_le _⟩

/-- A text has one first occurrence at most. -/
theorem unique (h : FirstCut needle cs before rest) (h' : FirstCut needle cs before' rest') :
    before = before' ∧ rest = rest' := by
  have hlength : before.length = before'.length :=
    Nat.le_antisymm (h.first _ _ h'.split) (h'.first _ _ h.split)
  obtain ⟨hbefore, hrest⟩ := List.append_inj (h.split.symm.trans h'.split) hlength
  exact ⟨hbefore, List.append_cancel_left hrest⟩

/-- A text that does not begin with the needle is cut where the rest of it is. -/
theorem cons_iff {c : Char} (hc : ¬ needle <+: c :: cs) :
    FirstCut needle (c :: cs) before rest ↔
      ∃ before', before = c :: before' ∧ FirstCut needle cs before' rest := by
  -- an occurrence in the longer text has the character in front of it
  have hcons {xs ys : List Char} (h : c :: cs = xs ++ (needle ++ ys)) :
      ∃ xs', xs = c :: xs' ∧ cs = xs' ++ (needle ++ ys) := by
    rcases List.cons_eq_append_iff.1 h with ⟨-, hys⟩ | ⟨xs', hxs, hcs⟩
    · exact absurd ⟨ys, hys⟩ hc
    · exact ⟨xs', hxs, hcs⟩
  constructor
  · intro h
    obtain ⟨before', rfl, hcs⟩ := hcons h.split
    refine ⟨before', rfl, hcs, fun xs ys hxs => ?_⟩
    have := h.first (c :: xs) ys (by rw [hxs, List.cons_append])
    simpa using this
  · rintro ⟨before', rfl, h⟩
    refine ⟨by rw [h.split, List.cons_append], fun xs ys hxs => ?_⟩
    obtain ⟨xs', rfl, hcs⟩ := hcons hxs
    simpa using h.first xs' ys hcs

end FirstCut

section

variable {needle cs rest : List Char}

/-- **The search cuts at the first occurrence**, ... -/
theorem afterFirst?_eq_some_iff :
    afterFirst? needle cs = some rest ↔ ∃ before, FirstCut needle cs before rest := by
  induction cs with
  | nil =>
    cases needle with
    | nil =>
      constructor
      · intro h
        obtain rfl := Option.some.inj h
        exact ⟨[], .of_eq_append rfl⟩
      · rintro ⟨before, h⟩
        have hrest : rest = [] := by simpa using (List.nil_eq_append_iff.1 h.split).2
        rw [hrest]
        rfl
    | cons n needle =>
      refine ⟨fun h => (nomatch h), ?_⟩
      rintro ⟨before, h⟩
      have := (List.nil_eq_append_iff.1 h.split).2
      nomatch this
  | cons c cs ih =>
    by_cases hc : needle <+: c :: cs
    · rw [afterFirst?, if_pos (List.isPrefixOf_iff_prefix.2 hc), Option.some.injEq]
      obtain ⟨rest', hrest'⟩ := hc
      have hcut : FirstCut needle (c :: cs) [] rest' := .of_eq_append hrest'.symm
      rw [← hrest', List.drop_left, hrest']
      constructor
      · rintro rfl
        exact ⟨[], hcut⟩
      · rintro ⟨before, h⟩
        exact (hcut.unique h).2
    · rw [afterFirst?, if_neg (mt List.isPrefixOf_iff_prefix.1 hc), ih]
      constructor
      · rintro ⟨before, h⟩
        exact ⟨c :: before, (FirstCut.cons_iff hc).2 ⟨before, rfl, h⟩⟩
      · rintro ⟨before, h⟩
        obtain ⟨before', -, h'⟩ := (FirstCut.cons_iff hc).1 h
        exact ⟨before', h'⟩

/-- ... and finds one wherever there is one. -/
theorem exists_firstCut (h : needle <:+: cs) : ∃ before rest, FirstCut needle cs before rest := by
  induction cs with
  | nil =>
    obtain rfl := List.infix_nil.1 h
    exact ⟨[], [], .of_eq_append rfl⟩
  | cons c cs ih =>
    by_cases hc : needle <+: c :: cs
    · obtain ⟨rest, hrest⟩ := hc
      exact ⟨[], rest, .of_eq_append hrest.symm⟩
    · obtain ⟨before, rest, hcut⟩ := ih ((List.infix_cons_iff.1 h).resolve_left hc)
      exact ⟨c :: before, rest, (FirstCut.cons_iff hc).2 ⟨before, rfl, hcut⟩⟩

theorem afterFirst?_eq_none_iff : afterFirst? needle cs = none ↔ ¬ needle <:+: cs := by
  constructor
  · intro hnone h
    obtain ⟨before, rest, hcut⟩ := exists_firstCut h
    rw [afterFirst?_eq_some_iff.2 ⟨before, hcut⟩] at hnone
    nomatch hnone
  · intro h
    refine Option.eq_none_iff_forall_ne_some.2 fun rest hrest => h ?_
    obtain ⟨before, hcut⟩ := afterFirst?_eq_some_iff.1 hrest
    exact hcut.isInfix

end

/-! ## Patterns -/

/-- A pattern: a fixed text, a character that passes a test as often as there is one, two patterns
    in a row, or a pattern whose text is kept. -/
inductive Pattern where
  | literal (text : List Char)
  | many (test : Char → Bool)
  | both (first second : Pattern)
  | group (inner : Pattern)

/-- What a pattern has matched at the beginning of a text: the part that it took, the texts of its
    groups, and what it left. -/
structure Match where
  taken : List Char
  groups : List (List Char)
  rest : List Char

/-- A text cut after some of the characters at its beginning that pass the test, the longest cut
    first. -/
def cuts (test : Char → Bool) : List Char → List (List Char × List Char)
  | [] => [([], [])]
  | c :: cs =>
    if test c then (cuts test cs).map (fun cut => (c :: cut.1, cut.2)) ++ [([], c :: cs)]
    else [([], c :: cs)]

namespace Pattern

/-- The ways in which the pattern matches the beginning of a text, the preferred one first. -/
def ways : Pattern → List Char → List Match
  | literal text, cs => if text.isPrefixOf cs then [⟨text, [], cs.drop text.length⟩] else []
  | many test, cs => (cuts test cs).map fun cut => ⟨cut.1, [], cut.2⟩
  | both first second, cs =>
    (first.ways cs).flatMap fun m =>
      (second.ways m.rest).map fun n => ⟨m.taken ++ n.taken, m.groups ++ n.groups, n.rest⟩
  | group inner, cs => (inner.ways cs).map fun m => { m with groups := m.taken :: m.groups }

/-- The pattern is found in the text with this match: the preferred one at the leftmost position
    that has any. -/
def Finds (p : Pattern) (cs : List Char) (m : Match) : Prop :=
  ∃ before here, cs = before ++ here ∧ (p.ways here).head? = some m ∧
    ∀ before' here', cs = before' ++ here' → p.ways here' ≠ [] → before.length ≤ before'.length

section

variable {p q : Pattern} {cs : List Char} {m n : Match}

/-- A repetition prefers to take all that it can take. -/
theorem head?_ways_many (test : Char → Bool) (cs : List Char) :
    ((many test).ways cs).head? = some ⟨cs.takeWhile test, [], cs.dropWhile test⟩ := by
  have hcuts : (cuts test cs).head? = some (cs.takeWhile test, cs.dropWhile test) := by
    induction cs with
    | nil => rfl
    | cons c cs ih =>
      by_cases hc : test c = true
      · rw [cuts, if_pos hc, List.head?_append, List.head?_map, ih, List.takeWhile_cons_of_pos hc,
          List.dropWhile_cons_of_pos hc]
        rfl
      · rw [cuts, if_neg hc, List.takeWhile_cons_of_neg hc, List.dropWhile_cons_of_neg hc]
        rfl
  rw [ways, List.head?_map, hcuts]
  rfl

/-- Two patterns in a row prefer what the second prefers behind what the first prefers. -/
theorem head?_ways_both (hp : (p.ways cs).head? = some m) (hq : (q.ways m.rest).head? = some n) :
    ((both p q).ways cs).head? =
      some ⟨m.taken ++ n.taken, m.groups ++ n.groups, n.rest⟩ := by
  obtain ⟨others, hp⟩ := List.head?_eq_some_iff.1 hp
  rw [ways, hp, List.flatMap_cons, List.head?_append, List.head?_map, hq]
  rfl

theorem head?_ways_group (hp : (p.ways cs).head? = some m) :
    ((group p).ways cs).head? = some { m with groups := m.taken :: m.groups } := by
  rw [ways, List.head?_map, hp]
  rfl

theorem ways_literal_append (text rest : List Char) :
    (literal text).ways (text ++ rest) = [⟨text, [], rest⟩] := by
  rw [ways, if_pos (List.isPrefixOf_iff_prefix.2 (List.prefix_append text rest)), List.drop_left]

/-- A pattern that begins with a fixed text matches only where that text stands. -/
theorem prefix_of_ways_literal {text : List Char} (h : (both (literal text) q).ways cs ≠ []) :
    text <+: cs := by
  by_contra hno
  rw [ways, ways, if_neg (mt List.isPrefixOf_iff_prefix.1 hno)] at h
  exact h rfl

/-- **A fixed text is found at its first occurrence**, if what follows it in the pattern matches
    anywhere; the rest of the match is what is preferred behind that occurrence. -/
theorem finds_literal_iff {text : List Char} (hq : ∀ cs, q.ways cs ≠ []) :
    (both (literal text) q).Finds cs m ↔ ∃ before rest n, FirstCut text cs before rest ∧
      (q.ways rest).head? = some n ∧ m = ⟨text ++ n.taken, n.groups, n.rest⟩ := by
  -- behind an occurrence the pattern matches, and in the way that `q` prefers
  have hhead {rest : List Char} {n : Match} (hn : (q.ways rest).head? = some n) :
      ((both (literal text) q).ways (text ++ rest)).head? =
        some ⟨text ++ n.taken, n.groups, n.rest⟩ :=
    head?_ways_both (m := ⟨text, [], rest⟩) (by rw [ways_literal_append]; rfl) hn
  have hprefers (rest : List Char) : ∃ n, (q.ways rest).head? = some n := by
    obtain ⟨n, others, hn⟩ := List.exists_cons_of_ne_nil (hq rest)
    exact ⟨n, by rw [hn]; rfl⟩
  have hways (rest : List Char) : (both (literal text) q).ways (text ++ rest) ≠ [] := by
    obtain ⟨n, hn⟩ := hprefers rest
    intro hnil
    have := hhead hn
    rw [hnil] at this
    nomatch this
  constructor
  · rintro ⟨before, here, hcs, hm, hleft⟩
    have hne : (both (literal text) q).ways here ≠ [] := by
      intro hnil
      rw [hnil] at hm
      nomatch hm
    obtain ⟨rest, rfl⟩ := prefix_of_ways_literal hne
    obtain ⟨n, hn⟩ := hprefers rest
    refine ⟨before, rest, n, ⟨hcs, fun before' rest' h => ?_⟩, hn, ?_⟩
    · exact hleft before' (text ++ rest') h (hways rest')
    · exact Option.some.inj (hm.symm.trans (hhead hn))
  · rintro ⟨before, rest, n, hcut, hn, rfl⟩
    refine ⟨before, text ++ rest, hcut.split, hhead hn, fun before' here' h hne => ?_⟩
    obtain ⟨rest', rfl⟩ := prefix_of_ways_literal hne
    exact hcut.first before' rest' h

end

end Pattern
end FaultPlan.Text
