/-
  The entries of functions that are not ignored, and whether the ignore ranges hold them.

  Such a function is a closer, so that no span which began before it holds its entry.  Its entry is
  held all the same when another span begins there: an opener that shares the address comes behind
  the function in the table, and no closer of that address behind the opener (`Reopened`).  That is
  the only way (`covered_entry_iff`), because the table is sorted and the first closer behind an
  opener is therefore the lowest one (`exists_first_closer`).
-/
import FaultPlan.Proofs.Symbol.Coverage

namespace FaultPlan.Survey

variable {o : Options} {endOfFlash : UInt64}

/-- Among the symbols that follow a function, an opener has the address, and no closer behind that
    opener has it. -/
def Reopened (o : Options) (later : List Symbol) (x : UInt64) : Prop :=
  ∃ before opener after, later = before ++ opener :: after ∧ opener.address = x ∧
    opens o opener = true ∧ ∀ closer ∈ after, closes o closer = true → closer.address ≠ x

/-! ## Coverage of an entry -/

/-- Among sorted symbols no closer is below the first one. -/
theorem exists_first_closer {symbols : List Symbol} {s : Symbol}
    (hsorted : symbols.Pairwise (fun a b => a.address ≤ b.address)) (hs : s ∈ symbols)
    (hcloses : closes o s = true) :
    ∃ first, symbols.find? (closes o) = some first ∧ first.address ≤ s.address := by
  obtain ⟨first, hfirst⟩ := Option.isSome_iff_exists.1 (List.find?_isSome.2 ⟨s, hs, hcloses⟩)
  refine ⟨first, hfirst, ?_⟩
  obtain ⟨-, before, after, rfl, hbefore⟩ := List.find?_eq_some_iff_append.1 hfirst
  rcases List.mem_append.1 hs with hs | hs
  · exact absurd hcloses (by simpa using hbefore s hs)
  · rcases List.mem_cons.1 hs with rfl | hs
    · exact UInt64.le_refl _
    · exact (List.pairwise_cons.1 (List.pairwise_append.1 hsorted).2.1).1 s hs

/-- Among sorted symbols that are not below an address, the first closer is above it when no closer
    has it. -/
theorem first_closer_above_iff {symbols : List Symbol} {x : UInt64}
    (hsorted : symbols.Pairwise (fun a b => a.address ≤ b.address))
    (hx : ∀ s ∈ symbols, x ≤ s.address) :
    (∀ s, symbols.find? (closes o) = some s → x < s.address) ↔
      ∀ s ∈ symbols, closes o s = true → s.address ≠ x := by
  constructor
  · intro h s hs hcloses heq
    obtain ⟨first, hfirst, hle⟩ := exists_first_closer hsorted hs hcloses
    exact UInt64.lt_irrefl x (UInt64.lt_of_lt_of_le (h first hfirst) (heq ▸ hle))
  · intro h s hs
    have hne : s.address ≠ x := h s (List.mem_of_find?_eq_some hs) (List.find?_some hs)
    exact Std.lt_of_le_of_ne (hx s (List.mem_of_find?_eq_some hs)) hne.symm

/-- The span of an opener before a closer does not reach the closer's entry. -/
theorem not_reaches_entry {lower : UInt64} {mid later : List Symbol} {s : Symbol}
    (hsorted : (mid ++ s :: later).Pairwise (fun a b => a.address ≤ b.address))
    (hcloses : closes o s = true) :
    ¬ Reaches o endOfFlash lower (mid ++ s :: later) s.address := by
  rintro ⟨-, -, hfirst⟩
  have hs : s ∈ mid ++ s :: later := by simp
  obtain ⟨first, hsome, hle⟩ := exists_first_closer hsorted hs hcloses
  exact UInt64.lt_irrefl _ (UInt64.lt_of_lt_of_le (hfirst first hsome) hle)

/-- An opener of a table stands before a closer of it or behind it. -/
theorem opener_before_or_behind {before later front after : List Symbol} {s u : Symbol}
    (hsplit : before ++ s :: later = front ++ u :: after) (hcloses : closes o s = true)
    (hopens : opens o u = true) :
    (∃ mid, after = mid ++ s :: later) ∨ ∃ mid, later = mid ++ u :: after := by
  have hne : s ≠ u := by
    rintro rfl
    rw [not_opens_of_closes hcloses] at hopens
    nomatch hopens
  rcases List.append_eq_append_iff.1 hsplit with ⟨mid, -, hmid⟩ | ⟨mid, -, hmid⟩
  · rcases List.cons_eq_append_iff.1 hmid with ⟨-, hu⟩ | ⟨mid', -, hmid'⟩
    · exact absurd (List.cons.inj hu).1.symm hne
    · exact Or.inr ⟨mid', hmid'⟩
  · rcases List.cons_eq_append_iff.1 hmid with ⟨-, hs⟩ | ⟨mid', -, hmid'⟩
    · exact absurd (List.cons.inj hs).1 hne
    · exact Or.inl ⟨mid', hmid'⟩

/-- **The entry of a closer** is covered exactly when a span begins there behind it. -/
theorem covered_entry_iff {before later : List Symbol} {s : Symbol}
    (hsorted : (before ++ s :: later).Pairwise (fun a b => a.address ≤ b.address))
    (hcloses : closes o s = true) :
    Covered o endOfFlash (before ++ s :: later) s.address ↔
      s.address < endOfFlash ∧ Reopened o later s.address := by
  have hsorted' := (List.pairwise_append.1 hsorted).2.1
  obtain ⟨habove, hlater⟩ := List.pairwise_cons.1 hsorted'
  -- what comes behind an opener behind the closer is sorted, and not below the entry
  have hbehind : ∀ {mid after : List Symbol} {u : Symbol}, later = mid ++ u :: after →
      ((∀ c, after.find? (closes o) = some c → s.address < c.address) ↔
        ∀ c ∈ after, closes o c = true → c.address ≠ s.address) := by
    rintro mid after u rfl
    have hafter := (List.pairwise_cons.1 (List.pairwise_append.1 hlater).2.1).2
    exact first_closer_above_iff hafter fun c hc =>
      habove c (List.mem_append_right _ (List.mem_cons_of_mem _ hc))
  constructor
  · rintro ⟨front, u, after, hsplit, hopens, hreaches⟩
    rcases opener_before_or_behind hsplit hcloses hopens with ⟨mid, rfl⟩ | ⟨mid, rfl⟩
    · have hafter := (List.pairwise_append.1 (hsplit ▸ hsorted)).2.1
      exact absurd hreaches (not_reaches_entry (List.pairwise_cons.1 hafter).2 hcloses)
    · obtain ⟨hle, hlt, hfirst⟩ := hreaches
      have hge : s.address ≤ u.address := habove u (by simp)
      exact ⟨hlt, mid, u, after, rfl, UInt64.le_antisymm hle hge, hopens, (hbehind rfl).1 hfirst⟩
  · rintro ⟨hlt, mid, u, after, rfl, hu, hopens, hclosers⟩
    exact ⟨before ++ s :: mid, u, after, by simp, hopens, UInt64.le_of_eq hu, hlt,
      (hbehind rfl).2 hclosers⟩

/-! ## Start and halts of a survey -/

/-- The ignore ranges hold the entry of a closer exactly when it is in flash and a span begins there
    behind the closer. -/
theorem entry_mem_ignores_iff {text : String} {survey : Survey} {before later : List Symbol}
    {s : Symbol} (h : ofSymbols o endOfFlash (symbolTable text) = .ok survey)
    (hsplit : symbolTable text = before ++ s :: later) (hcloses : closes o s = true) :
    (∃ r ∈ survey.ignores, r.Contains s.address) ↔
      s.address < endOfFlash ∧ Reopened o later s.address := by
  rw [exists_mem_ignores_iff h, hsplit]
  exact covered_entry_iff (hsplit ▸ pairwise_symbolTable text) hcloses

/-- The start is at the last symbol with the start symbol's name. -/
theorem startAddress?_of_last {before later : List Symbol} {s : Symbol} (hname : s.name = o.start)
    (hlast : ∀ u ∈ later, u.name ≠ o.start) :
    startAddress? o (before ++ s :: later) = some s.address := by
  have hlater : later.filter (·.name == o.start) = [] :=
    List.filter_eq_nil_iff.2 fun u hu => by simpa using hlast u hu
  rw [startAddress?, List.filter_append, List.filter_cons_of_pos (by simpa using hname), hlater,
    List.getLast?_concat]
  rfl

/-- **The entries of start and halts.**  When the symbol whose address is the start is a function
    that is not ignored, the ignore ranges hold the start exactly when it is in flash and an opener
    that shares its address comes behind that function in the table, with no function of that
    address behind it that is not ignored.  The same is true of each halt that is such a function. -/
theorem entry_ignored_iff_reopened {text : String} {survey : Survey}
    (h : ofSymbols o endOfFlash (symbolTable text) = .ok survey) :
    (∀ before s later, symbolTable text = before ++ s :: later → s.name = o.start →
      (∀ u ∈ later, u.name ≠ o.start) → s.kind = .function → s.name ∉ o.ignores.names →
      survey.start = s.address ∧
        ((∃ r ∈ survey.ignores, r.lower ≤ survey.start ∧ survey.start < r.upper) ↔
          survey.start < endOfFlash ∧ Reopened o later survey.start)) ∧
    survey.halts = ((symbolTable text).filter
      fun s => s.name ≠ o.start ∧ s.name ∈ o.halts).map (fun s => ⟨s.name, s.address⟩) ∧
    (∀ before s later, symbolTable text = before ++ s :: later → s.name ≠ o.start →
      s.name ∈ o.halts → s.kind = .function → s.name ∉ o.ignores.names →
      ((∃ r ∈ survey.ignores, r.lower ≤ s.address ∧ s.address < r.upper) ↔
        s.address < endOfFlash ∧ Reopened o later s.address)) := by
  obtain ⟨hstart, hhalts, -, -⟩ := ofSymbols_eq_ok_iff.1 h
  refine ⟨?_, ?_, ?_⟩
  · intro before s later hsplit hname hlast hkind hignored
    have heq : survey.start = s.address := by
      rw [hsplit, startAddress?_of_last hname hlast] at hstart
      exact (Option.some.inj hstart).symm
    rw [heq]
    exact ⟨rfl, entry_mem_ignores_iff h hsplit (closes_iff.2 ⟨hkind, hignored⟩)⟩
  · rw [← hhalts, haltPoints]
    congr 1
    refine List.filter_congr fun s _ => ?_
    rw [Bool.eq_iff_iff]
    simp [isHaltSymbol, Options.isHalt]
  · intro before s later hsplit _ _ hkind hignored
    exact entry_mem_ignores_iff h hsplit (closes_iff.2 ⟨hkind, hignored⟩)

/-- Data at the address of the start comes before it in the table, and data at that of the halt
    comes behind it: the start is not held, and the halt is. -/
theorem entry_ignored_iff_reopened_two_orders :
    let o := (Options.new "main").withHalt "win"
    let text := "10 a O key\n10 g F main\n40 g F win\n40 l O vec\n"
    ∃ survey, ofSymbols o 0x100 (symbolTable text) = .ok survey ∧
      (¬ ∃ r ∈ survey.ignores, r.lower ≤ survey.start ∧ survey.start < r.upper) ∧
      ∃ r ∈ survey.ignores, r.lower ≤ 0x40 ∧ 0x40 < r.upper := by
  intro o text
  have h : ofSymbols o 0x100 (symbolTable text) = .ok ⟨0x10, [⟨"win", 0x40⟩], [⟨0x40, 0x100⟩]⟩ :=
    ofSymbols_eq_ok_iff.2 ⟨by decide, by decide, by decide, by decide⟩
  have hstart : symbolTable text = [⟨0x10, .object, "key"⟩] ++ ⟨0x10, .function, "main"⟩ ::
      [⟨0x40, .function, "win"⟩, ⟨0x40, .object, "vec"⟩] := by decide
  have hhalt : symbolTable text = [⟨0x10, .object, "key"⟩, ⟨0x10, .function, "main"⟩] ++
      ⟨0x40, .function, "win"⟩ :: [⟨0x40, .object, "vec"⟩] := by decide
  obtain ⟨hentry, -, hexit⟩ := entry_ignored_iff_reopened h
  refine ⟨_, h, ?_, ?_⟩
  · obtain ⟨-, hiff⟩ := hentry _ _ _ hstart rfl (by decide) rfl (by decide)
    rw [hiff]
    -- nothing behind the start has its address
    rintro ⟨-, before, opener, after, hlater, haddress, -⟩
    have hmem : opener ∈ before ++ opener :: after := by simp
    rw [← hlater] at hmem
    simp only [List.mem_cons, List.not_mem_nil, or_false] at hmem
    rcases hmem with rfl | rfl <;> nomatch haddress
  · rw [hexit _ _ _ hhalt (by decide) (by decide) rfl (by decide)]
    exact ⟨by decide, [], ⟨0x40, .object, "vec"⟩, [], rfl, rfl, by decide, nofun⟩

/-- Start and halt are functions that are not ignored, and the ignore ranges hold both: a data
    object shares the address of each, and its line is the greater one. -/
theorem shared_entries_are_ignored :
    let o := (Options.new "main").withHalt "win"
    let text := "10 g F main\n10 g O tbl\n40 g F win\n40 g O vec\n"
    symbolTable text = [⟨0x10, .function, "main"⟩, ⟨0x10, .object, "tbl"⟩,
      ⟨0x40, .function, "win"⟩, ⟨0x40, .object, "vec"⟩] ∧ o.ignores.names = [] ∧
    ∃ survey, ofSymbols o 0x100 (symbolTable text) = .ok survey ∧
      survey.start = 0x10 ∧ survey.halts = [⟨"win", 0x40⟩] ∧
      (∃ r ∈ survey.ignores, r.lower ≤ 0x10 ∧ 0x10 < r.upper) ∧
      ∃ r ∈ survey.ignores, r.lower ≤ 0x40 ∧ 0x40 < r.upper := by
  intro o text
  have h : ofSymbols o 0x100 (symbolTable text) =
      .ok ⟨0x10, [⟨"win", 0x40⟩], [⟨0x10, 0x40⟩, ⟨0x40, 0x100⟩]⟩ :=
    ofSymbols_eq_ok_iff.2 ⟨by decide, by decide, by decide, by decide⟩
  exact ⟨by decide, rfl, _, h, rfl, rfl, ⟨⟨0x10, 0x40⟩, by simp, by decide, by decide⟩,
    ⟨0x40, 0x100⟩, by simp, by decide, by decide⟩

end FaultPlan.Survey
