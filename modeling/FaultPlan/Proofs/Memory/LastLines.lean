/-
  The lines of a linker map that decide the layout.

  A map is mostly noise, and a region can be listed more than once.  Its lines are read in one pass, in
  which a valid line replaces the region that it is valid for (`Regions.get_read`).  So each of the two
  regions is decided by a single line, the last of those that are valid for it
  (`Regions.get_ofMap_eq_some_iff`): an invalid line behind it does not clear what it gives, and a valid
  one of no length in front of it does not either.  Lines can be put in or taken out anywhere as long
  as they are valid for no region or superseded by a later one, however many of them at once
  (`Thinned`); the layout, or the region that is missing, stays the same.
-/
import FaultPlan.Proofs.Analysis.Stages

namespace FaultPlan

variable {kind : RegionKind} {line map : String} {lines lines' : List String} {r : Region}

/-! ## Valid lines -/

/-- The line is valid for the region: its first word is the region's name, and the next two are its
    origin and its length in hexadecimal. -/
structure Region.IsGivenBy (kind : RegionKind) (r : Region) (line : String) : Prop where
  name : (Text.words line)[0]? = some kind.name
  origin : (Text.words line)[1]?.bind Hex.parse = some r.origin
  length : (Text.words line)[2]?.bind Hex.parse = some r.length

/-- The region that a line gives, if it is of that kind. -/
def Region.ofLine? (kind : RegionKind) (line : String) : Option Region :=
  match Text.words line with
  | name :: origin :: length :: _ =>
    if name = kind.name then
      (Hex.parse origin).bind fun o => (Hex.parse length).map fun l => ⟨o, l⟩
    else none
  | _ => none

/-- The line gives some region of that kind. -/
def IsValidFor (kind : RegionKind) (line : String) : Prop := ∃ r, Region.IsGivenBy kind r line

theorem Region.ofLine?_eq_some_iff : ofLine? kind line = some r ↔ IsGivenBy kind r line := by
  constructor
  · intro h
    unfold ofLine? at h
    split at h
    · next name origin length more hwords =>
      split at h
      · next hname =>
        obtain ⟨o, ho, h⟩ := Option.bind_eq_some_iff.1 h
        obtain ⟨l, hl, rfl⟩ := Option.map_eq_some_iff.1 h
        exact ⟨by simp [hwords, hname], by simp [hwords, ho], by simp [hwords, hl]⟩
      · nomatch h
    · nomatch h
  · rintro ⟨hname, horigin, hlength⟩
    unfold ofLine?
    match hwords : Text.words line with
    | name :: origin :: length :: more =>
      rw [hwords] at hname horigin hlength
      obtain rfl := Option.some.inj hname
      have ho : Hex.parse origin = some r.origin := horigin
      have hl : Hex.parse length = some r.length := hlength
      simp [ho, hl]
    | [] => simp [hwords] at hname
    | [name] => simp [hwords] at horigin
    | [name, origin] => simp [hwords] at hlength

theorem Region.ofLine?_eq_none_iff : ofLine? kind line = none ↔ ¬ IsValidFor kind line := by
  rw [Option.eq_none_iff_forall_ne_some, IsValidFor, not_exists]
  exact forall_congr' fun r => not_congr ofLine?_eq_some_iff

/-! ## The last of them -/

theorem RegionKind.ofName?_eq_some_iff {name : String} :
    ofName? name = some kind ↔ name = kind.name := by
  constructor
  · intro h
    unfold ofName? at h
    split at h
    · next hname =>
      obtain rfl := Option.some.inj h
      exact hname
    · split at h
      · next hname =>
        obtain rfl := Option.some.inj h
        exact hname
      · nomatch h
  · rintro rfl
    cases kind <;> rfl

namespace Regions

theorem get_set (rs : Regions) (kind' kind : RegionKind) (r : Region) :
    (rs.set kind' r).get kind = if kind'.name = kind.name then some r else rs.get kind := by
  cases kind' <;> cases kind <;> rfl

/-- A line that is valid for a region replaces this region, and no other. -/
theorem get_read (rs : Regions) (kind : RegionKind) (line : String) :
    (rs.read line).get kind = (Region.ofLine? kind line).or (rs.get kind) := by
  unfold read Region.ofLine?
  match Text.words line with
  | name :: origin :: length :: _ =>
    dsimp only
    cases hname : RegionKind.ofName? name with
    | none =>
      have hne : name ≠ kind.name := by
        intro heq
        nomatch hname.symm.trans (RegionKind.ofName?_eq_some_iff.2 heq)
      rw [if_neg hne]
      rfl
    | some kind' =>
      obtain rfl := RegionKind.ofName?_eq_some_iff.1 hname
      dsimp only
      cases Hex.parse origin with
      | none =>
        rw [Option.bind_none, ite_self]
        rfl
      | some o =>
        cases Hex.parse length with
        | none =>
          rw [Option.bind_some, Option.map_none, ite_self]
          rfl
        | some l =>
          dsimp only
          rw [get_set]
          split <;> rfl
  | [] | [_] | [_, _] => rfl

/-- **A map gives of each region what its last valid line gives.** -/
theorem get_ofMap (kind : RegionKind) (map : String) :
    (ofMap map).get kind = ((Text.lines map).filterMap (Region.ofLine? kind)).getLast? := by
  have hfold : ∀ (lines : List String) (rs : Regions), (lines.foldl read rs).get kind =
      (lines.filterMap (Region.ofLine? kind)).getLast?.or (rs.get kind) := by
    intro lines
    induction lines with
    | nil => intro rs; rfl
    | cons line lines ih =>
      intro rs
      rw [List.foldl_cons, ih, get_read, ← Option.or_assoc, List.filterMap_cons]
      cases Region.ofLine? kind line with
      | none => rw [Option.or_none]
      | some r =>
        rw [List.getLast?_cons]
        cases (lines.filterMap (Region.ofLine? kind)).getLast? <;> rfl
  rw [ofMap, hfold]
  cases kind <;> exact Option.or_none

end Regions

/-- The lines give the region last by that line: no line behind it is valid for the region. -/
def Region.IsGivenLast (kind : RegionKind) (r : Region) (lines : List String) : Prop :=
  ∃ before line behind, lines = before ++ line :: behind ∧ IsGivenBy kind r line ∧
    ∀ later ∈ behind, ¬ IsValidFor kind later

/-- **The last valid line decides** a region. -/
theorem Regions.get_ofMap_eq_some_iff :
    (ofMap map).get kind = some r ↔ Region.IsGivenLast kind r (Text.lines map) := by
  rw [get_ofMap, List.getLast?_filterMap, List.findSome?_eq_some_iff]
  constructor
  · rintro ⟨behind, line, before, hlines, hline, hbehind⟩
    refine ⟨before.reverse, line, behind.reverse, ?_, Region.ofLine?_eq_some_iff.1 hline, ?_⟩
    · rw [← List.reverse_reverse (Text.lines map), hlines]
      simp
    · intro later hlater
      exact Region.ofLine?_eq_none_iff.1 (hbehind later (List.mem_reverse.1 hlater))
  · rintro ⟨before, line, behind, hlines, hline, hbehind⟩
    refine ⟨behind.reverse, line, before.reverse, ?_, Region.ofLine?_eq_some_iff.2 hline, ?_⟩
    · simp [hlines]
    · intro later hlater
      exact Region.ofLine?_eq_none_iff.2 (hbehind later (List.mem_reverse.1 hlater))

/-! ## Lines that do not matter -/

instance (kind : RegionKind) (line : String) : Decidable (IsValidFor kind line) :=
  decidable_of_iff (Region.ofLine? kind line ≠ none)
    ((not_congr Region.ofLine?_eq_none_iff).trans Classical.not_not)

/-- The line does not matter in front of these: of every region for which it is valid, there is a
    valid line among them.  A line that is valid for no region never matters. -/
def IsSuperfluous (line : String) (later : List String) : Prop :=
  ∀ kind, IsValidFor kind line → ∃ l ∈ later, IsValidFor kind l

instance (line : String) (later : List String) : Decidable (IsSuperfluous line later) :=
  decidable_of_iff
    ((IsValidFor .flash line → ∃ l ∈ later, IsValidFor .flash l) ∧
      (IsValidFor .ram line → ∃ l ∈ later, IsValidFor .ram l))
    ⟨fun h kind => by cases kind with | flash => exact h.1 | ram => exact h.2,
      fun h => ⟨h .flash, h .ram⟩⟩

/-- The second lines are what is left of the first when some are taken out that do not matter where
    they stand. -/
inductive Thinned : List String → List String → Prop where
  | done : Thinned [] []
  | kept {line : String} {lines lines' : List String} (hrest : Thinned lines lines') :
    Thinned (line :: lines) (line :: lines')
  | taken {line : String} {lines lines' : List String} (hline : IsSuperfluous line lines)
    (hrest : Thinned lines lines') : Thinned (line :: lines) lines'

/-- A line that does not matter takes no region with it. -/
theorem Thinned.getLast?_filterMap (h : Thinned lines lines') (kind : RegionKind) :
    (lines.filterMap (Region.ofLine? kind)).getLast? =
      (lines'.filterMap (Region.ofLine? kind)).getLast? := by
  induction h with
  | done => rfl
  | @kept line lines lines' _ ih =>
    rw [List.filterMap_cons, List.filterMap_cons]
    cases Region.ofLine? kind line with
    | none => exact ih
    | some r => rw [List.getLast?_cons, List.getLast?_cons, ih]
  | @taken line lines lines' hlater _ ih =>
    rw [← ih, List.filterMap_cons]
    cases hline : Region.ofLine? kind line with
    | none => rfl
    | some r =>
      -- something is given behind the line, so that the line is not the last
      obtain ⟨later, hmem, r', hr'⟩ := hlater kind ⟨r, Region.ofLine?_eq_some_iff.1 hline⟩
      have hgiven : r' ∈ lines.filterMap (Region.ofLine? kind) :=
        List.mem_filterMap.2 ⟨later, hmem, Region.ofLine?_eq_some_iff.2 hr'⟩
      exact List.getLast?_cons_of_ne_nil (List.ne_nil_of_mem hgiven)

theorem Thinned.ofMap_eq {map map' : String} (h : Thinned (Text.lines map) (Text.lines map')) :
    Layout.ofMap map = Layout.ofMap map' := by
  have hregion (kind : RegionKind) : (Regions.ofMap map).get kind = (Regions.ofMap map').get kind := by
    rw [Regions.get_ofMap, Regions.get_ofMap, h.getLast?_filterMap]
  simp only [Layout.ofMap, Layout.require, hregion]

/-! ## The layout -/

namespace Layout

theorem require_eq_ok_iff : require kind (.ofMap map) = .ok r ↔
    Region.IsGivenLast kind r (Text.lines map) ∧ r.length ≠ 0 := by
  rw [← Regions.get_ofMap_eq_some_iff, require]
  cases (Regions.ofMap map).get kind with
  | none => simp
  | some found =>
    rw [Option.some.injEq]
    by_cases hlength : found.length = 0
    · simp only [hlength, if_true]
      exact ⟨nofun, fun ⟨heq, hne⟩ => absurd (heq ▸ hlength) hne⟩
    · simp only [hlength, if_false, Except.ok.injEq]
      exact ⟨fun heq => ⟨heq, heq ▸ hlength⟩, And.left⟩

/-- A region that is required is there or missing. -/
theorem require_cases (kind : RegionKind) (rs : Regions) :
    (∃ r, require kind rs = .ok r) ∨ require kind rs = .error (.missingRegion kind) := by
  unfold require
  split
  · split
    · exact Or.inr rfl
    · exact Or.inl ⟨_, rfl⟩
  · exact Or.inr rfl

theorem require_eq_missing_iff : require kind (.ofMap map) = .error (.missingRegion kind) ↔
    ¬ ∃ r, Region.IsGivenLast kind r (Text.lines map) ∧ r.length ≠ 0 := by
  simp only [← require_eq_ok_iff]
  rcases require_cases kind (.ofMap map) with ⟨r, h⟩ | h
  · simp [h]
  · simp [h]

/-- Both regions are there, or the RAM is missing behind a flash, or the flash is missing. -/
theorem ofMap_cases (map : String) :
    (∃ flash ram, require .flash (.ofMap map) = .ok flash ∧ require .ram (.ofMap map) = .ok ram ∧
      ofMap map = .ok ⟨flash, ram⟩) ∨
    (∃ flash, require .flash (.ofMap map) = .ok flash ∧
      require .ram (.ofMap map) = .error (.missingRegion .ram) ∧
      ofMap map = .error (.missingRegion .ram)) ∨
    (require .flash (.ofMap map) = .error (.missingRegion .flash) ∧
      ofMap map = .error (.missingRegion .flash)) := by
  rcases require_cases .flash (.ofMap map) with ⟨flash, hflash⟩ | hflash
  · rcases require_cases .ram (.ofMap map) with ⟨ram, hram⟩ | hram
    · refine Or.inl ⟨flash, ram, hflash, hram, ?_⟩
      rw [ofMap, hflash, hram]
      rfl
    · refine Or.inr (Or.inl ⟨flash, hflash, hram, ?_⟩)
      rw [ofMap, hflash, hram]
      rfl
  · refine Or.inr (Or.inr ⟨hflash, ?_⟩)
    rw [ofMap, hflash]
    rfl

theorem ofMap_eq_missing_flash_iff : ofMap map = .error (.missingRegion .flash) ↔
    require .flash (.ofMap map) = .error (.missingRegion .flash) := by
  rcases ofMap_cases map with ⟨flash, ram, hflash, hram, h⟩ | ⟨flash, hflash, hram, h⟩ | ⟨hflash, h⟩
  · simp [h, hflash]
  · simp [h, hflash]
  · simp [h, hflash]

theorem ofMap_eq_missing_ram_iff : ofMap map = .error (.missingRegion .ram) ↔
    (∃ flash, require .flash (.ofMap map) = .ok flash) ∧
      require .ram (.ofMap map) = .error (.missingRegion .ram) := by
  rcases ofMap_cases map with ⟨flash, ram, hflash, hram, h⟩ | ⟨flash, hflash, hram, h⟩ | ⟨hflash, h⟩
  · simp [h, hram]
  · simp [h, hflash, hram]
  · simp [h, hflash]

/-- **The last valid line of each region decides the layout.**  A map has a layout exactly if the last
    valid line of either region gives it some length, and then the regions are what these two lines
    give.  Otherwise the flash is missing if its last valid line gives it no length or there is none,
    whatever the RAM is, and else the RAM is missing.  Lines that are valid for no region, and lines
    that a later valid line of their region supersedes, make no difference, wherever they are put in
    or taken out. -/
theorem decided_by_last_lines :
    (∀ map l, ofMap map = .ok l ↔
      (Region.IsGivenLast .flash l.flash (Text.lines map) ∧ l.flash.length ≠ 0) ∧
        Region.IsGivenLast .ram l.ram (Text.lines map) ∧ l.ram.length ≠ 0) ∧
    (∀ map, ofMap map = .error (.missingRegion .flash) ↔
      ¬ ∃ flash, Region.IsGivenLast .flash flash (Text.lines map) ∧ flash.length ≠ 0) ∧
    (∀ map, ofMap map = .error (.missingRegion .ram) ↔
      (∃ flash, Region.IsGivenLast .flash flash (Text.lines map) ∧ flash.length ≠ 0) ∧
        ¬ ∃ ram, Region.IsGivenLast .ram ram (Text.lines map) ∧ ram.length ≠ 0) ∧
    ∀ map map', Thinned (Text.lines map) (Text.lines map') → ofMap map = ofMap map' := by
  refine ⟨?_, ?_, ?_, fun map map' h => h.ofMap_eq⟩
  · intro map l
    rw [ofMap_eq_ok_iff, require_eq_ok_iff, require_eq_ok_iff]
  · intro map
    rw [ofMap_eq_missing_flash_iff, require_eq_missing_iff]
  · intro map
    rw [ofMap_eq_missing_ram_iff, require_eq_missing_iff]
    simp only [require_eq_ok_iff]

/-- A headline, a flash of no length, a line whose numbers are none and a region of another name are
    taken out at once, and so is a flash that the last line supersedes. -/
theorem decided_by_last_lines_thinned :
    let map := "Name Origin\nflash 0 0\nram 200 10 xrw\nflash 8 100\nflash zz 1\nrom 0 1\nflash 8 20 xr\n"
    let map' := "ram 200 10 xrw\nflash 8 20 xr\n"
    Thinned (Text.lines map) (Text.lines map') ∧
      ofMap map' = .ok ⟨⟨8, 0x20⟩, ⟨0x200, 0x10⟩⟩ ∧ ofMap map = .ok ⟨⟨8, 0x20⟩, ⟨0x200, 0x10⟩⟩ := by
  intro map map'
  have hlines : Text.lines map = ["Name Origin", "flash 0 0", "ram 200 10 xrw", "flash 8 100",
    "flash zz 1", "rom 0 1", "flash 8 20 xr"] := by decide
  have hlines' : Text.lines map' = ["ram 200 10 xrw", "flash 8 20 xr"] := by decide
  have hthin : Thinned (Text.lines map) (Text.lines map') := by
    rw [hlines, hlines']
    exact .taken (by decide) (.taken (by decide) (.kept (.taken (by decide) (.taken (by decide)
      (.taken (by decide) (.kept .done))))))
  have hflash : Region.IsGivenLast .flash ⟨8, 0x20⟩ (Text.lines map') :=
    ⟨["ram 200 10 xrw"], "flash 8 20 xr", [], hlines', ⟨by decide, by decide, by decide⟩, nofun⟩
  have hram : Region.IsGivenLast .ram ⟨0x200, 0x10⟩ (Text.lines map') :=
    ⟨[], "ram 200 10 xrw", ["flash 8 20 xr"], hlines', ⟨by decide, by decide, by decide⟩, by decide⟩
  have hmap' : ofMap map' = .ok ⟨⟨8, 0x20⟩, ⟨0x200, 0x10⟩⟩ :=
    (decided_by_last_lines.1 map' _).2 ⟨⟨hflash, by decide⟩, hram, by decide⟩
  exact ⟨hthin, hmap', (decided_by_last_lines.2.2.2 map map' hthin).trans hmap'⟩

end Layout
end FaultPlan
