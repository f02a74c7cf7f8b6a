/-
  What the engine makes of any command line.

  Reading goes through a token list as the grammar does (`scansTo_readGroups`): it returns the groups
  of the scan or its fault.  From the groups the engine takes one thing for each slot of its arguments
  (`Group.slot`): all of the halts, symbols, sections and ignore ranges, and the last of the others
  (`Collects`).  So only the order within a slot matters, and in most slots not even that (`Agree`).
-/
import FaultPlan.Engine.Arguments
import FaultPlan.Proofs.Engine.Grammar

namespace FaultPlan.Engine

/-! ## Reading and scanning -/

/-- What a scan amounts to. -/
def scanned (groups : List Group) : Option ArgumentFault → Except ArgumentFault (List Group)
  | none => .ok groups
  | some fault => .error fault

/-- The operands that the reader expects of the option are those of the grammar, and the group that it
    makes of them is the one that they spell. -/
def Operands.Describes (option : String) : Operands → Prop
  | .nothing group => operandKinds? option = some [] ∧ group.Spells [option]
  | .number group =>
    operandKinds? option = some [.number] ∧
      ∀ a v, IsNumber a v → (group v).Spells [option, a]
  | .labelled group =>
    operandKinds? option = some [.text, .number] ∧
      ∀ label a v, IsNumber a v → (group label v).Spells [option, label, a]
  | .numbers group =>
    operandKinds? option = some [.number, .number] ∧
      ∀ a b v w, IsNumber a v → IsNumber b w →
        (∃ g, group v w = .ok g ∧ g.Spells [option, a, b]) ∨
          ∃ fault, group v w = .error fault ∧ ∀ rest, Fails (option :: a :: b :: rest) fault

theorem Operands.describes_of_ofOption? {option : String} {operands : Operands}
    (h : ofOption? option = some operands) : operands.Describes option := by
  unfold ofOption? at h
  split at h <;> cases h
  case h_1 => exact ⟨rfl, fun a v ha => .start ha⟩
  case h_2 => exact ⟨rfl, fun label a v ha => .halt ha⟩
  case h_3 => exact ⟨rfl, fun label a v ha => .symbol ha⟩
  case h_4 => exact ⟨rfl, fun label a v ha => .load ha⟩
  case h_5 => exact ⟨rfl, fun a b v w ha hb => Or.inl ⟨_, rfl, .flash ha hb⟩⟩
  case h_6 => exact ⟨rfl, fun a b v w ha hb => Or.inl ⟨_, rfl, .ram ha hb⟩⟩
  case h_7 =>
    refine ⟨rfl, fun a b v w ha hb => ?_⟩
    by_cases hlt : v < w
    · exact Or.inl ⟨_, by simp [IgnoreRange.ofBounds?, hlt], .ignore ha hb hlt⟩
    · exact Or.inr ⟨.emptyIgnore v w, by simp [IgnoreRange.ofBounds?, hlt], fun rest =>
        .emptyIgnore ha hb (UInt64.not_lt.1 hlt)⟩
  case h_8 => exact ⟨rfl, fun a v ha => .timeout ha⟩
  case h_9 => exact ⟨rfl, .armv6m⟩
  case h_10 => exact ⟨rfl, .armv7m⟩

theorem operandKinds?_of_unknown {option : String} (h : Operands.ofOption? option = none) :
    operandKinds? option = none := by
  unfold Operands.ofOption? at h
  unfold operandKinds?
  split at h <;> simp_all

/-- What has been read is what a scan of the tokens amounts to. -/
def ScansTo (tokens : List String) (read : Except ArgumentFault (List Group)) : Prop :=
  ∃ groups fault?, Scan tokens groups fault? ∧ read = scanned groups fault?

namespace ScansTo

theorem fails {tokens : List String} {fault : ArgumentFault} (h : Fails tokens fault) :
    ScansTo tokens (.error fault) :=
  ⟨[], some fault, .fails h, rfl⟩

theorem group {piece rest : List String} {g : Group} {read : Except ArgumentFault (List Group)}
    (hspells : g.Spells piece) (hrest : ScansTo rest read) :
    ScansTo (piece ++ rest) (read.map (g :: ·)) := by
  obtain ⟨groups, fault?, hscan, rfl⟩ := hrest
  refine ⟨g :: groups, fault?, .group hspells hscan, ?_⟩
  cases fault? <;> rfl

/-- An operand that has to be a number is one, or ends the scan. -/
theorem number {tokens : List String} {token : String}
    {next : UInt64 → Except ArgumentFault (List Group)}
    (hnext : ∀ v, IsNumber token v → ScansTo tokens (next v))
    (hbad : (∀ v, ¬ IsNumber token v) → Fails tokens (.badNumber token)) :
    ScansTo tokens (number token >>= next) := by
  rcases number_cases token with ⟨v, hread, hv⟩ | ⟨hread, hnone⟩
  · rw [hread]
    exact hnext v hv
  · rw [hread]
    exact fails (hbad hnone)

end ScansTo

/-- **Reading follows the grammar**: every token list has a scan, and reading ends as it does. -/
theorem scansTo_readGroups (tokens : List String) : ScansTo tokens (readGroups tokens) := by
  fun_induction readGroups tokens with
  | case1 => exact ⟨[], none, .done, rfl⟩
  | case2 option rest hoption =>
    exact .fails (.unknownOption (operandKinds?_of_unknown hoption))
  | case3 option rest group hoption ih =>
    exact .group (Operands.describes_of_ofOption? hoption).2 ih
  | case4 option group hoption a rest ih =>
    obtain ⟨hkinds, hspells⟩ := Operands.describes_of_ofOption? hoption
    exact .number (fun v hv => .group (hspells a v hv) ih) fun hbad =>
      .operand hkinds (.noNumber hbad)
  | case6 option group hoption label a rest ih =>
    obtain ⟨hkinds, hspells⟩ := Operands.describes_of_ofOption? hoption
    exact .number (fun v hv => .group (hspells label a v hv) ih) fun hbad =>
      .operand hkinds (.later trivial (.noNumber hbad))
  | case7 option rest group hoption hshort =>
    have hkinds := (Operands.describes_of_ofOption? hoption).1
    match rest, hshort with
    | [], _ => exact .fails (.operand hkinds .missing)
    | [label], _ => exact .fails (.operand hkinds (.later trivial .missing))
    | label :: a :: rest, hshort => exact (hshort label a rest rfl).elim
  | case5 option group hoption | case8 option group hoption =>
    exact .fails (.operand (Operands.describes_of_ofOption? hoption).1 .missing)
  | case9 option group hoption a =>
    have hkinds := (Operands.describes_of_ofOption? hoption).1
    exact .number (fun v hv => .fails (.operand hkinds (.later ⟨v, hv⟩ .missing))) fun hbad =>
      .operand hkinds (.noNumber hbad)
  | case10 option group hoption a b rest ih =>
    obtain ⟨hkinds, hspells⟩ := Operands.describes_of_ofOption? hoption
    refine .number (fun v hv => .number (fun w hw => ?_) fun hbad => ?_) fun hbad => ?_
    · rcases hspells a b v w hv hw with ⟨g, hg, hspells⟩ | ⟨fault, hg, hfails⟩
      · rw [hg]
        exact .group hspells ih
      · rw [hg]
        exact .fails (hfails rest)
    · exact .operand hkinds (.later ⟨v, hv⟩ (.noNumber hbad))
    · exact .operand hkinds (.noNumber hbad)

theorem Scan.readGroups {tokens : List String} {groups : List Group}
    {fault? : Option ArgumentFault} (h : Scan tokens groups fault?) :
    Engine.readGroups tokens = scanned groups fault? := by
  obtain ⟨groups', fault?', hscan, hread⟩ := scansTo_readGroups tokens
  obtain ⟨rfl, rfl⟩ := h.unique hscan
  exact hread

/-- Reading returns the groups of a scan that goes to the end. -/
theorem scan_none_iff {tokens : List String} {groups : List Group} :
    Scan tokens groups none ↔ readGroups tokens = .ok groups := by
  refine ⟨Scan.readGroups, fun hread => ?_⟩
  obtain ⟨groups', fault?, hscan, hread'⟩ := scansTo_readGroups tokens
  rw [hread] at hread'
  cases fault? with
  | none =>
    obtain rfl := Except.ok.inj hread'
    exact hscan
  | some fault => nomatch hread'

/-- Reading ends with the fault of a scan that does not. -/
theorem exists_scan_some_iff {tokens : List String} {fault : ArgumentFault} :
    (∃ groups, Scan tokens groups (some fault)) ↔ readGroups tokens = .error fault := by
  refine ⟨fun ⟨groups, hscan⟩ => hscan.readGroups, fun hread => ?_⟩
  obtain ⟨groups, fault?, hscan, hread'⟩ := scansTo_readGroups tokens
  rw [hread] at hread'
  cases fault? with
  | none => nomatch hread'
  | some fault' =>
    obtain rfl := Except.error.inj hread'
    exact ⟨groups, hscan⟩

/-! ## Slots -/

/-- What the groups can be about. -/
inductive Slot where
  | start
  | halts
  | symbols
  | sections
  | flash
  | ram
  | ignores
  | timeout
  | isa
  deriving DecidableEq, Repr

def Group.slot : Group → Slot
  | .start _ => .start
  | .halt _ => .halts
  | .symbol _ _ => .symbols
  | .load _ _ => .sections
  | .flash _ => .flash
  | .ram _ => .ram
  | .ignore _ => .ignores
  | .timeout _ => .timeout
  | .isa _ => .isa

def inSlot (slot : Slot) (groups : List Group) : List Group :=
  groups.filter fun g => g.slot = slot

/-- All groups of the slot count, and not only the last. -/
def Slot.Accumulates : Slot → Prop
  | halts | symbols | sections | ignores => True
  | start | flash | ram | timeout | isa => False

/-- The arguments are what the groups say: all of a slot that accumulates, and the last of any other,
    or its default. -/
structure Collects (groups : List Group) (a : Arguments) : Prop where
  start : (inSlot .start groups).getLast? = some (.start a.start)
  halts : inSlot .halts groups = a.halts.map .halt
  symbols : inSlot .symbols groups = a.symbols.map fun s => .symbol s.1 s.2
  sections : inSlot .sections groups = a.sections.map fun s => .load s.1 s.2
  flash : (inSlot .flash groups).getLast?.getD (.flash ⟨0, 0⟩) = .flash a.flash
  ram : (inSlot .ram groups).getLast?.getD (.ram ⟨0, 0⟩) = .ram a.ram
  ignores : inSlot .ignores groups = a.ignores.map .ignore
  timeout : (inSlot .timeout groups).getLast?.getD (.timeout 0) = .timeout a.timeout
  isa : (inSlot .isa groups).getLast?.getD (.isa .armv7m) = .isa a.isa

/-- The same groups stand in each slot that accumulates, in the same order, and the same group stands
    last in any other. -/
structure Agree (groups groups' : List Group) : Prop where
  all : ∀ slot : Slot, slot.Accumulates → inSlot slot groups = inSlot slot groups'
  last : ∀ slot, (inSlot slot groups).getLast? = (inSlot slot groups').getLast?

/-! ## Picking by slot -/

/-- Picking gives the values of the groups of one slot, and of no others. -/
structure Picks {α : Type} (slot : Slot) (pick : Group → Option α) (make : α → Group) : Prop where
  pick_eq_some_iff : ∀ g x, pick g = some x ↔ g = make x
  slot_eq_iff : ∀ g : Group, g.slot = slot ↔ (pick g).isSome = true

namespace Picks

variable {α : Type} {slot : Slot} {pick : Group → Option α} {make : α → Group}

theorem injective (h : Picks slot pick make) : Function.Injective make := by
  intro x y heq
  have hx := (h.pick_eq_some_iff (make x) x).2 rfl
  have hy := (h.pick_eq_some_iff (make x) y).2 heq
  exact Option.some.inj (hx.symm.trans hy)

theorem inSlot_eq (h : Picks slot pick make) (groups : List Group) :
    inSlot slot groups = (groups.filterMap pick).map make := by
  induction groups with
  | nil => rfl
  | cons g groups ih =>
    unfold inSlot at ih ⊢
    cases hpick : pick g with
    | none =>
      have hslot : g.slot ≠ slot := fun hslot => by simpa [hpick] using (h.slot_eq_iff g).1 hslot
      rw [List.filter_cons_of_neg (by simpa using hslot), List.filterMap_cons_none hpick, ih]
    | some x =>
      have hslot : g.slot = slot := (h.slot_eq_iff g).2 (by rw [hpick]; rfl)
      rw [List.filter_cons_of_pos (by simpa using hslot), List.filterMap_cons_some hpick,
        List.map_cons, ih, (h.pick_eq_some_iff g x).1 hpick]

theorem filterMap_eq (h : Picks slot pick make) {groups : List Group} {xs : List α}
    (hslot : inSlot slot groups = xs.map make) : groups.filterMap pick = xs := by
  rw [h.inSlot_eq] at hslot
  exact List.map_injective_iff.2 h.injective hslot

theorem getLast?_inSlot (h : Picks slot pick make) (groups : List Group) :
    (inSlot slot groups).getLast? = (last? pick groups).map make := by
  rw [h.inSlot_eq, List.getLast?_map, last?]

theorem last?_eq_some (h : Picks slot pick make) {groups : List Group} {x : α}
    (hslot : (inSlot slot groups).getLast? = some (make x)) : last? pick groups = some x := by
  rw [h.getLast?_inSlot] at hslot
  exact Option.map_injective h.injective hslot

/-- Defaults are carried over. -/
theorem getD_last? (h : Picks slot pick make) (groups : List Group) (x : α) :
    (inSlot slot groups).getLast?.getD (make x) = make ((last? pick groups).getD x) := by
  rw [h.getLast?_inSlot, Option.getD_map]

end Picks

theorem picks_start : Picks .start Group.start? .start := by
  constructor <;> intro g <;> cases g <;> simp [Group.start?, Group.slot]

theorem picks_halt : Picks .halts Group.halt? .halt := by
  constructor <;> intro g <;> cases g <;> simp [Group.halt?, Group.slot]

theorem picks_symbol : Picks .symbols Group.symbol? fun s => .symbol s.1 s.2 := by
  constructor <;> intro g <;> cases g <;> simp [Group.symbol?, Group.slot, Prod.ext_iff, eq_comm]

theorem picks_load : Picks .sections Group.load? fun s => .load s.1 s.2 := by
  constructor <;> intro g <;> cases g <;> simp [Group.load?, Group.slot, Prod.ext_iff, eq_comm]

theorem picks_flash : Picks .flash Group.flash? .flash := by
  constructor <;> intro g <;> cases g <;> simp [Group.flash?, Group.slot]

theorem picks_ram : Picks .ram Group.ram? .ram := by
  constructor <;> intro g <;> cases g <;> simp [Group.ram?, Group.slot]

theorem picks_ignore : Picks .ignores Group.ignore? .ignore := by
  constructor <;> intro g <;> cases g <;> simp [Group.ignore?, Group.slot]

theorem picks_timeout : Picks .timeout Group.timeout? .timeout := by
  constructor <;> intro g <;> cases g <;> simp [Group.timeout?, Group.slot]

theorem picks_isa : Picks .isa Group.isa? .isa := by
  constructor <;> intro g <;> cases g <;> simp [Group.isa?, Group.slot]

/-! ## Collecting -/

theorem exists_collects {groups : List Group} (h : inSlot .start groups ≠ []) :
    ∃ a, Collects groups a := by
  rw [picks_start.inSlot_eq] at h
  obtain ⟨start, hstart⟩ : ∃ start, last? Group.start? groups = some start :=
    Option.ne_none_iff_exists'.1 fun hnone => h (by
      rw [List.getLast?_eq_none_iff.1 hnone, List.map_nil])
  exact ⟨{
    start
    halts := groups.filterMap Group.halt?
    symbols := groups.filterMap Group.symbol?
    sections := groups.filterMap Group.load?
    flash := (last? Group.flash? groups).getD ⟨0, 0⟩
    ram := (last? Group.ram? groups).getD ⟨0, 0⟩
    ignores := groups.filterMap Group.ignore?
    timeout := (last? Group.timeout? groups).getD 0
    isa := (last? Group.isa? groups).getD .armv7m },
    { start := by rw [picks_start.getLast?_inSlot, hstart]; rfl
      halts := picks_halt.inSlot_eq groups
      symbols := picks_symbol.inSlot_eq groups
      sections := picks_load.inSlot_eq groups
      flash := picks_flash.getD_last? groups _
      ram := picks_ram.getD_last? groups _
      ignores := picks_ignore.inSlot_eq groups
      timeout := picks_timeout.getD_last? groups _
      isa := picks_isa.getD_last? groups _ }⟩

namespace Collects

variable {groups groups' : List Group} {a : Arguments}

/-- What the engine still asks for once it has read everything. -/
theorem ofGroups_eq (h : Collects groups a) :
    Arguments.ofGroups groups =
      if a.halts = [] then .error .noEndAddress
      else if a.ram.length = 0 then .error .noRam
      else if a.flash.length = 0 then .error .noFlash
      else .ok a := by
  have hstart := picks_start.last?_eq_some h.start
  have hhalts := picks_halt.filterMap_eq h.halts
  have hsymbols := picks_symbol.filterMap_eq h.symbols
  have hsections := picks_load.filterMap_eq h.sections
  have hflash := picks_flash.injective ((picks_flash.getD_last? groups _).symm.trans h.flash)
  have hram := picks_ram.injective ((picks_ram.getD_last? groups _).symm.trans h.ram)
  have hignores := picks_ignore.filterMap_eq h.ignores
  have htimeout :=
    picks_timeout.injective ((picks_timeout.getD_last? groups _).symm.trans h.timeout)
  have hisa := picks_isa.injective ((picks_isa.getD_last? groups _).symm.trans h.isa)
  simp only [Arguments.ofGroups, hstart, hhalts, hsymbols, hsections, hflash, hram, hignores,
    htimeout, hisa, List.isEmpty_iff]

theorem of_agree (h : Collects groups a) (hagree : Agree groups groups') : Collects groups' a where
  start := by rw [← hagree.last, h.start]
  halts := by rw [← hagree.all .halts trivial, h.halts]
  symbols := by rw [← hagree.all .symbols trivial, h.symbols]
  sections := by rw [← hagree.all .sections trivial, h.sections]
  flash := by rw [← hagree.last, h.flash]
  ram := by rw [← hagree.last, h.ram]
  ignores := by rw [← hagree.all .ignores trivial, h.ignores]
  timeout := by rw [← hagree.last, h.timeout]
  isa := by rw [← hagree.last, h.isa]

end Collects

theorem ofGroups_of_no_start {groups : List Group} (h : inSlot .start groups = []) :
    Arguments.ofGroups groups = .error .noEntryPoint := by
  have hnone : last? Group.start? groups = none := by
    have hstarts : groups.filterMap Group.start? = [] := picks_start.filterMap_eq h
    rw [last?, hstarts]
    rfl
  rw [Arguments.ofGroups, hnone]

theorem Agree.ofGroups_eq {groups groups' : List Group} (h : Agree groups groups') :
    Arguments.ofGroups groups' = Arguments.ofGroups groups := by
  by_cases hstart : inSlot .start groups = []
  · have hstart' : inSlot .start groups' = [] := by
      rw [← List.getLast?_eq_none_iff, ← h.last, hstart]
      rfl
    rw [ofGroups_of_no_start hstart, ofGroups_of_no_start hstart']
  · obtain ⟨a, ha⟩ := exists_collects hstart
    rw [ha.ofGroups_eq, (ha.of_agree h).ofGroups_eq]

/-! ## Command lines -/

namespace Arguments

theorem parse_of_scan {tokens : List String} {groups : List Group}
    (h : Scan tokens groups none) : parse tokens = ofGroups groups := by
  rw [parse, h.readGroups]
  rfl

theorem parse_of_fault {tokens : List String} {groups : List Group} {fault : ArgumentFault}
    (h : Scan tokens groups (some fault)) : parse tokens = .error fault := by
  rw [parse, h.readGroups]
  rfl

/-- **Reading a command line**, whatever its tokens are.  It is scanned in one way, up to its end or to
    its first fault.  A fault is what reading ends with, and unless an operand was missing it is so
    with any tokens behind them.  A list without a fault needs a start, halts, and RAM and flash of some
    length, which the engine asks for in that order, and is the arguments that its groups say; their
    order matters within a slot only. -/
theorem parse_follows_grammar (tokens : List String) :
    ∃ groups fault?,
      (∀ groups' fault?', Scan tokens groups' fault?' ↔ groups' = groups ∧ fault?' = fault?) ∧
      match fault? with
      | some fault =>
        parse tokens = .error fault ∧
          ((∀ option, fault ≠ .missingOperand option) →
            ∀ more, parse (tokens ++ more) = .error fault)
      | none =>
        (if inSlot .start groups = [] then parse tokens = .error .noEntryPoint
        else ∃ a, Collects groups a ∧
          parse tokens =
            if a.halts = [] then .error .noEndAddress
            else if a.ram.length = 0 then .error .noRam
            else if a.flash.length = 0 then .error .noFlash
            else .ok a) ∧
        ∀ tokens' groups', Scan tokens' groups' none → Agree groups groups' →
          parse tokens' = parse tokens := by
  obtain ⟨groups, fault?, hscan, -⟩ := scansTo_readGroups tokens
  refine ⟨groups, fault?, fun groups' fault?' => ⟨fun h => h.unique hscan, ?_⟩, ?_⟩
  · rintro ⟨rfl, rfl⟩
    exact hscan
  · cases fault? with
    | some fault =>
      exact ⟨parse_of_fault hscan, fun hfault more => parse_of_fault (hscan.append hfault more)⟩
    | none =>
      refine ⟨?_, fun tokens' groups' hscan' hagree => ?_⟩
      · rw [parse_of_scan hscan]
        split
        · next hstart => exact ofGroups_of_no_start hstart
        · next hstart =>
          obtain ⟨a, ha⟩ := exists_collects hstart
          exact ⟨a, ha, ha.ofGroups_eq⟩
      · rw [parse_of_scan hscan, parse_of_scan hscan', hagree.ofGroups_eq]

/-- The label of the halt is no option, and the groups can be given the other way round. -/
theorem parse_follows_grammar_turned :
    parse ["--flash", "0", "8", "--ram", "9", "2", "--halt", "--ram", "0x4", "--start", "+1"] =
        parse ["--start", "+1", "--halt", "--ram", "0x4", "--ram", "9", "2", "--flash", "0", "8"] ∧
      parse (["--armv6m", "--start", "main"] ++ ["--halt"]) = .error (.badNumber "main") := by
  constructor
  · obtain ⟨groups, fault?, hscan, h⟩ := parse_follows_grammar
      ["--start", "+1", "--halt", "--ram", "0x4", "--ram", "9", "2", "--flash", "0", "8"]
    obtain ⟨rfl, rfl⟩ := (hscan [.start 1, .halt ⟨"--ram", 4⟩, .ram ⟨9, 2⟩, .flash ⟨0, 8⟩] none).1
      (scan_none_iff.2 rfl)
    refine h.2 _ [.flash ⟨0, 8⟩, .ram ⟨9, 2⟩, .halt ⟨"--ram", 4⟩, .start 1] (scan_none_iff.2 rfl) ?_
    exact ⟨fun slot _ => by cases slot <;> rfl, fun slot => by cases slot <;> rfl⟩
  · obtain ⟨groups, fault?, hscan, h⟩ := parse_follows_grammar ["--armv6m", "--start", "main"]
    obtain ⟨groups', hscan'⟩ := exists_scan_some_iff.2
      (rfl : readGroups ["--armv6m", "--start", "main"] = .error (.badNumber "main"))
    obtain ⟨rfl, rfl⟩ := (hscan groups' (some (.badNumber "main"))).1 hscan'
    exact h.2 (by nofun) ["--halt"]

end Arguments
end FaultPlan.Engine
