/-
  The engine reads what is written for it.

  Every group is spelled by its tokens (`Group.spells_tokens`), and so it reads back from them in front
  of whatever follows; labels and paths may be any text.  The only group that is refused as such is an
  ignore range without an address (`Group.fails_of_fault?`).  For a configuration this makes reading
  the inverse of writing, and says which configurations the engine refuses, and with which fault.
-/
import Mathlib.Data.List.Basic
import FaultPlan.Engine.Configuration
import FaultPlan.Proofs.Engine.Reading
import FaultPlan.Proofs.Number.RoundTrip
import FaultPlan.Proofs.Text.Decoding

namespace FaultPlan
namespace Engine

/-! ## Numbers and groups -/

theorem isNumber_hex (v : UInt64) : IsNumber (Hex.render v) v :=
  Or.inl ⟨Hex.startsWith_render v, Hex.parse_render v⟩

theorem isNumber_decimal (v : UInt64) : IsNumber (Decimal.render v) v :=
  Or.inr (Decimal.parse_eq_some_iff.1 (Decimal.parse_render v))

/-- Why the engine refuses a group, whatever else it is given. -/
def Group.fault? : Group → Option ArgumentFault
  | .ignore r => if r.lower < r.upper then none else some (.emptyIgnore r.lower r.upper)
  | _ => none

theorem Group.spells_tokens {g : Group} (h : g.fault? = none) : g.Spells g.tokens := by
  cases g with
  | start address => exact .start (isNumber_hex _)
  | halt point => exact .halt (isNumber_hex _)
  | symbol name address => exact .symbol (isNumber_hex _)
  | load path address => exact .load (isNumber_hex _)
  | flash region => exact .flash (isNumber_hex _) (isNumber_hex _)
  | ram region => exact .ram (isNumber_hex _) (isNumber_hex _)
  | ignore r =>
    have hlt : r.lower < r.upper := by
      by_contra hle
      simp [fault?, hle] at h
    exact .ignore (isNumber_hex _) (isNumber_hex _) hlt
  | timeout cycles => exact .timeout (isNumber_decimal _)
  | isa i =>
    cases i with
    | armv6m => exact .armv6m
    | armv7m => exact .armv7m

theorem Group.fails_of_fault? {g : Group} {fault : ArgumentFault} (h : g.fault? = some fault)
    (rest : List String) : Fails (g.tokens ++ rest) fault := by
  cases g with
  | ignore r =>
    by_cases hlt : r.lower < r.upper
    · simp [fault?, hlt] at h
    · obtain rfl : .emptyIgnore r.lower r.upper = fault := by simpa [fault?, hlt] using h
      exact .emptyIgnore (isNumber_hex _) (isNumber_hex _) (UInt64.not_lt.1 hlt)
  | start | halt | symbol | load | flash | ram | timeout | isa => nomatch h

/-- **One group.**  The tokens of a group are read as that group, and reading goes on behind them;
    a group at fault ends it. -/
theorem readGroups_tokens_append (g : Group) (rest : List String) :
    readGroups (g.tokens ++ rest) =
      match g.fault? with
      | some fault => .error fault
      | none => (readGroups rest).map (g :: ·) := by
  cases h : g.fault? with
  | none => exact (Group.spells_tokens h).readGroups_append rest
  | some fault => exact (Scan.fails (Group.fails_of_fault? h rest)).readGroups

/-- **Many groups.**  The tokens of groups are read as these groups, unless one is at fault; the
    first that is decides. -/
theorem readGroups_flatMap_tokens (groups : List Group) :
    readGroups (groups.flatMap Group.tokens) =
      match groups.findSome? Group.fault? with
      | some fault => .error fault
      | none => .ok groups := by
  induction groups with
  | nil => rfl
  | cons g groups ih =>
    rw [List.flatMap_cons, readGroups_tokens_append, ih]
    cases hg : g.fault? with
    | some fault => simp [hg]
    | none =>
      cases hgroups : groups.findSome? Group.fault? with
      | some fault => simp [hg, hgroups, Except.map]
      | none => simp [hg, hgroups, Except.map]

end Engine

/-! ## Configurations -/

namespace Configuration

open Engine (Group Arguments last?)

/-- What the engine makes of a configuration that it takes. -/
def engineArguments (c : Configuration) : Arguments where
  start := c.start
  halts := c.halts
  symbols := []
  sections := c.blobs.map fun b => (b.path.display, b.address)
  flash := c.layout.flash
  ram := c.layout.ram
  ignores := c.ignores
  timeout := c.timeout.getD 0
  isa := c.isa

/-- What is picked from the groups of a configuration is picked from its fields, in the order in
    which they are written. -/
theorem filterMap_groups {α : Type} (pick : Group → Option α) (c : Configuration) :
    c.groups.filterMap pick =
      (pick (.start c.start)).toList ++ c.halts.filterMap (fun h => pick (.halt h)) ++
        c.ignores.filterMap (fun r => pick (.ignore r)) ++
        (pick (.flash c.layout.flash)).toList ++ (pick (.ram c.layout.ram)).toList ++
        (pick (.isa c.isa)).toList ++ c.blobs.filterMap (fun b => pick (.load b.path.display b.address)) ++
        c.timeout.toList.filterMap (fun cycles => pick (.timeout cycles)) := by
  have hcons : ∀ (g : Group) (gs : List Group),
      (g :: gs).filterMap pick = (pick g).toList ++ gs.filterMap pick := by
    intro g gs
    rw [List.filterMap_cons]
    cases pick g with
    | none => rfl
    | some a => rfl
  simp only [groups, List.filterMap_append, List.filterMap_map, hcons, List.append_assoc,
    List.cons_append, List.nil_append]
  rfl

/-- Of the groups of a configuration only the ignore ranges can be at fault. -/
theorem findSome?_fault?_groups (c : Configuration) :
    c.groups.findSome? Group.fault? =
      (c.ignores.find? fun r => r.upper ≤ r.lower).map fun r => .emptyIgnore r.lower r.upper := by
  -- the first fault is the head of all faults, and these come from the ignore ranges alone
  rw [← List.head?_filterMap, filterMap_groups]
  simp only [Group.fault?, List.filterMap_none, Option.toList_none, List.nil_append,
    List.append_nil]
  induction c.ignores with
  | nil => rfl
  | cons r rest ih =>
    by_cases h : r.lower < r.upper
    · have hle : ¬ r.upper ≤ r.lower := UInt64.not_le.2 h
      rw [List.filterMap_cons_none (by simp [h]), List.find?_cons_of_neg (by simpa using hle), ih]
    · have hle : r.upper ≤ r.lower := UInt64.not_lt.1 h
      rw [List.find?_cons_of_pos (by simpa using hle)]
      simp [h]

/-- The groups of a configuration give back its fields. -/
theorem ofGroups_groups (c : Configuration) :
    Arguments.ofGroups c.groups =
      if c.halts = [] then .error .noEndAddress
      else if c.layout.ram.length = 0 then .error .noRam
      else if c.layout.flash.length = 0 then .error .noFlash
      else .ok c.engineArguments := by
  have hstart : last? Group.start? c.groups = some c.start := by
    simp [last?, filterMap_groups, Group.start?, List.filterMap_none]
  have hflash : last? Group.flash? c.groups = some c.layout.flash := by
    simp [last?, filterMap_groups, Group.flash?, List.filterMap_none]
  have hram : last? Group.ram? c.groups = some c.layout.ram := by
    simp [last?, filterMap_groups, Group.ram?, List.filterMap_none]
  have hisa : last? Group.isa? c.groups = some c.isa := by
    simp [last?, filterMap_groups, Group.isa?, List.filterMap_none]
  have htimeout : last? Group.timeout? c.groups = c.timeout := by
    cases h : c.timeout <;>
      simp [last?, filterMap_groups, Group.timeout?, List.filterMap_none, h]
  have hhalts : c.groups.filterMap Group.halt? = c.halts := by
    simp [filterMap_groups, Group.halt?, List.filterMap_none]
  have hignores : c.groups.filterMap Group.ignore? = c.ignores := by
    simp [filterMap_groups, Group.ignore?, List.filterMap_none]
  have hsymbols : c.groups.filterMap Group.symbol? = [] := by
    simp [filterMap_groups, Group.symbol?, List.filterMap_none]
  have hsections : c.groups.filterMap Group.load? = c.blobs.map fun b => (b.path.display, b.address) := by
    simp [filterMap_groups, Group.load?, List.filterMap_none]
  simp only [Arguments.ofGroups, hstart, hflash, hram, hisa, htimeout, hhalts, hignores, hsymbols,
    hsections, Option.getD_some, List.isEmpty_iff, engineArguments]

/-- **Reading after writing**, for any configuration: a fault in the reading order, or the fields. -/
theorem parse_arguments (c : Configuration) :
    Arguments.parse c.arguments =
      match c.ignores.find? fun r => r.upper ≤ r.lower with
      | some r => .error (.emptyIgnore r.lower r.upper)
      | none =>
        if c.halts = [] then .error .noEndAddress
        else if c.layout.ram.length = 0 then .error .noRam
        else if c.layout.flash.length = 0 then .error .noFlash
        else .ok c.engineArguments := by
  show (Engine.readGroups (c.groups.flatMap Group.tokens)).bind Arguments.ofGroups = _
  rw [Engine.readGroups_flatMap_tokens, findSome?_fault?_groups]
  cases c.ignores.find? fun r => r.upper ≤ r.lower with
  | some r => rfl
  | none => exact ofGroups_groups c

/-- The engine can use the configuration: there is a halt, no ignore range is empty or inverted, and
    both regions have some length. -/
structure Usable (c : Configuration) : Prop where
  halts : c.halts ≠ []
  ignores : ∀ r ∈ c.ignores, r.lower < r.upper
  ram : c.layout.ram.length ≠ 0
  flash : c.layout.flash.length ≠ 0

theorem Usable.find?_ignores {c : Configuration} (h : c.Usable) :
    (c.ignores.find? fun r => r.upper ≤ r.lower) = none := by
  refine List.find?_eq_none.2 fun r hr => ?_
  have hlt : ¬ r.upper ≤ r.lower := UInt64.not_le.2 (h.ignores r hr)
  simpa using hlt

/-- A usable configuration is read back as it is. -/
theorem Usable.parse_arguments {c : Configuration} (h : c.Usable) :
    Arguments.parse c.arguments = .ok c.engineArguments := by
  rw [Configuration.parse_arguments, h.find?_ignores]
  dsimp only
  rw [if_neg h.halts, if_neg h.ram, if_neg h.flash]

/-- What the engine accepts is usable. -/
theorem usable_of_parse_arguments {c : Configuration} {a : Arguments}
    (h : Arguments.parse c.arguments = .ok a) : c.Usable := by
  rw [parse_arguments] at h
  split at h
  · nomatch h
  next hignores =>
  split at h
  · nomatch h
  next hhalts =>
  split at h
  · nomatch h
  next hram =>
  split at h
  · nomatch h
  next hflash =>
  refine ⟨hhalts, fun r hr => ?_, hram, hflash⟩
  have hle := List.find?_eq_none.1 hignores r hr
  exact UInt64.not_le.1 (by simpa using hle)

/-- **The engine undoes the writing**, and refuses exactly the configurations it cannot use.  The
    first empty or inverted ignore range is the fault, before a missing halt, RAM without length and
    flash without length.  The path of a section is read back as it is displayed, which is the path
    itself if that is a text. -/
theorem parse_arguments_exact (c : Configuration) :
    ((∃ a, Arguments.parse c.arguments = .ok a) ↔
      c.halts ≠ [] ∧ (∀ r ∈ c.ignores, r.lower < r.upper) ∧
        c.layout.ram.length ≠ 0 ∧ c.layout.flash.length ≠ 0) ∧
    (Arguments.parse c.arguments =
      match c.ignores.find? fun r => r.upper ≤ r.lower with
      | some r => .error (.emptyIgnore r.lower r.upper)
      | none =>
        if c.halts = [] then .error .noEndAddress
        else if c.layout.ram.length = 0 then .error .noRam
        else if c.layout.flash.length = 0 then .error .noFlash
        else .ok {
          start := c.start
          halts := c.halts
          symbols := []
          sections := c.blobs.map fun b => (b.path.display, b.address)
          flash := c.layout.flash
          ram := c.layout.ram
          ignores := c.ignores
          timeout := c.timeout.getD 0
          isa := c.isa }) ∧
    ∀ b ∈ c.blobs, ∀ text : String, b.path = text → b.path.display = text := by
  refine ⟨⟨?_, ?_⟩, parse_arguments c, fun b _ text hpath => hpath ▸ Path.display_ofText text⟩
  · rintro ⟨a, ha⟩
    have hc : c.Usable := usable_of_parse_arguments ha
    exact ⟨hc.halts, hc.ignores, hc.ram, hc.flash⟩
  · rintro ⟨hhalts, hignores, hram, hflash⟩
    have hc : c.Usable := ⟨hhalts, hignores, hram, hflash⟩
    exact ⟨c.engineArguments, hc.parse_arguments⟩

end Configuration
end FaultPlan
