/-
  The options that steer a derivation: which symbols matter, and the engine's time limit.

  Halt symbols are kept twice: in the order in which they were first named, because a failure lists
  them, and as a set, because every symbol of a table is looked up among them.  The two hold the same
  names.  Ignored symbols are only looked up, so they are a set.
-/
import FaultPlan.NameSet

namespace FaultPlan

structure Options where
  /-- The symbol whose address becomes the start address. -/
  start : String
  /-- The symbols that mark successful termination, each once. -/
  halts : List String
  /-- The symbols whose code must not be faulted. -/
  ignores : NameSet
  /-- The engine's limit in clock cycles. -/
  timeout : Option UInt64
  /-- The halt symbols again, to be looked up. -/
  haltSet : NameSet
  halts_nodup : halts.Nodup
  mem_haltSet : ∀ name, haltSet.contains name = true ↔ name ∈ halts

namespace Options

/-- Options that name a start symbol and nothing else. -/
def new (start : String) : Options :=
  ⟨start, [], .empty, none, .empty, .nil, fun name => by simp [NameSet.contains_empty]⟩

/-- A halt symbol that is new to the set joins at the end; one that is there already stays where it
    is. -/
def withHalt (o : Options) (name : String) : Options :=
  if h : o.haltSet.contains name = true then o
  else { o with
    halts := o.halts ++ [name]
    haltSet := o.haltSet.insert name
    halts_nodup := List.nodup_append.2
      ⟨o.halts_nodup, by simp, fun a ha b hb => by
        obtain rfl := List.mem_singleton.1 hb
        exact fun he => h (he ▸ (o.mem_haltSet a).2 ha)⟩
    mem_haltSet := fun n => by
      rw [NameSet.contains_insert, Bool.or_eq_true, o.mem_haltSet, beq_iff_eq, List.mem_append,
        List.mem_singleton]
      exact or_comm }

def withHalts (o : Options) (names : List String) : Options := names.foldl withHalt o

def withIgnores (o : Options) (names : List String) : Options :=
  { o with ignores := o.ignores.insertAll names }

def withTimeout (o : Options) (cycles : Option UInt64) : Options := { o with timeout := cycles }

def isHalt (o : Options) (name : String) : Bool := o.haltSet.contains name

def isIgnored (o : Options) (name : String) : Bool := o.ignores.contains name

/-- What is looked up in the set is what is listed. -/
@[simp]
theorem contains_haltSet (o : Options) (name : String) :
    o.haltSet.contains name = o.halts.contains name := by
  rw [Bool.eq_iff_iff, o.mem_haltSet, List.contains_iff_mem]

example : ((new "main").withHalts ["win", "b", "win"]).halts = ["win", "b"] := by decide

end Options
end FaultPlan
