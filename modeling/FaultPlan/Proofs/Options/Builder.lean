/-
  What the options hold after names have been added to them.

  Adding halts brings in the added names and loses none (`mem_halts_withHalts`), and so does adding
  ignored names (`mem_ignores_withIgnores`).  Neither touches what else the options hold.
-/
import FaultPlan.Options

namespace FaultPlan

theorem NameSet.contains_iff {s : NameSet} {x : String} : s.contains x = true ↔ x ∈ s.names := by
  rw [contains, List.contains_iff_mem]

theorem NameSet.contains_insertAll {names : List String} {s : NameSet} {x : String} :
    (s.insertAll names).contains x = true ↔ s.contains x = true ∨ x ∈ names := by
  induction names generalizing s with
  | nil => simp [NameSet.insertAll]
  | cons n rest ih =>
    show ((s.insert n).insertAll rest).contains x = true ↔ _
    rw [ih, contains_insert, List.mem_cons, Bool.or_eq_true, beq_iff_eq, or_assoc]
    exact or_left_comm

namespace Options

variable {o : Options} {names : List String} {n : String}

/-! ## Adding halts -/

/-- A name that is a halt already is not added again, but it is a halt all the same. -/
theorem mem_halts_withHalt {name : String} :
    n ∈ (o.withHalt name).halts ↔ n ∈ o.halts ∨ n = name := by
  unfold withHalt
  split
  · next h =>
    constructor
    · exact Or.inl
    · rintro (hn | rfl)
      · exact hn
      · exact (o.mem_haltSet n).1 h
  · show n ∈ o.halts ++ [name] ↔ _
    rw [List.mem_append, List.mem_singleton]

theorem mem_halts_withHalts : n ∈ (o.withHalts names).halts ↔ n ∈ o.halts ∨ n ∈ names := by
  induction names generalizing o with
  | nil => simp [withHalts]
  | cons name rest ih =>
    show n ∈ ((o.withHalt name).withHalts rest).halts ↔ _
    rw [ih, mem_halts_withHalt, List.mem_cons, or_assoc]

/-- Whatever adding one halt leaves as it is, adding many does. -/
theorem withHalts_keeps {α : Type} (field : Options → α)
    (h : ∀ (o : Options) (name : String), field (o.withHalt name) = field o) (o : Options)
    (names : List String) : field (o.withHalts names) = field o := by
  induction names generalizing o with
  | nil => rfl
  | cons name rest ih =>
    show field ((o.withHalt name).withHalts rest) = field o
    rw [ih, h]

@[simp]
theorem start_withHalts (o : Options) (names : List String) :
    (o.withHalts names).start = o.start := by
  refine withHalts_keeps Options.start (fun o name => ?_) o names
  unfold withHalt
  split <;> rfl

@[simp]
theorem ignores_withHalts (o : Options) (names : List String) :
    (o.withHalts names).ignores = o.ignores := by
  refine withHalts_keeps Options.ignores (fun o name => ?_) o names
  unfold withHalt
  split <;> rfl

@[simp]
theorem timeout_withHalts (o : Options) (names : List String) :
    (o.withHalts names).timeout = o.timeout := by
  refine withHalts_keeps Options.timeout (fun o name => ?_) o names
  unfold withHalt
  split <;> rfl

/-! ## Adding ignored names -/

theorem mem_ignores_withIgnores :
    n ∈ (o.withIgnores names).ignores.names ↔ n ∈ o.ignores.names ∨ n ∈ names := by
  show n ∈ (o.ignores.insertAll names).names ↔ _
  rw [← NameSet.contains_iff, NameSet.contains_insertAll, NameSet.contains_iff]

end Options
end FaultPlan
