/-
  Options after any sequence of builder calls.

  A sequence of calls names halts, names ignored symbols and gives time limits, one by one or many at
  once (`Options.Step`).  However the calls are mixed, the options hold what the sequence says
  (`Options.Reflects`): the halts each once and in the order of their first naming (`FirstNamed`), the
  ignored names as a set, and the last time limit.  Each call preserves this (`Reflects.apply`), so that
  every sequence leads to it, and nothing else does (`Reflects.unique`): two sequences that say the same
  of halts, ignored names and time limit give the same options.
-/
import Mathlib.Data.List.Induction
import FaultPlan.Proofs.Options.Builder

namespace FaultPlan

/-! ## The order of first naming -/

/-- The list `kept` has the names of the list `named`, each once, in the order in which they are first
    named. -/
structure FirstNamed (kept named : List String) : Prop where
  nodup : kept.Nodup
  mem_iff : ∀ n, n ∈ kept ↔ n ∈ named
  ordered : kept.Pairwise fun m n => named.idxOf m < named.idxOf n

namespace FirstNamed

variable {kept kept' named : List String} {name : String}

theorem nil : FirstNamed [] [] := ⟨.nil, fun _ => Iff.rfl, .nil⟩

theorem idxOf_append_singleton {m : String} (h : m ∈ named) :
    (named ++ [name]).idxOf m = named.idxOf m := by
  rw [List.idxOf_append, if_pos h]

/-- A further name at the end does not change the order of the names before it. -/
theorem ordered_append (h : FirstNamed kept named) :
    kept.Pairwise fun m n => (named ++ [name]).idxOf m < (named ++ [name]).idxOf n := by
  refine h.ordered.imp_of_mem fun {m n} hm hn hlt => ?_
  rwa [idxOf_append_singleton ((h.mem_iff m).1 hm), idxOf_append_singleton ((h.mem_iff n).1 hn)]

/-- A name that is kept already may be named again. -/
theorem named_again (h : FirstNamed kept named) (hname : name ∈ kept) :
    FirstNamed kept (named ++ [name]) where
  nodup := h.nodup
  mem_iff n := by
    rw [List.mem_append, List.mem_singleton, ← h.mem_iff]
    constructor
    · exact Or.inl
    · rintro (hn | rfl)
      · exact hn
      · exact hname
  ordered := h.ordered_append

/-- A new name is kept behind all others. -/
theorem newly_named (h : FirstNamed kept named) (hname : name ∉ kept) :
    FirstNamed (kept ++ [name]) (named ++ [name]) where
  nodup := by
    refine List.nodup_append.2 ⟨h.nodup, by simp, fun m hm n hn => ?_⟩
    rintro rfl
    exact hname (List.mem_singleton.1 hn ▸ hm)
  mem_iff n := by simp only [List.mem_append, h.mem_iff]
  ordered := by
    refine List.pairwise_append.2 ⟨h.ordered_append, List.pairwise_singleton _ _, fun m hm n hn => ?_⟩
    obtain rfl := List.mem_singleton.1 hn
    have hmem : m ∈ named := (h.mem_iff m).1 hm
    have hnew : n ∉ named := fun hn => hname ((h.mem_iff n).2 hn)
    have hlt : named.idxOf m < named.length := List.idxOf_lt_length_of_mem hmem
    rw [idxOf_append_singleton hmem, List.idxOf_append, if_neg hnew]
    omega

/-- There is one such list. -/
theorem unique (h : FirstNamed kept named) (h' : FirstNamed kept' named) : kept = kept' := by
  have hmem : ∀ n, n ∈ kept ↔ n ∈ kept' := fun n => (h.mem_iff n).trans (h'.mem_iff n).symm
  have hperm : kept.Perm kept' := (List.perm_ext_iff_of_nodup h.nodup h'.nodup).2 hmem
  exact hperm.eq_of_pairwise (fun m n _ _ hmn hnm => by omega) h.ordered h'.ordered

end FirstNamed

namespace Options

/-- Options are equal if they list the same halts and agree in the rest: the set of the halts follows
    from the list. -/
theorem eq_of_halts {o o' : Options} (hstart : o.start = o'.start) (hhalts : o.halts = o'.halts)
    (hignores : o.ignores = o'.ignores) (htimeout : o.timeout = o'.timeout) : o = o' := by
  have hset : o.haltSet = o'.haltSet := NameSet.ext_mem fun n => by
    rw [contains_haltSet, contains_haltSet, hhalts]
  obtain ⟨start, halts, ignores, timeout, haltSet, nodup, mem⟩ := o
  obtain ⟨start', halts', ignores', timeout', haltSet', nodup', mem'⟩ := o'
  subst hstart hhalts hignores htimeout hset
  rfl

theorem firstNamed_withHalt {o : Options} {named : List String} (h : FirstNamed o.halts named)
    (name : String) : FirstNamed (o.withHalt name).halts (named ++ [name]) := by
  unfold withHalt
  split
  · next hset => exact h.named_again ((o.mem_haltSet name).1 hset)
  · next hset => exact h.newly_named fun hname => hset ((o.mem_haltSet name).2 hname)

/-- Many halts at once are halts one by one. -/
theorem firstNamed_withHalts {o : Options} {named : List String} (h : FirstNamed o.halts named)
    (names : List String) : FirstNamed (o.withHalts names).halts (named ++ names) := by
  induction names generalizing o named with
  | nil =>
    rw [List.append_nil]
    exact h
  | cons name rest ih =>
    rw [List.append_cons]
    exact ih (firstNamed_withHalt h name)

/-! ## Sequences of calls -/

/-- A call of the builder. -/
inductive Step where
  | halt (name : String)
  | halts (names : List String)
  | ignores (names : List String)
  | timeout (cycles : Option UInt64)

namespace Step

def apply (o : Options) : Step → Options
  | halt name => o.withHalt name
  | halts names => o.withHalts names
  | ignores names => o.withIgnores names
  | timeout cycles => o.withTimeout cycles

/-- The halts that a call names, in its order. -/
def halted : Step → List String
  | halt name => [name]
  | halts names => names
  | ignores _ | timeout _ => []

def ignored : Step → List String
  | ignores names => names
  | halt _ | halts _ | timeout _ => []

/-- The time limit that a call gives; it may give the absence of one. -/
def limit? : Step → Option (Option UInt64)
  | timeout cycles => some cycles
  | halt _ | halts _ | ignores _ => none

end Step

/-- The options that a sequence of calls builds. -/
def build (start : String) (steps : List Step) : Options := steps.foldl Step.apply (new start)

/-- All halts that a sequence names, repetitions included. -/
def haltsNamed (steps : List Step) : List String := steps.flatMap Step.halted

def ignoresNamed (steps : List Step) : List String := steps.flatMap Step.ignored

/-- The time limit of a sequence is the last one that it gives. -/
def lastLimit (steps : List Step) : Option UInt64 := (steps.filterMap Step.limit?).getLast?.getD none

theorem lastLimit_append_singleton (steps : List Step) (step : Step) :
    lastLimit (steps ++ [step]) = step.limit?.getD (lastLimit steps) := by
  unfold lastLimit
  rw [List.filterMap_append]
  cases h : step.limit? with
  | none => simp [h]
  | some cycles => simp [h]

/-- The options hold what the sequence says. -/
structure Reflects (o : Options) (start : String) (steps : List Step) : Prop where
  start_eq : o.start = start
  halts : FirstNamed o.halts (haltsNamed steps)
  ignores : ∀ n, o.ignores.contains n = true ↔ n ∈ ignoresNamed steps
  timeout_eq : o.timeout = lastLimit steps

namespace Reflects

variable {o o' : Options} {start : String} {steps steps' : List Step}

theorem new (start : String) : Reflects (new start) start [] :=
  ⟨rfl, .nil, fun n => by simp [Options.new, NameSet.contains_empty, ignoresNamed], rfl⟩

/-- **A call keeps the options in step with the sequence.** -/
theorem apply (h : Reflects o start steps) (step : Step) :
    Reflects (step.apply o) start (steps ++ [step]) := by
  have hhalts : haltsNamed (steps ++ [step]) = haltsNamed steps ++ step.halted := by
    simp [haltsNamed]
  have hignores : ignoresNamed (steps ++ [step]) = ignoresNamed steps ++ step.ignored := by
    simp [ignoresNamed]
  constructor
  · rw [← h.start_eq]
    cases step with
    | halt name => exact start_withHalts o [name]
    | halts names => exact start_withHalts o names
    | ignores | timeout => rfl
  · rw [hhalts]
    cases step with
    | halt name => exact firstNamed_withHalt h.halts name
    | halts names => exact firstNamed_withHalts h.halts names
    | ignores | timeout =>
      rw [Step.halted, List.append_nil]
      exact h.halts
  · intro n
    rw [hignores, List.mem_append, ← h.ignores]
    cases step with
    | halt name =>
      show (o.withHalts [name]).ignores.contains n = true ↔ _
      simp [Step.ignored]
    | halts names =>
      show (o.withHalts names).ignores.contains n = true ↔ _
      simp [Step.ignored]
    | ignores names => exact NameSet.contains_insertAll
    | timeout cycles =>
      show o.ignores.contains n = true ↔ _
      simp [Step.ignored]
  · rw [lastLimit_append_singleton, ← h.timeout_eq]
    cases step with
    | halt name => exact timeout_withHalts o [name]
    | halts names => exact timeout_withHalts o names
    | ignores | timeout => rfl

/-- **Every sequence of calls ends in step.** -/
theorem build (start : String) (steps : List Step) : Reflects (build start steps) start steps := by
  induction steps using List.reverseRecOn with
  | nil => exact new start
  | append_singleton steps step ih =>
    rw [Options.build, List.foldl_append]
    exact ih.apply step

/-- What is said of halts, ignored names and time limit decides the options. -/
theorem unique (h : Reflects o start steps) (h' : Reflects o' start steps')
    (hhalts : haltsNamed steps = haltsNamed steps')
    (hignores : ∀ n, n ∈ ignoresNamed steps ↔ n ∈ ignoresNamed steps')
    (hlimit : lastLimit steps = lastLimit steps') : o = o' := by
  refine eq_of_halts (h.start_eq.trans h'.start_eq.symm) (h.halts.unique (hhalts ▸ h'.halts)) ?_ ?_
  · refine NameSet.ext_mem fun n => ?_
    rw [Bool.eq_iff_iff, h.ignores, h'.ignores, hignores]
  · rw [h.timeout_eq, h'.timeout_eq, hlimit]

end Reflects

/-- **The list and the set of the halts stay in step** through any sequence of calls: the list has the
    names that were added, each once and by its first addition, and exactly its members are halts.
    Exactly the names ever added as ignored are ignored, and the time limit is the last one given.
    Sequences that say the same build the same, however the calls are mixed and put together. -/
theorem build_keeps_in_step (start : String) (steps : List Step) :
    let o := build start steps
    FirstNamed o.halts (haltsNamed steps) ∧
    (∀ n, o.isHalt n = true ↔ n ∈ o.halts) ∧
    (∀ n, o.isIgnored n = true ↔ n ∈ ignoresNamed steps) ∧
    o.timeout = lastLimit steps ∧ o.start = start ∧
    ∀ steps', haltsNamed steps' = haltsNamed steps →
      (∀ n, n ∈ ignoresNamed steps' ↔ n ∈ ignoresNamed steps) →
      lastLimit steps' = lastLimit steps → build start steps' = o := by
  have h := Reflects.build start steps
  refine ⟨h.halts, fun n => (build start steps).mem_haltSet n, h.ignores, h.timeout_eq, h.start_eq, ?_⟩
  intro steps' hhalts hignores hlimit
  exact (Reflects.build start steps').unique h hhalts hignores hlimit

/-- Halts one by one and in one call, with repetitions, ignored names in another order, and a time limit
    that is given twice. -/
theorem build_keeps_in_step_batched :
    let steps : List Step := [.halt "win", .ignores ["b", "a"], .timeout (some 5), .halts ["end", "win"],
      .timeout (some 7)]
    let steps' : List Step := [.timeout none, .halts ["win", "end"], .ignores ["a"], .timeout (some 7),
      .ignores ["b", "a"], .halt "win"]
    haltsNamed steps' = haltsNamed steps ∧ build "main" steps' = build "main" steps ∧
      (build "main" steps).halts = ["win", "end"] ∧ (build "main" steps).isHalt "end" = true := by
  have hhalts : haltsNamed [.timeout none, .halts ["win", "end"], .ignores ["a"], .timeout (some 7),
      .ignores ["b", "a"], .halt "win"] = haltsNamed [.halt "win", .ignores ["b", "a"],
        .timeout (some 5), .halts ["end", "win"], .timeout (some 7)] := rfl
  refine ⟨hhalts, ?_, by decide, by decide⟩
  exact (build_keeps_in_step "main" _).2.2.2.2.2 _ hhalts
    (fun n => by simp [ignoresNamed, Step.ignored, or_comm]) rfl

end Options
end FaultPlan
