/-
  Arguments of the engine that are words.

  A group takes at most one text over from elsewhere (`Engine.Group.text?`), and all its other tokens
  are options and numbers, which are words.  So the arguments of a configuration are words exactly if
  its labels and paths are (`Configuration.words_arguments_iff`).  And a text that the engine reads
  has been one of the tokens (`Engine.mem_of_readGroups`): it never puts two of them together.
-/
import FaultPlan.Proofs.Engine.RoundTrip
import FaultPlan.Proofs.Outcomes
import FaultPlan.Proofs.Text.Words

namespace FaultPlan

open Engine (Group Arguments readGroups)
open Text (IsWord)

/-! ## Numbers -/

theorem Hex.isWord_render (v : UInt64) : IsWord (render v) where
  ne_empty h := by
    have hnil := congrArg String.toList h
    rw [toList_render] at hnil
    nomatch hnil
  no_blank _ hc := isBlank_of_mem_render hc

theorem Decimal.isWord_render (v : UInt64) : IsWord (render v) where
  ne_empty h := by
    have hnil := congrArg String.toList h
    rw [toList_render] at hnil
    exact Nat.toDigits_ne_nil hnil
  no_blank c hc := by
    rw [toList_render] at hc
    obtain ⟨d, hd, rfl⟩ := Number.exists_digitChar_of_mem_toDigits (by decide) _ hc
    have hall : ∀ e : Fin 10, Text.isBlank (Nat.digitChar e.val) = false := by decide
    exact hall ⟨d, hd⟩

/-! ## Groups -/

/-- The text that a group takes over from elsewhere: a label, a name or a path. -/
def Engine.Group.text? : Group → Option String
  | .halt point => some point.label
  | .symbol name _ => some name
  | .load path _ => some path
  | _ => none

namespace Engine.Group

theorem mem_tokens_of_text? {g : Group} {text : String} (h : g.text? = some text) :
    text ∈ g.tokens := by
  cases g with
  | halt | symbol | load =>
    obtain rfl := Option.some.inj h
    exact List.mem_cons_of_mem _ List.mem_cons_self
  | start | flash | ram | ignore | timeout | isa => nomatch h

/-- Options and numbers are words. -/
theorem isWord_of_mem_tokens {g : Group} {token : String} (h : token ∈ g.tokens) :
    g.text? = some token ∨ IsWord token := by
  cases g with
  | halt | symbol | load =>
    rw [tokens, List.mem_cons, List.mem_cons, List.mem_singleton] at h
    rcases h with rfl | rfl | rfl
    · exact Or.inr (by decide)
    · exact Or.inl rfl
    · exact Or.inr (Hex.isWord_render _)
  | flash | ram | ignore =>
    rw [tokens, List.mem_cons, List.mem_cons, List.mem_singleton] at h
    rcases h with rfl | rfl | rfl
    · exact Or.inr (by decide)
    · exact Or.inr (Hex.isWord_render _)
    · exact Or.inr (Hex.isWord_render _)
  | start address =>
    rw [tokens, List.mem_cons, List.mem_singleton] at h
    rcases h with rfl | rfl
    · exact Or.inr (by decide)
    · exact Or.inr (Hex.isWord_render _)
  | timeout cycles =>
    rw [tokens, List.mem_cons, List.mem_singleton] at h
    rcases h with rfl | rfl
    · exact Or.inr (by decide)
    · exact Or.inr (Decimal.isWord_render _)
  | isa i =>
    obtain rfl := List.mem_singleton.1 h
    cases i <;> exact Or.inr (by decide)

end Engine.Group

/-! ## Reading texts -/

namespace Engine

theorem Group.Spells.mem_of_text? {tokens : List String} {g : Group} {text : String}
    (h : g.Spells tokens) (htext : g.text? = some text) : text ∈ tokens := by
  cases h with
  | halt | symbol | load =>
    obtain rfl := Option.some.inj htext
    exact List.mem_cons_of_mem _ List.mem_cons_self
  | start | flash | ram | ignore | timeout | armv6m | armv7m => nomatch htext

theorem Scan.mem_of_text? {tokens : List String} {groups : List Group}
    {fault? : Option ArgumentFault} (h : Scan tokens groups fault?) :
    ∀ g ∈ groups, ∀ text, g.text? = some text → text ∈ tokens := by
  induction h with
  | done | fails => nofun
  | group hspells hrest ih =>
    refine List.forall_mem_cons.2 ⟨fun text htext => ?_, fun g hg text htext => ?_⟩
    · exact List.mem_append_left _ (hspells.mem_of_text? htext)
    · exact List.mem_append_right _ (ih g hg text htext)

/-- **What is read as a text** has been a token. -/
theorem mem_of_readGroups {tokens : List String} {groups : List Group}
    (h : readGroups tokens = .ok groups) :
    ∀ g ∈ groups, ∀ text, g.text? = some text → text ∈ tokens :=
  (scan_none_iff.2 h).mem_of_text?

/-- The paths of the sections are tokens, as they stand. -/
theorem Arguments.mem_of_parse {tokens : List String} {a : Arguments} (h : parse tokens = .ok a) :
    ∀ loaded ∈ a.sections, loaded.1 ∈ tokens := by
  obtain ⟨groups, hgroups, h⟩ := bind_eq_ok_iff.1 h
  have hsections : a.sections = groups.filterMap Group.load? := by
    unfold ofGroups at h
    dsimp only at h
    split at h
    · nomatch h
    split at h
    · nomatch h
    split at h
    · nomatch h
    split at h
    · nomatch h
    obtain rfl := Except.ok.inj h
    rfl
  rw [hsections]
  intro loaded hloaded
  obtain ⟨g, hg, hload⟩ := List.mem_filterMap.1 hloaded
  refine mem_of_readGroups hgroups g hg loaded.1 ?_
  cases g with
  | load path address =>
    obtain rfl := Option.some.inj hload
    rfl
  | start | halt | symbol | flash | ram | ignore | timeout | isa => nomatch hload

end Engine

/-! ## Arguments of a configuration -/

namespace Configuration

variable {c : Configuration}

/-- A configuration takes over its labels and its paths. -/
theorem filterMap_text?_groups (c : Configuration) :
    c.groups.filterMap Group.text? = c.halts.map (·.label) ++ c.blobs.map (·.path.display) := by
  simp [filterMap_groups, Group.text?]

theorem isWord_arguments_iff :
    (∀ token ∈ c.arguments, IsWord token) ↔
      ∀ text ∈ c.groups.filterMap Group.text?, IsWord text := by
  constructor
  · intro h text htext
    obtain ⟨g, hg, htext⟩ := List.mem_filterMap.1 htext
    exact h text (List.mem_flatMap.2 ⟨g, hg, Group.mem_tokens_of_text? htext⟩)
  · intro h token htoken
    obtain ⟨g, hg, htoken⟩ := List.mem_flatMap.1 htoken
    rcases Group.isWord_of_mem_tokens htoken with htext | hword
    · exact h token (List.mem_filterMap.2 ⟨g, hg, htext⟩)
    · exact hword

/-- **The arguments are words** exactly if the labels and the paths are. -/
theorem words_arguments_iff :
    c.arguments.flatMap Text.words = c.arguments ↔
      (∀ p ∈ c.halts, IsWord p.label) ∧ ∀ b ∈ c.blobs, IsWord b.path.display := by
  rw [Text.flatMap_words_eq_self_iff, isWord_arguments_iff, filterMap_text?_groups,
    List.forall_mem_append, List.forall_mem_map, List.forall_mem_map]

end Configuration

end FaultPlan
