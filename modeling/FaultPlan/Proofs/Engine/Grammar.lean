/-
  The grammar of an engine command line.

  Every option has its operands, each a number or any text (`operandKinds?`), and an option with
  operands that fit is a group (`Group.Spells`).  A command line is scanned from the left, group by
  group, up to its end or to the first fault (`Scan`).  The option says how many operands there are,
  so a scan can go in one way only (`Scan.unique`), even where a label or a path looks like an option.
  A fault stays whatever stands behind it, except that a missing operand can still be supplied
  (`Scan.append`).
-/
import Mathlib.Data.List.Forall2
import FaultPlan.Engine.Group
import FaultPlan.Proofs.Number.Numerals

namespace FaultPlan.Engine

/-! ## Numbers -/

/-- The token spells the number: in hexadecimal with `0x` in front, else in decimal. -/
def IsNumber (token : String) (v : UInt64) : Prop :=
  (Text.startsWith "0x" token = true ∧ Hex.parse token = some v) ∨ Decimal.Spells token v

theorem number_eq_ok_iff {token : String} {v : UInt64} :
    number token = .ok v ↔ IsNumber token v := by
  have hvalue : number token = .ok v ↔
      (if Text.startsWith "0x" token then Hex.parse token else Decimal.parse token) = some v := by
    unfold number
    dsimp only
    split <;> simp_all
  rw [hvalue, IsNumber]
  by_cases hmark : Text.startsWith "0x" token = true
  · have hdecimal : ¬ Decimal.Spells token v := fun h => by
      nomatch hmark.symm.trans h.not_startsWith
    simp [hmark, hdecimal]
  · simp [hmark, Decimal.parse_eq_some_iff]

theorem number_of_not_isNumber {token : String} (h : ∀ v, ¬ IsNumber token v) :
    number token = .error (.badNumber token) := by
  cases hnumber : number token with
  | ok v => exact absurd (number_eq_ok_iff.1 hnumber) (h v)
  | error fault =>
    unfold number at hnumber
    dsimp only at hnumber
    split at hnumber
    · nomatch hnumber
    · exact hnumber.symm

theorem number_cases (token : String) :
    (∃ v, number token = .ok v ∧ IsNumber token v) ∨
      number token = .error (.badNumber token) ∧ ∀ v, ¬ IsNumber token v := by
  by_cases h : ∃ v, IsNumber token v
  · obtain ⟨v, hv⟩ := h
    exact Or.inl ⟨v, number_eq_ok_iff.2 hv, hv⟩
  · have hnone : ∀ v, ¬ IsNumber token v := fun v hv => h ⟨v, hv⟩
    exact Or.inr ⟨number_of_not_isNumber hnone, hnone⟩

theorem IsNumber.unique {token : String} {v w : UInt64} (hv : IsNumber token v)
    (hw : IsNumber token w) : v = w :=
  Except.ok.inj ((number_eq_ok_iff.2 hv).symm.trans (number_eq_ok_iff.2 hw))

/-! ## Operands -/

inductive OperandKind where
  | text
  | number

/-- Any token is a text. -/
def OperandKind.Fits : OperandKind → String → Prop
  | text, _ => True
  | number, token => ∃ v, IsNumber token v

/-- The operands that an option takes, in their order. -/
def operandKinds? : String → Option (List OperandKind)
  | "--start" => some [.number]
  | "--halt" => some [.text, .number]
  | "--symbol" => some [.text, .number]
  | "--section" => some [.text, .number]
  | "--flash" => some [.number, .number]
  | "--ram" => some [.number, .number]
  | "--ignore" => some [.number, .number]
  | "--timeout" => some [.number]
  | "--armv6m" => some []
  | "--armv7m" => some []
  | _ => none

/-- What is wrong with the first operand that does not fit: no token is left for it, or the token is no
    number. -/
inductive OperandFault (option : String) :
    List OperandKind → List String → ArgumentFault → Prop where
  | missing {kind : OperandKind} {kinds : List OperandKind} :
    OperandFault option (kind :: kinds) [] (.missingOperand option)
  | noNumber {token : String} {kinds : List OperandKind} {rest : List String}
    (h : ∀ v, ¬ IsNumber token v) :
    OperandFault option (.number :: kinds) (token :: rest) (.badNumber token)
  | later {kind : OperandKind} {kinds : List OperandKind} {token : String} {rest : List String}
    {fault : ArgumentFault} (h : kind.Fits token) (hlater : OperandFault option kinds rest fault) :
    OperandFault option (kind :: kinds) (token :: rest) fault

namespace OperandFault

variable {option : String} {kinds : List OperandKind} {rest : List String}
variable {fault fault' : ArgumentFault}

theorem unique (h : OperandFault option kinds rest fault)
    (h' : OperandFault option kinds rest fault') : fault = fault' := by
  induction h with
  | missing =>
    cases h'
    rfl
  | noNumber hbad =>
    cases h' with
    | noNumber => rfl
    | later hfit => exact absurd hfit.choose_spec (hbad _)
  | later hfit hlater ih =>
    cases h' with
    | noNumber hbad => exact absurd hfit.choose_spec (hbad _)
    | later hfit' hlater' => exact ih hlater'

/-- Operands that all fit are not at fault. -/
theorem false_of_fits {operands : List String} (h : List.Forall₂ OperandKind.Fits kinds operands)
    (hfault : OperandFault option kinds (operands ++ rest) fault) : False := by
  induction h with
  | nil => nomatch hfault
  | cons hfit hfits ih =>
    cases hfault with
    | noNumber hbad => exact absurd hfit.choose_spec (hbad _)
    | later hfit' hlater => exact ih hlater

theorem append (h : OperandFault option kinds rest fault)
    (hfault : ∀ option', fault ≠ .missingOperand option') (more : List String) :
    OperandFault option kinds (rest ++ more) fault := by
  induction h with
  | missing => exact absurd rfl (hfault option)
  | noNumber hbad => exact noNumber hbad
  | later hfit hlater ih => exact later hfit (ih hfault)

end OperandFault

/-! ## Groups and faults -/

/-- The tokens spell the group. -/
inductive Group.Spells : List String → Group → Prop where
  | start {a : String} {v : UInt64} (ha : IsNumber a v) : Spells ["--start", a] (.start v)
  | halt {label a : String} {v : UInt64} (ha : IsNumber a v) :
    Spells ["--halt", label, a] (.halt ⟨label, v⟩)
  | symbol {name a : String} {v : UInt64} (ha : IsNumber a v) :
    Spells ["--symbol", name, a] (.symbol name v)
  | load {path a : String} {v : UInt64} (ha : IsNumber a v) :
    Spells ["--section", path, a] (.load path v)
  | flash {a b : String} {v w : UInt64} (ha : IsNumber a v) (hb : IsNumber b w) :
    Spells ["--flash", a, b] (.flash ⟨v, w⟩)
  | ram {a b : String} {v w : UInt64} (ha : IsNumber a v) (hb : IsNumber b w) :
    Spells ["--ram", a, b] (.ram ⟨v, w⟩)
  | ignore {a b : String} {v w : UInt64} (ha : IsNumber a v) (hb : IsNumber b w) (h : v < w) :
    Spells ["--ignore", a, b] (.ignore ⟨v, w⟩)
  | timeout {a : String} {v : UInt64} (ha : IsNumber a v) : Spells ["--timeout", a] (.timeout v)
  | armv6m : Spells ["--armv6m"] (.isa .armv6m)
  | armv7m : Spells ["--armv7m"] (.isa .armv7m)

/-- The tokens begin with a group at fault: the option is unknown, an operand does not fit, or the
    ignore range has no address. -/
inductive Fails : List String → ArgumentFault → Prop where
  | unknownOption {option : String} {rest : List String} (h : operandKinds? option = none) :
    Fails (option :: rest) (.unknownOption option)
  | operand {option : String} {kinds : List OperandKind} {rest : List String}
    {fault : ArgumentFault} (h : operandKinds? option = some kinds)
    (hfault : OperandFault option kinds rest fault) : Fails (option :: rest) fault
  | emptyIgnore {a b : String} {v w : UInt64} {rest : List String} (ha : IsNumber a v)
    (hb : IsNumber b w) (h : w ≤ v) : Fails ("--ignore" :: a :: b :: rest) (.emptyIgnore v w)

theorem fits_two {a b : String} {v w : UInt64} (ha : IsNumber a v) (hb : IsNumber b w) :
    List.Forall₂ OperandKind.Fits [.number, .number] [a, b] :=
  .cons ⟨v, ha⟩ (.cons ⟨w, hb⟩ .nil)

/-- A group is an option with operands that fit. -/
theorem Group.Spells.exists_operands {tokens : List String} {g : Group} (h : g.Spells tokens) :
    ∃ option kinds operands, tokens = option :: operands ∧ operandKinds? option = some kinds ∧
      List.Forall₂ OperandKind.Fits kinds operands := by
  cases h with
  | start ha | timeout ha => exact ⟨_, _, _, rfl, rfl, .cons ⟨_, ha⟩ .nil⟩
  | halt ha | symbol ha | load ha =>
    exact ⟨_, _, _, rfl, rfl, .cons trivial (.cons ⟨_, ha⟩ .nil)⟩
  | flash ha hb | ram ha hb | ignore ha hb => exact ⟨_, _, _, rfl, rfl, fits_two ha hb⟩
  | armv6m | armv7m => exact ⟨_, _, _, rfl, rfl, .nil⟩

/-- The tokens of a group are read as that group, and reading goes on behind them. -/
theorem Group.Spells.readGroups_append {tokens : List String} {g : Group} (h : g.Spells tokens)
    (rest : List String) : readGroups (tokens ++ rest) = (readGroups rest).map (g :: ·) := by
  cases h with
  | start ha | timeout ha | halt ha | symbol ha | load ha =>
    simp [readGroups, Operands.ofOption?, number_eq_ok_iff.2 ha, bind, Except.bind]
  | flash ha hb | ram ha hb =>
    simp [readGroups, Operands.ofOption?, number_eq_ok_iff.2 ha, number_eq_ok_iff.2 hb, bind,
      Except.bind]
  | ignore ha hb hlt =>
    simp [readGroups, Operands.ofOption?, number_eq_ok_iff.2 ha, number_eq_ok_iff.2 hb,
      IgnoreRange.ofBounds?, hlt, bind, Except.bind]
  | armv6m | armv7m => simp [readGroups, Operands.ofOption?]

/-- A command line begins with one group only. -/
theorem Group.Spells.unique {tokens tokens' rest rest' : List String} {g g' : Group}
    (h : g.Spells tokens) (h' : g'.Spells tokens') (heq : tokens ++ rest = tokens' ++ rest') :
    g = g' ∧ rest = rest' := by
  obtain ⟨option, kinds, operands, rfl, hkinds, hfits⟩ := h.exists_operands
  obtain ⟨option', kinds', operands', rfl, hkinds', hfits'⟩ := h'.exists_operands
  rw [List.cons_append, List.cons_append, List.cons.injEq] at heq
  obtain ⟨rfl, heq⟩ := heq
  obtain rfl := Option.some.inj (hkinds.symm.trans hkinds')
  have hlength : operands.length = operands'.length := hfits.length_eq.symm.trans hfits'.length_eq
  obtain ⟨rfl, rfl⟩ := List.append_inj heq hlength
  have hread := (h.readGroups_append []).symm.trans (h'.readGroups_append [])
  exact ⟨List.head_eq_of_cons_eq (Except.ok.inj hread), rfl⟩

theorem Fails.unique {tokens : List String} {fault fault' : ArgumentFault} (h : Fails tokens fault)
    (h' : Fails tokens fault') : fault = fault' := by
  cases h with
  | unknownOption hunknown =>
    cases h' with
    | unknownOption => rfl
    | operand hkinds => nomatch hunknown.symm.trans hkinds
    | emptyIgnore => nomatch hunknown
  | operand hkinds hfault =>
    cases h' with
    | unknownOption hunknown => nomatch hunknown.symm.trans hkinds
    | operand hkinds' hfault' =>
      obtain rfl := Option.some.inj (hkinds.symm.trans hkinds')
      exact hfault.unique hfault'
    | emptyIgnore ha hb =>
      obtain rfl := Option.some.inj hkinds
      exact (OperandFault.false_of_fits (fits_two ha hb) hfault).elim
  | emptyIgnore ha hb =>
    cases h' with
    | unknownOption hunknown => nomatch hunknown
    | operand hkinds hfault =>
      obtain rfl := Option.some.inj hkinds
      exact (OperandFault.false_of_fits (fits_two ha hb) hfault).elim
    | emptyIgnore ha' hb' => rw [ha.unique ha', hb.unique hb']

/-- A group that is there is not at fault. -/
theorem Group.Spells.not_fails {tokens rest : List String} {g : Group} {fault : ArgumentFault}
    (h : g.Spells tokens) : ¬ Fails (tokens ++ rest) fault := by
  intro hfails
  obtain ⟨option, kinds, operands, htokens, hkinds, hfits⟩ := h.exists_operands
  generalize hall : tokens ++ rest = all at hfails
  rw [htokens, List.cons_append] at hall
  cases hfails with
  | unknownOption hunknown =>
    obtain ⟨rfl, -⟩ := List.cons.inj hall
    nomatch hunknown.symm.trans hkinds
  | operand hkinds' hfault =>
    obtain ⟨rfl, rfl⟩ := List.cons.inj hall
    obtain rfl := Option.some.inj (hkinds.symm.trans hkinds')
    exact OperandFault.false_of_fits hfits hfault
  | @emptyIgnore a b v w _ ha hb hle =>
    obtain ⟨rfl, htail⟩ := List.cons.inj hall
    obtain rfl := Option.some.inj hkinds
    have htwo : operands ++ rest = [a, b] ++ _ := htail
    obtain ⟨rfl, -⟩ := List.append_inj htwo hfits.length_eq.symm
    -- the range is the group, and reading refuses it
    have hread := h.readGroups_append []
    simp [htokens, readGroups, Operands.ofOption?, number_eq_ok_iff.2 ha, number_eq_ok_iff.2 hb,
      IgnoreRange.ofBounds?, UInt64.not_lt.2 hle, bind, Except.bind, Except.map] at hread

theorem Fails.append {tokens : List String} {fault : ArgumentFault} (h : Fails tokens fault)
    (hfault : ∀ option, fault ≠ .missingOperand option) (more : List String) :
    Fails (tokens ++ more) fault := by
  cases h with
  | unknownOption hunknown => exact unknownOption hunknown
  | operand hkinds hoperand => exact operand hkinds (hoperand.append hfault more)
  | emptyIgnore ha hb hle => exact emptyIgnore ha hb hle

/-! ## Command lines -/

/-- The tokens are these groups one behind the other, up to their end or to the first fault. -/
inductive Scan : List String → List Group → Option ArgumentFault → Prop where
  | done : Scan [] [] none
  | fails {tokens : List String} {fault : ArgumentFault} (h : Fails tokens fault) :
    Scan tokens [] (some fault)
  | group {tokens rest : List String} {g : Group} {groups : List Group}
    {fault? : Option ArgumentFault} (h : g.Spells tokens) (hrest : Scan rest groups fault?) :
    Scan (tokens ++ rest) (g :: groups) fault?

namespace Scan

variable {tokens : List String} {groups groups' : List Group}
variable {fault? fault?' : Option ArgumentFault}

/-- **A command line is scanned in one way only.** -/
theorem unique (h : Scan tokens groups fault?) (h' : Scan tokens groups' fault?') :
    groups = groups' ∧ fault? = fault?' := by
  induction h generalizing groups' fault?' with
  | done =>
    generalize hall : [] = tokens at h'
    cases h' with
    | done => exact ⟨rfl, rfl⟩
    | fails hfails =>
      subst hall
      nomatch hfails
    | group hspells hrest =>
      obtain ⟨option, kinds, operands, rfl, -⟩ := hspells.exists_operands
      nomatch hall
  | fails hfails =>
    cases h' with
    | done => nomatch hfails
    | fails hfails' => exact ⟨rfl, congrArg some (hfails.unique hfails')⟩
    | group hspells hrest => exact absurd hfails hspells.not_fails
  | @group tokens rest g groups fault? hspells hrest ih =>
    generalize hall : tokens ++ rest = all at h'
    cases h' with
    | done =>
      obtain ⟨option, kinds, operands, rfl, -⟩ := hspells.exists_operands
      nomatch hall
    | fails hfails =>
      subst hall
      exact absurd hfails hspells.not_fails
    | group hspells' hrest' =>
      obtain ⟨rfl, rfl⟩ := hspells.unique hspells' hall
      obtain ⟨rfl, rfl⟩ := ih hrest'
      exact ⟨rfl, rfl⟩

theorem append {fault : ArgumentFault} (h : Scan tokens groups (some fault))
    (hfault : ∀ option, fault ≠ .missingOperand option) (more : List String) :
    Scan (tokens ++ more) groups (some fault) := by
  generalize hsome : some fault = fault? at h
  induction h with
  | done => nomatch hsome
  | fails hfails =>
    obtain rfl := Option.some.inj hsome
    exact fails (hfails.append hfault more)
  | group hspells hrest ih =>
    rw [List.append_assoc]
    exact group hspells (ih hsome)

end Scan
end FaultPlan.Engine
