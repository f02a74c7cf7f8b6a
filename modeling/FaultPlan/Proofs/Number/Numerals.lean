/-
  Which texts are decimal numbers.

  The reader folds the digits from the left and stops at the first character that is none.  It accepts
  exactly the texts that are digits and at least one, behind a plus sign or not, and whose value 64 bits
  can hold (`Decimal.parse_eq_some_iff`).  None of them begins like a hexadecimal number.
-/
import FaultPlan.Number.Decimal
import FaultPlan.Text.Pieces

namespace FaultPlan

namespace Number

theorem word?_eq_some_iff {n : Nat} {v : UInt64} : word? n = some v ↔ n = v.toNat := by
  unfold word?
  split
  · next h =>
    rw [Option.some.injEq, ← UInt64.toNat_inj, UInt64.toNat_ofNatLT]
  · next h =>
    constructor
    · nofun
    · rintro rfl
      exact absurd v.toNat_lt_size h

theorem ofDigits?_eq_some_iff {base : Nat} {cs : List Char} {v : UInt64} :
    ofDigits? base cs = some v ↔ cs ≠ [] ∧ valueFrom base 0 cs = some v.toNat := by
  unfold ofDigits?
  cases cs with
  | nil => simp
  | cons c cs => simp [Option.bind_eq_some_iff, word?_eq_some_iff]

theorem digit?_of_isDigit {c : Char} (h : c.isDigit = true) :
    digit? c = some (c.toNat - 48) ∧ c.toNat - 48 < 10 := by
  obtain ⟨hlower, hupper⟩ := Char.isDigit_iff_toNat.1 h
  have hdigit : '0' ≤ c ∧ c ≤ '9' := ⟨hlower, hupper⟩
  have hvalue : c.toNat ≤ 57 := hupper
  refine ⟨?_, by omega⟩
  unfold digit?
  rw [if_pos hdigit]
  rfl

theorem isDigit_of_digit? {c : Char} {d : Nat} (h : digit? c = some d) (hd : d < 10) :
    c.isDigit = true := by
  unfold digit? at h
  split at h
  · next hc =>
    have hlower : 48 ≤ c.toNat := hc.1
    have hupper : c.toNat ≤ 57 := hc.2
    exact Char.isDigit_iff_toNat.2 ⟨hlower, hupper⟩
  · -- a letter is worth ten or more
    split at h
    · obtain rfl := Option.some.inj h
      omega
    · split at h
      · obtain rfl := Option.some.inj h
        omega
      · nomatch h

/-- Reading a decimal numeral goes on to its end exactly if it has digits only. -/
theorem valueFrom_ten_eq_some_iff {cs : List Char} {acc n : Nat} :
    valueFrom 10 acc cs = some n ↔
      (∀ c ∈ cs, c.isDigit = true) ∧ Nat.ofDigitChars 10 cs acc = n := by
  induction cs generalizing acc with
  | nil => simp [valueFrom]
  | cons c cs ih =>
    rw [valueFrom, Nat.ofDigitChars_cons, List.forall_mem_cons]
    by_cases hc : c.isDigit = true
    · obtain ⟨hdigit, hlt⟩ := digit?_of_isDigit hc
      simp only [hdigit, hlt, if_true, hc, true_and]
      exact ih
    · have hnone : ∀ d, digit? c = some d → ¬ d < 10 := fun d hd hlt => hc (isDigit_of_digit? hd hlt)
      cases hdigit : digit? c with
      | none => simp [hc]
      | some d => simp [hc, hnone d hdigit]

end Number

namespace Decimal

/-- The text spells the number: digits, one at least, with a plus sign in front or without. -/
def Spells (s : String) (v : UInt64) : Prop :=
  ∃ ds : List Char, (s.toList = ds ∨ s.toList = '+' :: ds) ∧ ds ≠ [] ∧
    (∀ d ∈ ds, d.isDigit = true) ∧ Nat.ofDigitChars 10 ds 0 = v.toNat

variable {s : String} {v : UInt64}

theorem unsign_of_digits {ds : List Char} (h : ∀ d ∈ ds, d.isDigit = true) : unsign ds = ds := by
  unfold unsign
  split
  · next ds =>
    have hplus := h '+' List.mem_cons_self
    nomatch hplus
  · rfl

/-- **Decimal numbers** are exactly the texts that spell one. -/
theorem parse_eq_some_iff : parse s = some v ↔ Spells s v := by
  rw [parse, Number.ofDigits?_eq_some_iff, Number.valueFrom_ten_eq_some_iff]
  constructor
  · rintro ⟨hne, hdigits, hvalue⟩
    refine ⟨unsign s.toList, ?_, hne, hdigits, hvalue⟩
    unfold unsign
    split
    · next ds hplus => exact Or.inr hplus
    · exact Or.inl rfl
  · rintro ⟨ds, hs | hs, hne, hdigits, hvalue⟩
    · rw [hs, unsign_of_digits hdigits]
      exact ⟨hne, hdigits, hvalue⟩
    · rw [hs]
      exact ⟨hne, hdigits, hvalue⟩

/-- A decimal number does not begin like a hexadecimal one. -/
theorem Spells.not_startsWith (h : Spells s v) : Text.startsWith "0x" s = false := by
  obtain ⟨ds, hs, -, hdigits, -⟩ := h
  refine Bool.eq_false_iff.2 fun hmark => ?_
  have hprefix : ['0', 'x'] <+: s.toList := List.isPrefixOf_iff_prefix.1 hmark
  obtain ⟨rest, hrest⟩ := hprefix
  rcases hs with hs | hs
  · have hx := hdigits 'x' (by rw [← hs, ← hrest]; simp)
    nomatch hx
  · rw [hs] at hrest
    nomatch hrest

end Decimal
end FaultPlan
