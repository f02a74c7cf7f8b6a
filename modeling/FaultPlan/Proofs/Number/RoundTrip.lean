/-
  Written numbers read back.

  Reading a numeral folds its digits from the left, writing one divides from the right; they meet
  in `valueFrom_toDigits`, by induction on the number.  The rest is about what surrounds the digits:
  a written number holds no blank, so that trimming leaves it alone, and a decimal number has
  neither a sign nor the mark of a hexadecimal one.
-/
import FaultPlan.Number.Decimal
import FaultPlan.Number.Hex
import FaultPlan.Text.Pieces

namespace FaultPlan

/-! ## Digits -/

namespace Number

/-- A digit that is written for a value below sixteen is read as that value. -/
theorem digit?_digitChar {d : Nat} (h : d < 16) : digit? (Nat.digitChar d) = some d := by
  have hall : ∀ e : Fin 16, digit? (Nat.digitChar e.val) = some e.val := by decide
  exact hall ⟨d, h⟩

theorem valueFrom_append (base : Nat) (cs ds : List Char) : ∀ acc : Nat,
    valueFrom base acc (cs ++ ds) = (valueFrom base acc cs).bind (valueFrom base · ds) := by
  induction cs with
  | nil =>
    intro acc
    rfl
  | cons c cs ih =>
    intro acc
    rw [List.cons_append, valueFrom, valueFrom]
    split
    · split
      · exact ih _
      · rfl
    · rfl

/-- The digits of a number are worth that number. -/
theorem valueFrom_toDigits {b : Nat} (hb : 1 < b) (hb16 : b ≤ 16) (n : Nat) :
    valueFrom b 0 (Nat.toDigits b n) = some n := by
  have hstep : ∀ acc d : Nat, d < b → valueFrom b acc [Nat.digitChar d] = some (b * acc + d) := by
    intro acc d hd
    rw [valueFrom, digit?_digitChar (by omega)]
    simp [hd, valueFrom]
  induction n using Nat.strongRecOn with
  | _ n ih =>
    rw [Nat.toDigits_eq_if hb]
    split
    · next hn => rw [hstep 0 n hn, Nat.mul_zero, Nat.zero_add]
    · next hn =>
      -- the last digit is read last, when the digits before it are worth `n / b`
      have hdiv : n / b < n := Nat.div_lt_self (by omega) hb
      have hmod : n % b < b := Nat.mod_lt n (by omega)
      rw [valueFrom_append, ih (n / b) hdiv, Option.bind_some, hstep (n / b) (n % b) hmod,
        Nat.div_add_mod]

/-- The characters of a written number are digits below its base. -/
theorem exists_digitChar_of_mem_toDigits {b : Nat} (hb : 1 < b) {c : Char} (n : Nat)
    (h : c ∈ Nat.toDigits b n) : ∃ d, d < b ∧ c = Nat.digitChar d := by
  induction n using Nat.strongRecOn with
  | _ n ih =>
    rw [Nat.toDigits_eq_if hb] at h
    split at h
    · next hn => exact ⟨n, hn, List.mem_singleton.1 h⟩
    · next hn =>
      rcases List.mem_append.1 h with h | h
      · exact ih (n / b) (Nat.div_lt_self (by omega) hb) h
      · exact ⟨n % b, Nat.mod_lt n (by omega), List.mem_singleton.1 h⟩

theorem word?_toNat (v : UInt64) : word? v.toNat = some v := by
  unfold word?
  rw [dif_pos v.toNat_lt_size, UInt64.ofNatLT_toNat]

/-- A number that is written out in digits is read as itself. -/
theorem ofDigits?_toDigits {b : Nat} (hb : 1 < b) (hb16 : b ≤ 16) (v : UInt64) :
    ofDigits? b (Nat.toDigits b v.toNat) = some v := by
  have hne : (Nat.toDigits b v.toNat).isEmpty = false := by simp
  unfold ofDigits?
  rw [hne, if_neg Bool.false_ne_true, valueFrom_toDigits hb hb16, Option.bind_some, word?_toNat]

end Number

/-! ## Hexadecimal numbers -/

theorem Text.trimChars_eq_self {cs : List Char} (h : ∀ c ∈ cs, isBlank c = false) :
    trimChars cs = cs := by
  have hdrop : ∀ ds : List Char, (∀ c ∈ ds, isBlank c = false) → ds.dropWhile isBlank = ds := by
    intro ds hds
    cases ds with
    | nil => rfl
    | cons c ds => exact List.dropWhile_cons_of_neg (by simp [hds c List.mem_cons_self])
  rw [trimChars, trimStart, hdrop cs h, trimEnd, hdrop cs.reverse, List.reverse_reverse]
  intro c hc
  exact h c (List.mem_reverse.1 hc)

namespace Hex

theorem toList_render (v : UInt64) :
    (render v).toList = '0' :: 'x' :: Nat.toDigits 16 v.toNat := by
  simp [render]

theorem isBlank_of_mem_render {v : UInt64} {c : Char} (h : c ∈ (render v).toList) :
    Text.isBlank c = false := by
  rw [toList_render] at h
  rcases List.mem_cons.1 h with rfl | h
  · decide
  rcases List.mem_cons.1 h with rfl | h
  · decide
  obtain ⟨d, hd, rfl⟩ := Number.exists_digitChar_of_mem_toDigits (by decide) _ h
  have hall : ∀ e : Fin 16, Text.isBlank (Nat.digitChar e.val) = false := by decide
  exact hall ⟨d, hd⟩

/-- A number in its written form is read as itself. -/
theorem parse_render (v : UInt64) : parse (render v) = some v := by
  rw [parse, Text.trimChars_eq_self fun c hc => isBlank_of_mem_render hc, toList_render, unmark]
  exact Number.ofDigits?_toDigits (by decide) (by decide) v

theorem startsWith_render (v : UInt64) : Text.startsWith "0x" (render v) = true := by
  rw [Text.startsWith, toList_render]
  rfl

end Hex

/-! ## Decimal numbers -/

namespace Decimal

theorem toList_render (v : UInt64) : (render v).toList = Nat.toDigits 10 v.toNat := by
  rw [render, String.toList_ofList]

theorem not_mem_render {v : UInt64} {c : Char} (h : c = '+' ∨ c = 'x') :
    c ∉ (render v).toList := by
  intro hc
  rw [toList_render] at hc
  obtain ⟨d, hd, rfl⟩ := Number.exists_digitChar_of_mem_toDigits (by decide) _ hc
  have hall : ∀ e : Fin 10, ¬ (Nat.digitChar e.val = '+' ∨ Nat.digitChar e.val = 'x') := by decide
  exact hall ⟨d, hd⟩ h

/-- A number in its written form is read as itself. -/
theorem parse_render (v : UInt64) : parse (render v) = some v := by
  have hunsign : unsign (render v).toList = (render v).toList := by
    unfold unsign
    split
    · next ds h =>
      have hplus : '+' ∉ (render v).toList := not_mem_render (Or.inl rfl)
      rw [h] at hplus
      exact absurd List.mem_cons_self hplus
    · rfl
  rw [parse, hunsign, toList_render]
  exact Number.ofDigits?_toDigits (by decide) (by decide) v

end Decimal
end FaultPlan
