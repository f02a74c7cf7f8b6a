/-
  Which texts are hexadecimal numbers, and which of them is the written one.

  A number is spelled by digits of either case, one at least, behind a mark or not and with blanks around
  or not; it is worth what its digits are worth by position (`Hex.Spells`).  Reading accepts exactly the
  spellings of numbers that 64 bits can hold (`Hex.parse_eq_some_iff`): leading zeros make a spelling longer
  and its value no larger.

  Of the spellings of a number one is written (`Hex.IsWritten`): behind `0x`, in lowercase and without a
  leading zero.  There is no second one, because the digits before the last are again without a leading
  zero (`toDigits_of_valueFrom`).
-/
import Mathlib.Data.List.Forall2
import Mathlib.Data.List.Induction
import Mathlib.Data.List.TakeWhile
import Mathlib.Data.Nat.Digits.Defs
import FaultPlan.Proofs.Number.Numerals
import FaultPlan.Proofs.Number.RoundTrip

namespace FaultPlan

/-! ## Blanks around a text -/

namespace Text

theorem exists_trimChars_eq (cs : List Char) :
    ∃ front back : List Char, cs = front ++ trimChars cs ++ back ∧
      (∀ c ∈ front, isBlank c = true) ∧ ∀ c ∈ back, isBlank c = true := by
  let kept := trimStart cs
  refine ⟨cs.takeWhile isBlank, (kept.reverse.takeWhile isBlank).reverse, ?_, ?_, ?_⟩
  · have hback : trimChars cs ++ (kept.reverse.takeWhile isBlank).reverse = kept := by
      rw [trimChars, trimEnd, ← List.reverse_append, List.takeWhile_append_dropWhile,
        List.reverse_reverse]
    rw [List.append_assoc, hback]
    exact (List.takeWhile_append_dropWhile).symm
  · exact fun c hc => List.mem_takeWhile_imp hc
  · exact fun c hc => List.mem_takeWhile_imp (List.mem_reverse.1 hc)

/-- Blanks around a text that holds none are dropped, and nothing else is. -/
theorem trimChars_surrounded {front text back : List Char} (hne : text ≠ [])
    (hfront : ∀ c ∈ front, isBlank c = true) (htext : ∀ c ∈ text, isBlank c = false)
    (hback : ∀ c ∈ back, isBlank c = true) : trimChars (front ++ text ++ back) = text := by
  have hstart : trimStart (front ++ text ++ back) = text ++ back := by
    rw [trimStart, List.append_assoc, List.dropWhile_append_of_pos hfront]
    obtain ⟨c, rest, rfl⟩ := List.exists_cons_of_ne_nil hne
    exact List.dropWhile_cons_of_neg (by simp [htext c List.mem_cons_self])
  have hreverse : (text ++ back).reverse.dropWhile isBlank = text.reverse := by
    rw [List.reverse_append, List.dropWhile_append_of_pos fun c hc => hback c (List.mem_reverse.1 hc)]
    obtain ⟨c, rest, hlast⟩ := List.exists_cons_of_ne_nil (List.reverse_ne_nil_iff.2 hne)
    have hc : c ∈ text := List.mem_reverse.1 (hlast ▸ List.mem_cons_self)
    rw [hlast]
    exact List.dropWhile_cons_of_neg (by simp [htext c hc])
  rw [trimChars, hstart, trimEnd, hreverse, List.reverse_reverse]

end Text

/-! ## Digits -/

namespace Hex

/-- The digits, each at the place of its value. -/
def lowercase : List Char := "0123456789abcdef".toList

def uppercase : List Char := "0123456789ABCDEF".toList

/-- The character is a digit of either case and is worth so much. -/
def IsDigit (c : Char) (d : Nat) : Prop := lowercase[d]? = some c ∨ uppercase[d]? = some c

theorem IsDigit.lt {c : Char} {d : Nat} (h : IsDigit c d) : d < 16 := by
  rcases h with h | h
  · exact (List.getElem?_eq_some_iff.1 h).1
  · exact (List.getElem?_eq_some_iff.1 h).1

theorem digit?_eq_some_iff {c : Char} {d : Nat} : Number.digit? c = some d ↔ IsDigit c d := by
  constructor
  · intro h
    have hall : ∀ n : Fin 128, ∀ e ∈ Number.digit? (Char.ofNat n.val),
        lowercase[e]? = some (Char.ofNat n.val) ∨ uppercase[e]? = some (Char.ofNat n.val) := by decide
    have hascii : c.toNat < 128 := by
      unfold Number.digit? at h
      split at h
      · next hc => exact Nat.lt_of_le_of_lt (show c.toNat ≤ 57 from hc.2) (by decide)
      · split at h
        · next hc => exact Nat.lt_of_le_of_lt (show c.toNat ≤ 102 from hc.2) (by decide)
        · split at h
          · next hc => exact Nat.lt_of_le_of_lt (show c.toNat ≤ 70 from hc.2) (by decide)
          · nomatch h
    have hc := hall ⟨c.toNat, hascii⟩
    simp only [Char.ofNat_toNat] at hc
    exact hc d h
  · intro h
    have hlower : ∀ e < 16, lowercase[e]?.bind Number.digit? = some e := by decide
    have hupper : ∀ e < 16, uppercase[e]?.bind Number.digit? = some e := by decide
    rcases h with hc | hc
    · have hd := hlower d (IsDigit.lt (Or.inl hc))
      rwa [hc] at hd
    · have hd := hupper d (IsDigit.lt (Or.inr hc))
      rwa [hc] at hd

theorem IsDigit.isBlank {c : Char} {d : Nat} (h : IsDigit c d) : Text.isBlank c = false := by
  have hlower : ∀ e < 16, lowercase[e]?.map Text.isBlank = some false := by decide
  have hupper : ∀ e < 16, uppercase[e]?.map Text.isBlank = some false := by decide
  rcases h with hc | hc
  · have hblank := hlower d (IsDigit.lt (Or.inl hc))
    rw [hc] at hblank
    exact Option.some.inj hblank
  · have hblank := hupper d (IsDigit.lt (Or.inr hc))
    rw [hc] at hblank
    exact Option.some.inj hblank

/-- What the digits are worth by position, the first digit being the highest. -/
def worth (values : List Nat) : Nat := Nat.ofDigits 16 values.reverse

theorem worth_eq_foldl (values : List Nat) :
    worth values = values.foldl (fun acc d => 16 * acc + d) 0 := by
  rw [worth, Nat.ofDigits_eq_foldr, List.foldr_reverse]
  simp only [Nat.cast_id, Nat.add_comm]

theorem valueFrom_eq_some_iff {cs : List Char} {acc n : Nat} :
    Number.valueFrom 16 acc cs = some n ↔
      ∃ values, List.Forall₂ IsDigit cs values ∧
        values.foldl (fun acc d => 16 * acc + d) acc = n := by
  induction cs generalizing acc with
  | nil => simp [Number.valueFrom]
  | cons c cs ih =>
    rw [Number.valueFrom]
    constructor
    · intro h
      split at h
      · next d hd =>
        split at h
        · obtain ⟨values, hvalues, hn⟩ := ih.1 h
          exact ⟨d :: values, .cons (digit?_eq_some_iff.1 hd) hvalues, hn⟩
        · cases h
      · cases h
    · rintro ⟨values, hvalues, hn⟩
      cases hvalues with
      | @cons _ d _ values hd hvalues =>
        rw [digit?_eq_some_iff.2 hd]
        dsimp only
        rw [if_pos hd.lt]
        exact ih.2 ⟨values, hvalues, hn⟩

/-! ## Reading -/

/-- The text spells the number: one digit or more, behind a mark or not, between blanks or not. -/
def Spells (s : String) (n : Nat) : Prop :=
  ∃ (front mark digits back : List Char) (values : List Nat),
    s.toList = front ++ (mark ++ digits) ++ back ∧
    (∀ c ∈ front, Text.isBlank c = true) ∧ (∀ c ∈ back, Text.isBlank c = true) ∧
    (mark = [] ∨ mark = ['0', 'x'] ∨ mark = ['0', 'X']) ∧
    digits ≠ [] ∧ List.Forall₂ IsDigit digits values ∧ worth values = n

/-- The digits hold no mark, so that only the mark in front of them is dropped. -/
theorem unmark_append {mark digits : List Char} {values : List Nat}
    (hmark : mark = [] ∨ mark = ['0', 'x'] ∨ mark = ['0', 'X'])
    (h : List.Forall₂ IsDigit digits values) : unmark (mark ++ digits) = digits := by
  rcases hmark with rfl | rfl | rfl
  · rw [List.nil_append]
    unfold unmark
    split
    · cases h with
      | cons _ h => cases h with
        | cons hx _ => nomatch (digit?_eq_some_iff.2 hx : Number.digit? 'x' = _)
    · cases h with
      | cons _ h => cases h with
        | cons hx _ => nomatch (digit?_eq_some_iff.2 hx : Number.digit? 'X' = _)
    · rfl
  · rfl
  · rfl

theorem isBlank_of_digits {digits : List Char} {values : List Nat}
    (h : List.Forall₂ IsDigit digits values) : ∀ c ∈ digits, Text.isBlank c = false := by
  induction h with
  | nil => nofun
  | cons hd _ ih => exact List.forall_mem_cons.2 ⟨hd.isBlank, ih⟩

theorem exists_mark (cs : List Char) :
    ∃ mark, (mark = [] ∨ mark = ['0', 'x'] ∨ mark = ['0', 'X']) ∧ cs = mark ++ unmark cs := by
  unfold unmark
  split
  · exact ⟨['0', 'x'], Or.inr (Or.inl rfl), rfl⟩
  · exact ⟨['0', 'X'], Or.inr (Or.inr rfl), rfl⟩
  · exact ⟨[], Or.inl rfl, rfl⟩

/-- The text spells a number if what is left of it, without blanks and mark, is digits. -/
theorem spells_iff {s : String} {n : Nat} :
    Spells s n ↔ unmark (Text.trimChars s.toList) ≠ [] ∧
      Number.valueFrom 16 0 (unmark (Text.trimChars s.toList)) = some n := by
  constructor
  · rintro ⟨front, mark, digits, back, values, hs, hfront, hback, hmark, hne, hvalues, hn⟩
    have hblank : ∀ c ∈ mark ++ digits, Text.isBlank c = false := by
      intro c hc
      rcases List.mem_append.1 hc with hc | hc
      · have hall : (mark.all (! Text.isBlank ·)) = true := by
          rcases hmark with rfl | rfl | rfl <;> decide
        simpa using List.all_eq_true.1 hall c hc
      · exact isBlank_of_digits hvalues c hc
    have hne' : mark ++ digits ≠ [] := fun h => hne (List.append_eq_nil_iff.1 h).2
    rw [hs, Text.trimChars_surrounded hne' hfront hblank hback, unmark_append hmark hvalues]
    refine ⟨hne, valueFrom_eq_some_iff.2 ⟨values, hvalues, ?_⟩⟩
    rw [← worth_eq_foldl, hn]
  · rintro ⟨hne, hvalue⟩
    obtain ⟨front, back, hs, hfront, hback⟩ := Text.exists_trimChars_eq s.toList
    obtain ⟨mark, hmark, hcs⟩ := exists_mark (Text.trimChars s.toList)
    obtain ⟨values, hvalues, hn⟩ := valueFrom_eq_some_iff.1 hvalue
    refine ⟨front, mark, _, back, values, ?_, hfront, hback, hmark, hne, hvalues, ?_⟩
    · rw [← hcs]
      exact hs
    · rw [worth_eq_foldl, hn]

theorem parse_eq_some_iff {s : String} {v : UInt64} : parse s = some v ↔ Spells s v.toNat := by
  rw [parse, Number.ofDigits?_eq_some_iff, spells_iff]

theorem parse_eq_none_iff {s : String} :
    parse s = none ↔ ¬ ∃ n, n < UInt64.size ∧ Spells s n := by
  rw [Option.eq_none_iff_forall_ne_some]
  constructor
  · rintro h ⟨n, hn, hspells⟩
    refine h (UInt64.ofNatLT n hn) (parse_eq_some_iff.2 ?_)
    rwa [UInt64.toNat_ofNatLT]
  · intro h v hv
    exact h ⟨v.toNat, v.toNat_lt_size, parse_eq_some_iff.1 hv⟩

/-! ## Writing -/

/-- Digits in lowercase, one at least, that do not begin with a zero unless they are one. -/
def IsCanonical (digits : List Char) : Prop :=
  digits ≠ [] ∧ (∀ c ∈ digits, c ∈ lowercase) ∧ (digits.head? = some '0' → digits = ['0'])

theorem exists_digitChar_of_mem_lowercase {c : Char} (h : c ∈ lowercase) :
    ∃ d, d < 16 ∧ c = Nat.digitChar d := by
  obtain ⟨d, hd, hc⟩ := List.mem_iff_getElem.1 h
  have hall : ∀ e : Fin 16, lowercase[e.val]? = some (Nat.digitChar e.val) := by decide
  have hlt : d < 16 := hd
  refine ⟨d, hlt, ?_⟩
  rw [← hc, ← Option.some.injEq, ← List.getElem?_eq_getElem hd]
  exact hall ⟨d, hlt⟩

/-- Canonical digits are the ones that are written for their value. -/
theorem toDigits_of_valueFrom {digits : List Char} {n : Nat} (h : IsCanonical digits)
    (hn : Number.valueFrom 16 0 digits = some n) : Nat.toDigits 16 n = digits := by
  induction digits using List.reverseRecOn generalizing n with
  | nil => exact absurd rfl h.1
  | append_singleton init c ih =>
    obtain ⟨-, hlower, hzero⟩ := h
    obtain ⟨d, hd, rfl⟩ := exists_digitChar_of_mem_lowercase (hlower c (by simp))
    rw [Number.valueFrom_append, Option.bind_eq_some_iff] at hn
    obtain ⟨m, hm, hlast⟩ := hn
    have hvalue : 16 * m + d = n := by
      rw [Number.valueFrom, Number.digit?_digitChar hd] at hlast
      simpa [hd, Number.valueFrom] using hlast
    rw [← hvalue]
    cases init with
    | nil =>
      obtain rfl : 0 = m := by simpa [Number.valueFrom] using hm
      rw [Nat.mul_zero, Nat.zero_add, Nat.toDigits_of_lt_base hd, List.nil_append]
    | cons first rest =>
      have hfirst : first ≠ '0' := by
        rintro rfl
        have hrest : rest ++ [Nat.digitChar d] = [] := (List.cons.inj (hzero rfl)).2
        exact absurd hrest (by simp)
      have hinit : IsCanonical (first :: rest) :=
        ⟨List.cons_ne_nil _ _, fun x hx => hlower x (List.mem_append_left _ hx),
          fun hhead => absurd (Option.some.inj hhead) hfirst⟩
      have hwritten := ih hinit hm
      -- the digits before the last are no zero, so that they are written out
      have hpos : 0 < m := by
        refine Nat.pos_of_ne_zero fun hm0 => hfirst ?_
        rw [hm0, Nat.toDigits_zero] at hwritten
        exact (List.cons.inj hwritten).1.symm
      rw [← Nat.toDigits_append_toDigits (by decide) hpos hd, hwritten, Nat.toDigits_of_lt_base hd]

theorem isCanonical_toDigits (n : Nat) : IsCanonical (Nat.toDigits 16 n) := by
  refine ⟨Nat.toDigits_ne_nil, fun c hc => ?_, ?_⟩
  · obtain ⟨d, hd, rfl⟩ := Number.exists_digitChar_of_mem_toDigits (by decide) n hc
    have hall : ∀ e : Fin 16, Nat.digitChar e.val ∈ lowercase := by decide
    exact hall ⟨d, hd⟩
  · induction n using Nat.strongRecOn with
    | _ n ih =>
      rw [Nat.toDigits_eq_if (by decide)]
      split
      · next hn =>
        have hall : ∀ e : Fin 16, [Nat.digitChar e.val].head? = some '0' →
            [Nat.digitChar e.val] = ['0'] := by decide
        exact hall ⟨n, hn⟩
      · next hn =>
        intro hhead
        rw [List.head?_append_of_ne_nil _ Nat.toDigits_ne_nil] at hhead
        have hzero := ih (n / 16) (Nat.div_lt_self (by omega) (by decide)) hhead
        have hvalue := Number.valueFrom_toDigits (b := 16) (by decide) (by decide) (n / 16)
        rw [hzero] at hvalue
        have hdiv : 0 = n / 16 := by simpa [Number.valueFrom, Number.digit?] using hvalue
        omega

/-- The shape of a written number. -/
def IsWritten (s : String) : Prop :=
  ∃ digits, s.toList = '0' :: 'x' :: digits ∧ IsCanonical digits

theorem isWritten_render (v : UInt64) : IsWritten (render v) :=
  ⟨_, toList_render v, isCanonical_toDigits v.toNat⟩

theorem eq_render_of_isWritten {s : String} {v : UInt64} (h : IsWritten s) (hv : parse s = some v) :
    s = render v := by
  obtain ⟨digits, hs, hdigits⟩ := h
  have hblank : ∀ c ∈ s.toList, Text.isBlank c = false := by
    rw [hs]
    refine List.forall_mem_cons.2 ⟨by decide, List.forall_mem_cons.2 ⟨by decide, fun c hc => ?_⟩⟩
    have hall : lowercase.all (! Text.isBlank ·) = true := by decide
    simpa using List.all_eq_true.1 hall c (hdigits.2.1 c hc)
  rw [parse, Number.ofDigits?_eq_some_iff, Text.trimChars_eq_self hblank, hs, unmark] at hv
  rw [← String.toList_inj, hs, toList_render, toDigits_of_valueFrom hdigits hv.2]

/-- **Hexadecimal numbers are an exact codec** for 64 bits.  What is read are the spellings of the numbers
    below 2^64, and nothing else is read; and of the spellings of a number one has the shape of a written
    number, the one that is written. -/
theorem codec_exact (s : String) (v : UInt64) :
    (parse s = some v ↔ Spells s v.toNat) ∧
    (parse s = none ↔ ¬ ∃ n, n < UInt64.size ∧ Spells s n) ∧
    (IsWritten (render v) ∧ parse (render v) = some v) ∧
    (IsWritten s ∧ parse s = some v ↔ s = render v) := by
  refine ⟨parse_eq_some_iff, parse_eq_none_iff, ⟨isWritten_render v, parse_render v⟩, ?_⟩
  constructor
  · rintro ⟨hwritten, hv⟩
    exact eq_render_of_isWritten hwritten hv
  · rintro rfl
    exact ⟨isWritten_render v, parse_render v⟩

end Hex
end FaultPlan
