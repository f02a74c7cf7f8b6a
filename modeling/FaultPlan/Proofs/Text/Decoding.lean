/-
  What is spelled is read back.

  The decoder reads the bytes of a character in front of any others as this character
  (`decodeUnits_encodeChar`): the bytes after the first lie within the bounds that the first sets, and
  six bits of each make up the code point again.  So the bytes of a text give the text, strictly and
  leniently (`decode?_encode`, `decodeLossy_encode`), and only the bytes of a text are accepted
  (`decode?_eq_some_iff`).  A byte that is an ASCII character is never part of another: what is read
  splits in front of it (`decodeLossy_append_ascii`), and cutting the bytes of a text at such a byte is
  cutting the text (`pieces_encode`).
-/
import FaultPlan.Files.Path
import FaultPlan.Proofs.Text.ByteOrder
import FaultPlan.Proofs.Text.Words
import Mathlib.Tactic.SplitIfs

namespace FaultPlan
namespace Utf8

/-! ## One character -/

theorem decodeUnits_cons (s : Pending) (b : UInt8) (rest : Bytes) :
    decodeUnits s (b :: rest) = (step s b).1 ++ decodeUnits (step s b).2 rest := by
  cases s <;> rfl

section

variable {more value n : Nat} {low high : UInt8} {rest : Bytes}

/-- The last byte of a character. -/
theorem decodeUnits_last (hn : n < 256) (hlow : low.toNat ≤ n) (hhigh : n ≤ high.toNat) :
    decodeUnits (.some 0 low high value) (UInt8.ofNat n :: rest) =
      some (Char.ofNat (value * 64 + (n - 0x80))) :: decodeUnits .none rest := by
  have hbyte : (UInt8.ofNat n).toNat = n := by rw [UInt8.toNat_ofNat', Nat.mod_eq_of_lt hn]
  have hbounds : (low ≤ UInt8.ofNat n && UInt8.ofNat n ≤ high) = true := by
    simp [UInt8.le_iff_toNat_le, hbyte, hlow, hhigh]
  rw [decodeUnits, step, if_pos hbounds, hbyte]
  rfl

/-- A byte inside a character. -/
theorem decodeUnits_inner (hn : n < 256) (hlow : low.toNat ≤ n) (hhigh : n ≤ high.toNat) :
    decodeUnits (.some (more + 1) low high value) (UInt8.ofNat n :: rest) =
      decodeUnits (.some more 0x80 0xBF (value * 64 + (n - 0x80))) rest := by
  have hbyte : (UInt8.ofNat n).toNat = n := by rw [UInt8.toNat_ofNat', Nat.mod_eq_of_lt hn]
  have hbounds : (low ≤ UInt8.ofNat n && UInt8.ofNat n ≤ high) = true := by
    simp [UInt8.le_iff_toNat_le, hbyte, hlow, hhigh]
  rw [decodeUnits, step, if_pos hbounds, hbyte]
  rfl

/-- The first byte of a character. -/
theorem decodeUnits_first {b : UInt8} {state : Pending} (hbegin : begin b = ([], state)) :
    decodeUnits .none (b :: rest) = decodeUnits state rest := by
  rw [decodeUnits, step, hbegin]
  rfl

end

theorem ofNat_toNat_eq (c : Char) {n : Nat} (h : n = c.toNat) : Char.ofNat n = c := by
  rw [h, Char.ofNat_toNat]

/-- A code point is no surrogate and at most U+10FFFF. -/
theorem toNat_bounds (c : Char) : c.toNat < 0xD800 ∨ 0xDFFF < c.toNat ∧ c.toNat < 0x110000 := by
  have h := c.valid
  simp only [UInt32.isValidChar, Nat.isValidChar] at h
  exact h

/-- What a byte begins, by the number that it is. -/
theorem begin_ofNat {n : Nat} (hn : n < 256) : begin (UInt8.ofNat n) =
    if n < 0x80 then ([some (Char.ofNat n)], .none)
    else if n < 0xC2 then ([none], .none)
    else if n < 0xE0 then ([], .some 0 0x80 0xBF (n - 0xC0))
    else if n < 0xF0 then
      ([], .some 1 (if n = 0xE0 then 0xA0 else 0x80) (if n = 0xED then 0x9F else 0xBF) (n - 0xE0))
    else if n < 0xF5 then
      ([], .some 2 (if n = 0xF0 then 0x90 else 0x80) (if n = 0xF4 then 0x8F else 0xBF) (n - 0xF0))
    else ([none], .none) := by
  have hbyte : (UInt8.ofNat n).toNat = n := by rw [UInt8.toNat_ofNat', Nat.mod_eq_of_lt hn]
  unfold begin
  dsimp only
  rw [hbyte]
  simp only [Bool.and_eq_true, decide_eq_true_eq, beq_iff_eq]
  -- range by range; what begins with a bound of its own on the next byte is a case by itself
  rcases Nat.lt_or_ge n 0x80 with hascii | hascii
  · rw [if_pos hascii, if_pos hascii]
  rcases Nat.lt_or_ge n 0xC2 with hnone | hnone
  · simp (disch := omega) only [if_pos, if_neg]
  rcases Nat.lt_or_ge n 0xE0 with htwo | htwo
  · simp (disch := omega) only [if_pos, if_neg]
  rcases Nat.lt_or_ge n 0xF0 with hthree | hthree
  · by_cases hlow : n = 0xE0
    · subst hlow
      rfl
    by_cases hhigh : n = 0xED
    · subst hhigh
      rfl
    simp (disch := omega) only [if_pos, if_neg]
  rcases Nat.lt_or_ge n 0xF5 with hfour | hfour
  · by_cases hlow : n = 0xF0
    · subst hlow
      rfl
    by_cases hhigh : n = 0xF4
    · subst hhigh
      rfl
    simp (disch := omega) only [if_pos, if_neg]
  · simp (disch := omega) only [if_pos, if_neg]

/-- **The bytes of a character** are read as the character, whatever follows them. -/
theorem decodeUnits_encodeChar (c : Char) (rest : Bytes) :
    decodeUnits .none (String.utf8EncodeChar c ++ rest) = some c :: decodeUnits .none rest := by
  have hbounds := toNat_bounds c
  rw [encodeChar_eq, pointBytes]
  split_ifs with h1 h2 h3
  · -- one byte
    rw [continuation, List.singleton_append, decodeUnits, step, begin_ofNat (by omega),
      if_pos (by omega), Char.ofNat_toNat]
    rfl
  · rw [continuation, continuation, List.nil_append, List.cons_append, List.singleton_append,
      decodeUnits_first (by rw [begin_ofNat (by omega), if_neg (by omega), if_neg (by omega),
        if_pos (by omega)])]
    rw [decodeUnits_last (by omega) (by simp) (by simp; omega)]
    rw [ofNat_toNat_eq c (by omega)]
  · simp only [continuation, List.nil_append, List.cons_append]
    rw [decodeUnits_first (by rw [begin_ofNat (by omega), if_neg (by omega), if_neg (by omega),
        if_neg (by omega), if_pos (by omega)])]
    -- the second byte tells an over-long form or a surrogate
    rw [decodeUnits_inner (by omega) (by split_ifs <;> simp; omega)
      (by split_ifs <;> simp <;> omega)]
    rw [decodeUnits_last (by omega) (by simp) (by simp; omega), ofNat_toNat_eq c (by omega)]
  · simp only [continuation, List.nil_append, List.cons_append]
    rw [decodeUnits_first (by rw [begin_ofNat (by omega), if_neg (by omega), if_neg (by omega),
        if_neg (by omega), if_neg (by omega), if_pos (by omega)])]
    rw [decodeUnits_inner (by omega) (by split_ifs <;> simp; omega)
      (by split_ifs <;> simp <;> omega)]
    rw [decodeUnits_inner (by omega) (by simp) (by simp; omega)]
    rw [decodeUnits_last (by omega) (by simp) (by simp; omega), ofNat_toNat_eq c (by omega)]

/-! ## Texts -/

theorem mapM_id_eq_some_iff {α : Type} {us : List (Option α)} {cs : List α} :
    us.mapM id = some cs ↔ us = cs.map some := by
  induction us generalizing cs with
  | nil => cases cs <;> simp
  | cons u us ih =>
    rw [List.mapM_cons]
    cases u with
    | none => cases cs <;> simp
    | some c =>
      cases hrest : us.mapM id with
      | none =>
        have hnot : ∀ cs' : List α, us ≠ cs'.map some := fun cs' h => by
          rw [ih.2 h] at hrest
          cases hrest
        cases cs <;> simp [hnot]
      | some cs' =>
        have hus := ih.1 hrest
        cases cs with
        | nil => simp
        | cons c' cs =>
          have hinj : (cs'.map some = cs.map some) ↔ cs' = cs :=
            (List.map_inj_right fun _ _ h => Option.some.inj h)
          simp [hus, hinj]

/-- The bytes of characters are read as these characters, whatever follows them. -/
theorem decodeUnits_encodeChars (cs : List Char) (rest : Bytes) :
    decodeUnits .none (cs.flatMap String.utf8EncodeChar ++ rest) =
      cs.map some ++ decodeUnits .none rest := by
  induction cs with
  | nil => rfl
  | cons c cs ih => rw [List.flatMap_cons, List.append_assoc, decodeUnits_encodeChar, ih]; rfl

theorem decodeUnits_encode (s : String) : decodeUnits .none (encode s) = s.toList.map some := by
  have h := decodeUnits_encodeChars s.toList []
  rwa [List.append_nil, decodeUnits, List.append_nil] at h

/-- **The bytes of a text** are read as the text. -/
@[simp] theorem decode?_encode (s : String) : decode? (encode s) = some s := by
  rw [decode?, decodeUnits_encode, mapM_id_eq_some_iff.2 rfl, Option.map_some, String.ofList_toList]

@[simp] theorem decodeLossy_encode (s : String) : decodeLossy (encode s) = s := by
  rw [decodeLossy, decodeUnits_encode, List.map_map]
  simp [Function.comp_def]

theorem encode_inj {s s' : String} : encode s = encode s' ↔ s = s' := by
  refine ⟨fun h => ?_, fun h => congrArg encode h⟩
  have := congrArg decodeLossy h
  rwa [decodeLossy_encode, decodeLossy_encode] at this

theorem encode_append (s s' : String) : encode (s ++ s') = encode s ++ encode s' := by
  rw [encode, String.toList_append, List.flatMap_append]
  rfl

/-! ## Bytes that are accepted -/

section

variable {value : Nat} {low high : UInt8} {bytes : Bytes} {cs : List Char}

theorem exists_last_of_decodeUnits (h : decodeUnits (.some 0 low high value) bytes = cs.map some) :
    ∃ n rest cs', n < 256 ∧ low.toNat ≤ n ∧ n ≤ high.toNat ∧ bytes = UInt8.ofNat n :: rest ∧
      cs = Char.ofNat (value * 64 + (n - 0x80)) :: cs' ∧ decodeUnits .none rest = cs'.map some := by
  cases bytes with
  | nil => cases cs <;> simp [decodeUnits] at h
  | cons b rest =>
    rw [decodeUnits, step] at h
    split at h
    · next hb =>
      simp only [Bool.and_eq_true, decide_eq_true_eq, UInt8.le_iff_toNat_le] at hb
      cases cs with
      | nil => simp at h
      | cons c cs =>
        simp only [List.cons_append, List.nil_append, List.map_cons, List.cons.injEq] at h
        obtain ⟨hc, hrest⟩ := h
        exact ⟨b.toNat, rest, cs, b.toNat_lt, hb.1, hb.2, by simp, by rw [← Option.some.inj hc], hrest⟩
    · cases cs <;> simp at h

theorem exists_inner_of_decodeUnits {more : Nat}
    (h : decodeUnits (.some (more + 1) low high value) bytes = cs.map some) :
    ∃ n rest, n < 256 ∧ low.toNat ≤ n ∧ n ≤ high.toNat ∧ bytes = UInt8.ofNat n :: rest ∧
      decodeUnits (.some more 0x80 0xBF (value * 64 + (n - 0x80))) rest = cs.map some := by
  cases bytes with
  | nil => cases cs <;> simp [decodeUnits] at h
  | cons b rest =>
    rw [decodeUnits, step] at h
    split at h
    · next hb =>
      simp only [Bool.and_eq_true, decide_eq_true_eq, UInt8.le_iff_toNat_le] at hb
      exact ⟨b.toNat, rest, b.toNat_lt, hb.1, hb.2, by simp, h⟩
    · cases cs <;> simp at h

end

theorem toNat_ofNat_of_valid {v : Nat} (h : v < 0xD800 ∨ 0xDFFF < v ∧ v < 0x110000) :
    (Char.ofNat v).toNat = v := by
  have hvalid : v.isValidChar := h
  rw [Char.ofNat, dif_pos hvalid]
  rfl

/-- Three bytes in their bounds make a code point that needs three: the bounds of the second keep
    over-long forms and surrogates out. -/
theorem bounds_of_three {n m k : Nat} (hn : ¬ n < 0xE0 ∧ n < 0xF0)
    (hm : (if n = 0xE0 then 0xA0 else 0x80) ≤ m ∧ m ≤ if n = 0xED then 0x9F else 0xBF)
    (hk : 0x80 ≤ k ∧ k ≤ 0xBF) :
    (0x80 ≤ m ∧ m ≤ 0xBF) ∧ 0x800 ≤ ((n - 0xE0) * 64 + (m - 0x80)) * 64 + (k - 0x80) ∧
      ((n - 0xE0) * 64 + (m - 0x80)) * 64 + (k - 0x80) < 0x10000 ∧
      (((n - 0xE0) * 64 + (m - 0x80)) * 64 + (k - 0x80) < 0xD800 ∨
        0xDFFF < ((n - 0xE0) * 64 + (m - 0x80)) * 64 + (k - 0x80)) := by
  split_ifs at hm <;> omega

/-- Four bytes in their bounds make a code point that needs four. -/
theorem bounds_of_four {n m k l : Nat} (hn : ¬ n < 0xF0 ∧ n < 0xF5)
    (hm : (if n = 0xF0 then 0x90 else 0x80) ≤ m ∧ m ≤ if n = 0xF4 then 0x8F else 0xBF)
    (hk : 0x80 ≤ k ∧ k ≤ 0xBF) (hl : 0x80 ≤ l ∧ l ≤ 0xBF) :
    (0x80 ≤ m ∧ m ≤ 0xBF) ∧
      0x10000 ≤ (((n - 0xF0) * 64 + (m - 0x80)) * 64 + (k - 0x80)) * 64 + (l - 0x80) ∧
      (((n - 0xF0) * 64 + (m - 0x80)) * 64 + (k - 0x80)) * 64 + (l - 0x80) < 0x110000 := by
  split_ifs at hm <;> omega

/-- A character is read first, and its bytes stand in front. -/
def ReadsFirst (bytes : Bytes) (cs : List Char) : Prop :=
  ∃ c cs' rest, cs = c :: cs' ∧ bytes = String.utf8EncodeChar c ++ rest ∧
    decodeUnits .none rest = cs'.map some

section

variable {n : Nat} {bytes : Bytes} {cs : List Char}

theorem readsFirst_of_one (hn : n < 0x80)
    (h : decodeUnits .none (UInt8.ofNat n :: bytes) = cs.map some) :
    ReadsFirst (UInt8.ofNat n :: bytes) cs := by
  have hbegin := begin_ofNat (n := n) (by omega)
  rw [if_pos hn] at hbegin
  rw [decodeUnits, step, hbegin] at h
  cases cs with
  | nil => simp at h
  | cons c cs =>
    simp only [List.cons_append, List.nil_append, List.map_cons, List.cons.injEq] at h
    obtain ⟨hc, hrest⟩ := h
    obtain rfl := Option.some.inj hc
    refine ⟨_, cs, bytes, rfl, ?_, hrest⟩
    rw [encodeChar_eq, toNat_ofNat_of_valid (by omega), pointBytes, if_pos (by omega)]
    rfl

theorem readsFirst_of_two (hn : ¬ n < 0xC2 ∧ n < 0xE0)
    (h : decodeUnits .none (UInt8.ofNat n :: bytes) = cs.map some) :
    ReadsFirst (UInt8.ofNat n :: bytes) cs := by
  have hbegin := begin_ofNat (n := n) (by omega)
  rw [if_neg (by omega), if_neg hn.1, if_pos hn.2] at hbegin
  rw [decodeUnits_first hbegin] at h
  obtain ⟨m, rest, cs', hm, hlow, hhigh, rfl, rfl, hrest⟩ := exists_last_of_decodeUnits h
  simp only [UInt8.reduceToNat] at hlow hhigh
  refine ⟨_, cs', rest, rfl, ?_, hrest⟩
  rw [encodeChar_eq, toNat_ofNat_of_valid (by omega), pointBytes, if_neg (by omega),
    if_pos (by omega)]
  simp only [continuation, List.nil_append, List.cons_append, List.cons.injEq, and_true]
  exact ⟨congrArg _ (by omega), congrArg _ (by omega)⟩

theorem readsFirst_of_three (hn : ¬ n < 0xE0 ∧ n < 0xF0)
    (h : decodeUnits .none (UInt8.ofNat n :: bytes) = cs.map some) :
    ReadsFirst (UInt8.ofNat n :: bytes) cs := by
  have hbegin := begin_ofNat (n := n) (by omega)
  rw [if_neg (by omega), if_neg (by omega), if_neg hn.1, if_pos hn.2] at hbegin
  rw [decodeUnits_first hbegin] at h
  obtain ⟨m, rest, hm, hlow, hhigh, rfl, h'⟩ := exists_inner_of_decodeUnits h
  obtain ⟨k, rest, cs', hk, hlow', hhigh', rfl, rfl, hrest⟩ := exists_last_of_decodeUnits h'
  simp only [UInt8.reduceToNat] at hlow' hhigh'
  have hsecond : (if n = 0xE0 then 0xA0 else 0x80) ≤ m ∧ m ≤ if n = 0xED then 0x9F else 0xBF := by
    split_ifs at hlow hhigh ⊢ <;> simp only [UInt8.reduceToNat] at hlow hhigh <;>
      exact ⟨hlow, hhigh⟩
  obtain ⟨hcontinues, hmany, hfew, hvalid⟩ := bounds_of_three hn hsecond ⟨hlow', hhigh'⟩
  clear hlow hhigh hbegin hsecond
  refine ⟨_, cs', rest, rfl, ?_, hrest⟩
  rw [encodeChar_eq, toNat_ofNat_of_valid (by omega), pointBytes, if_neg (by omega),
    if_neg (by omega), if_pos (by omega)]
  clear hmany hfew hvalid
  simp only [continuation, List.nil_append, List.cons_append, List.cons.injEq, and_true]
  exact ⟨congrArg _ (by omega), congrArg _ (by omega), congrArg _ (by omega)⟩

theorem readsFirst_of_four (hn : ¬ n < 0xF0 ∧ n < 0xF5)
    (h : decodeUnits .none (UInt8.ofNat n :: bytes) = cs.map some) :
    ReadsFirst (UInt8.ofNat n :: bytes) cs := by
  have hbegin := begin_ofNat (n := n) (by omega)
  rw [if_neg (by omega), if_neg (by omega), if_neg (by omega), if_neg hn.1, if_pos hn.2] at hbegin
  rw [decodeUnits_first hbegin] at h
  obtain ⟨m, rest, hm, hlow, hhigh, rfl, h'⟩ := exists_inner_of_decodeUnits h
  obtain ⟨k, rest, hk, hlow', hhigh', rfl, h''⟩ := exists_inner_of_decodeUnits h'
  obtain ⟨l, rest, cs', hl, hlow'', hhigh'', rfl, rfl, hrest⟩ := exists_last_of_decodeUnits h''
  simp only [UInt8.reduceToNat] at hlow' hhigh' hlow'' hhigh''
  have hsecond : (if n = 0xF0 then 0x90 else 0x80) ≤ m ∧ m ≤ if n = 0xF4 then 0x8F else 0xBF := by
    split_ifs at hlow hhigh ⊢ <;> simp only [UInt8.reduceToNat] at hlow hhigh <;>
      exact ⟨hlow, hhigh⟩
  obtain ⟨hcontinues, hmany, hvalid⟩ :=
    bounds_of_four hn hsecond ⟨hlow', hhigh'⟩ ⟨hlow'', hhigh''⟩
  clear hlow hhigh hbegin hsecond
  refine ⟨_, cs', rest, rfl, ?_, hrest⟩
  rw [encodeChar_eq, toNat_ofNat_of_valid (by omega), pointBytes, if_neg (by omega),
    if_neg (by omega), if_neg (by omega)]
  clear hmany hvalid
  simp only [continuation, List.nil_append, List.cons_append, List.cons.injEq, and_true]
  exact ⟨congrArg _ (by omega), congrArg _ (by omega), congrArg _ (by omega),
    congrArg _ (by omega)⟩

/-- A byte that can begin no character is ill-formed. -/
theorem decodeUnits_ne_of_none (hn : ¬ n < 0x80 ∧ (n < 0xC2 ∨ ¬ n < 0xF5)) (hbyte : n < 256) :
    decodeUnits .none (UInt8.ofNat n :: bytes) ≠ cs.map some := by
  intro h
  have hnone : begin (UInt8.ofNat n) = ([none], .none) := by
    rw [begin_ofNat hbyte, if_neg hn.1]
    rcases hn.2 with hn | hn
    · rw [if_pos hn]
    · rw [if_neg (by omega), if_neg (by omega), if_neg (by omega), if_neg hn]
  rw [decodeUnits, step, hnone] at h
  cases cs <;> simp at h

end

/-- The first character that is read has its bytes in front. -/
theorem readsFirst_of_decodeUnits {b : UInt8} {bytes : Bytes} {cs : List Char}
    (h : decodeUnits .none (b :: bytes) = cs.map some) : ReadsFirst (b :: bytes) cs := by
  obtain ⟨n, hn, rfl⟩ : ∃ n, n < 256 ∧ b = UInt8.ofNat n := ⟨b.toNat, b.toNat_lt, by simp⟩
  obtain h1 | h2 | h3 | h4 | h5 : n < 0x80 ∨ (¬ n < 0x80 ∧ (n < 0xC2 ∨ ¬ n < 0xF5)) ∨
      (¬ n < 0xC2 ∧ n < 0xE0) ∨ (¬ n < 0xE0 ∧ n < 0xF0) ∨ (¬ n < 0xF0 ∧ n < 0xF5) := by omega
  · exact readsFirst_of_one h1 h
  · exact absurd h (decodeUnits_ne_of_none h2 hn)
  · exact readsFirst_of_two h3 h
  · exact readsFirst_of_three h4 h
  · exact readsFirst_of_four h5 h

/-- Bytes without ill-formed units are those of the characters that are read. -/
theorem eq_of_decodeUnits {bytes : Bytes} {cs : List Char}
    (h : decodeUnits .none bytes = cs.map some) : bytes = cs.flatMap String.utf8EncodeChar := by
  induction cs generalizing bytes with
  | nil =>
    cases bytes with
    | nil => rfl
    | cons b bytes =>
      obtain ⟨c, cs', rest, hcs, -⟩ := readsFirst_of_decodeUnits h
      cases hcs
  | cons c cs ih =>
    cases bytes with
    | nil => simp [decodeUnits] at h
    | cons b bytes =>
      obtain ⟨c', cs', rest, hcs, hbytes, hrest⟩ := readsFirst_of_decodeUnits h
      obtain ⟨rfl, rfl⟩ := List.cons.inj hcs
      rw [hbytes, ih hrest, List.flatMap_cons]

/-- **What is accepted** are the bytes of the text that is read. -/
theorem decode?_eq_some_iff {bytes : Bytes} {s : String} :
    decode? bytes = some s ↔ bytes = encode s := by
  refine ⟨fun h => ?_, fun h => h ▸ decode?_encode s⟩
  obtain ⟨cs, hcs, rfl⟩ := Option.map_eq_some_iff.1 h
  rw [encode, String.toList_ofList]
  exact eq_of_decodeUnits (mapM_id_eq_some_iff.1 hcs)

/-! ## ASCII -/

/-- The bytes that a character still lacks are no ASCII characters. -/
def Pending.AboveAscii : Pending → Prop
  | .none => True
  | .some _ low _ _ => 0x80 ≤ low

theorem aboveAscii_begin (b : UInt8) : (begin b).2.AboveAscii := by
  unfold begin
  dsimp only
  repeat' split
  all_goals first | trivial | (show (0x80 : UInt8) ≤ _; decide)

theorem Pending.AboveAscii.step {s : Pending} (hs : s.AboveAscii) (b : UInt8) :
    (Utf8.step s b).2.AboveAscii := by
  unfold Utf8.step
  split
  · exact aboveAscii_begin b
  · split
    · split
      · trivial
      · show (0x80 : UInt8) ≤ _
        decide
    · exact aboveAscii_begin b

/-- **What is read splits in front of an ASCII character.** -/
theorem decodeUnits_append_ascii {s : Pending} (hs : s.AboveAscii) {b : UInt8} (hb : b < 0x80)
    (bytes rest : Bytes) : decodeUnits s (bytes ++ b :: rest) =
      decodeUnits s bytes ++ decodeUnits .none (b :: rest) := by
  induction bytes generalizing s with
  | nil =>
    cases s with
    | none => rfl
    | some more low high value =>
      have hlow : (0x80 : UInt8) ≤ low := hs
      have hne : ¬ low ≤ b := UInt8.not_le.2 (UInt8.lt_of_lt_of_le hb hlow)
      have hstep : Utf8.step (.some more low high value) b = (none :: (begin b).1, (begin b).2) := by
        simp [Utf8.step, hne]
      rw [List.nil_append, decodeUnits_cons, hstep]
      rfl
  | cons c bytes ih =>
    rw [List.cons_append, decodeUnits_cons, ih (hs.step c), decodeUnits_cons s c, List.append_assoc]

theorem decodeLossy_append_ascii {b : UInt8} (hb : b < 0x80) (bytes rest : Bytes) :
    decodeLossy (bytes ++ b :: rest) = decodeLossy bytes ++ decodeLossy (b :: rest) := by
  rw [decodeLossy, decodeUnits_append_ascii (s := .none) trivial hb, List.map_append, String.ofList_append]
  rfl

/-- Text in front of a path's end is shown as it is, if it begins with an ASCII character. -/
theorem decodeLossy_append_encode {b : UInt8} {s : String} (hb : b < 0x80)
    (hs : (encode s).head? = some b) (bytes : Bytes) :
    decodeLossy (bytes ++ encode s) = decodeLossy bytes ++ s := by
  obtain ⟨rest, hrest⟩ : ∃ rest, encode s = b :: rest := by
    cases h : encode s with
    | nil => rw [h] at hs; cases hs
    | cons b' rest => rw [h] at hs; exact ⟨rest, by rw [← Option.some.inj hs]⟩
  rw [hrest, decodeLossy_append_ascii hb, ← hrest, decodeLossy_encode]

/-- Bytes in front of an ASCII character spell a text if the whole does. -/
theorem exists_encode_of_append_ascii {bytes : Bytes} (rest : Bytes) {b : UInt8} {s : String} (hb : b < 0x80)
    (h : bytes ++ b :: rest = encode s) : ∃ s', bytes = encode s' := by
  have hunits : decodeUnits .none bytes ++ decodeUnits .none (b :: rest) = s.toList.map some := by
    rw [← decodeUnits_append_ascii (s := .none) trivial hb, h, decodeUnits_encode]
  obtain ⟨cs, _, _, hcs, -⟩ := List.append_eq_map_iff.1 hunits
  refine ⟨String.ofList cs, decode?_eq_some_iff.1 ?_⟩
  rw [decode?, mapM_id_eq_some_iff.2 hcs.symm]
  rfl

/-! ## Cutting at ASCII characters -/

/-- A byte that is an ASCII character spells this character and is part of no other. -/
theorem mem_encodeChar_iff {b : UInt8} (hb : b < 0x80) (c : Char) :
    b ∈ String.utf8EncodeChar c ↔ c.toNat = b.toNat := by
  have hlt : b.toNat < 0x80 := UInt8.lt_iff_toNat_lt.1 hb
  have hbyte : ∀ n, n < 256 → (b = UInt8.ofNat n ↔ b.toNat = n) := fun n hn => by
    rw [← UInt8.toNat_inj, UInt8.toNat_ofNat', Nat.mod_eq_of_lt hn]
  have hbounds := toNat_bounds c
  rw [encodeChar_eq, pointBytes]
  split_ifs with h1 h2 h3 <;>
    simp only [continuation, List.nil_append, List.mem_cons, List.mem_append, List.not_mem_nil,
      or_false]
  · rw [hbyte _ (by omega), eq_comm]
  · rw [hbyte _ (by omega), hbyte _ (by omega)]
    omega
  · rw [hbyte _ (by omega), hbyte _ (by omega), hbyte _ (by omega)]
    omega
  · rw [hbyte _ (by omega), hbyte _ (by omega), hbyte _ (by omega), hbyte _ (by omega)]
    omega

theorem encodeChar_ascii {b : UInt8} (hb : b < 0x80) {c : Char} (hc : c.toNat = b.toNat) :
    String.utf8EncodeChar c = [b] := by
  have hlt : b.toNat < 0x80 := UInt8.lt_iff_toNat_lt.1 hb
  rw [encodeChar_eq, pointBytes, if_pos (by omega), hc, UInt8.ofNat_toNat]
  rfl

/-- **Cutting the bytes of a text** at an ASCII character is cutting the text. -/
theorem pieces_encode {b : UInt8} (hb : b < 0x80) {c : Char} (hc : c.toNat = b.toNat)
    (cs : List Char) : Text.pieces (· == b) (cs.flatMap String.utf8EncodeChar) =
      (Text.pieces (· == c) cs).map (·.flatMap String.utf8EncodeChar) := by
  induction cs with
  | nil => rfl
  | cons d ds ih =>
    rw [List.flatMap_cons, Text.pieces]
    by_cases hd : d = c
    · subst hd
      rw [encodeChar_ascii hb hc, List.singleton_append, Text.pieces, if_pos (beq_self_eq_true b),
        if_pos (beq_self_eq_true d), ih]
      rfl
    · obtain ⟨w, ws, hw⟩ := List.exists_cons_of_ne_nil (Text.pieces_ne_nil (· == c) ds)
      have huncut : ∀ x ∈ String.utf8EncodeChar d, (x == b) = false := by
        intro x hx
        refine beq_eq_false_iff_ne.2 fun hxb => hd (Char.toNat_inj.1 ?_)
        rw [hc, (mem_encodeChar_iff hb d).1 (hxb ▸ hx)]
      rw [hw, List.map_cons] at ih
      rw [Text.pieces_append_of_uncut huncut ih, if_neg (by simpa using hd), hw]
      rfl

theorem mem_encode_iff {b : UInt8} (hb : b < 0x80) {c : Char} (hc : c.toNat = b.toNat) (s : String) :
    b ∈ encode s ↔ c ∈ s.toList := by
  rw [encode, List.mem_flatMap]
  simp only [mem_encodeChar_iff hb, ← hc, Char.toNat_inj, exists_eq_right]

end Utf8

/-! ## Paths -/

namespace Path

variable {path : Path}

@[simp] theorem display_ofText (text : String) : display text = text := Utf8.decodeLossy_encode text

theorem ofText_append (s s' : String) : ofText (s ++ s') = ofText s ++ ofText s' :=
  Utf8.encode_append s s'

/-- What is displayed is the path exactly if it is a text. -/
theorem ofText_display_iff : ofText path.display = path ↔ ∃ text : String, path = text := by
  constructor
  · intro h
    exact ⟨path.display, h.symm⟩
  · rintro ⟨text, rfl⟩
    rw [display_ofText]

end Path
end FaultPlan
