/-
  Texts are in the order of their bytes.

  Characters are compared by their code points, texts character by character.  To compare the bytes
  that spell two texts gives the same order, although a character has one to four of them: the first
  byte grows with the number of bytes, and among characters of one number it holds the leading bits,
  with the bytes behind it holding six bits each (`continuation_lt`).  So the bytes of a lesser
  character are the lesser ones already before the longer of the two spellings ends, whatever follows
  (`encodeChar_append_lt`).
-/
import FaultPlan.Text.Utf8

namespace FaultPlan.Utf8

/-! ## Bytes of one character -/

/-- The last bytes of a character: six bits each, the leading ones first. -/
def continuation : Nat → Nat → Bytes
  | 0, _ => []
  | count + 1, v => continuation count (v / 64) ++ [UInt8.ofNat (v % 64 + 0x80)]

/-- What is left of a number in front of its last bytes. -/
def leading : Nat → Nat → Nat
  | 0, v => v
  | count + 1, v => leading count (v / 64)

/-- The bytes of a code point: one that holds its leading bits and tells their number, and the rest. -/
def pointBytes (v : Nat) : Bytes :=
  if v ≤ 0x7F then UInt8.ofNat v :: continuation 0 v
  else if v ≤ 0x7FF then UInt8.ofNat (v / 64 % 32 + 0xC0) :: continuation 1 v
  else if v ≤ 0xFFFF then UInt8.ofNat (v / 4096 % 16 + 0xE0) :: continuation 2 v
  else UInt8.ofNat (v / 262144 % 8 + 0xF0) :: continuation 3 v

theorem encodeChar_eq (c : Char) : String.utf8EncodeChar c = pointBytes c.toNat := by
  simp only [pointBytes, continuation, Nat.div_div_eq_div_mul]
  rfl

theorem byte_cons_lt {m n : Nat} {r s : Bytes} (hn : n < 256) (h : m < n ∨ (m = n ∧ r < s)) :
    UInt8.ofNat m :: r < UInt8.ofNat n :: s := by
  rw [List.cons_lt_cons_iff]
  rcases h with h | ⟨rfl, h⟩
  · refine Or.inl ?_
    rw [UInt8.lt_iff_toNat_lt, UInt8.toNat_ofNat', UInt8.toNat_ofNat', Nat.mod_eq_of_lt hn,
      Nat.mod_eq_of_lt (Nat.lt_trans h hn)]
    exact h
  · exact Or.inr ⟨rfl, h⟩

/-- Of two numbers the greater has the greater leading bits, or else the greater bytes behind them. -/
theorem continuation_lt (count : Nat) {v w : Nat} (h : v < w) (r s : Bytes) :
    leading count v < leading count w ∨
      (leading count v = leading count w ∧
        continuation count v ++ r < continuation count w ++ s) := by
  induction count generalizing v w r s with
  | zero => exact Or.inl h
  | succ count ih =>
    simp only [leading, continuation, List.append_assoc, List.singleton_append]
    by_cases hdiv : v / 64 = w / 64
    · -- only the last byte differs
      rw [hdiv]
      refine Or.inr ⟨rfl, List.append_left_lt ?_⟩
      exact byte_cons_lt (by omega) (Or.inl (by omega))
    · exact ih (by omega) _ _

/-- A lesser code point has fewer bytes, or as many and lesser ones. -/
theorem pointBytes_append_lt {v w : Nat} (h : v < w) (hw : w < 0x110000) (r s : Bytes) :
    pointBytes v ++ r < pointBytes w ++ s := by
  have hone := continuation_lt 1 h r s
  have htwo := continuation_lt 2 h r s
  have hthree := continuation_lt 3 h r s
  simp only [leading] at hone htwo hthree
  have hmore {m n : Nat} {bs bs' : Bytes} (hn : n < 256) (hmn : m < n) :
      UInt8.ofNat m :: bs < UInt8.ofNat n :: bs' := byte_cons_lt hn (Or.inl hmn)
  unfold pointBytes
  split
  · -- one byte
    split
    · exact hmore (by omega) (by omega)
    split
    · exact hmore (by omega) (by omega)
    split
    · exact hmore (by omega) (by omega)
    · exact hmore (by omega) (by omega)
  split
  · -- two bytes
    rw [if_neg (by omega)]
    split
    · exact byte_cons_lt (by omega) (hone.imp (by omega) fun ⟨heq, hlt⟩ => ⟨by omega, hlt⟩)
    split
    · exact hmore (by omega) (by omega)
    · exact hmore (by omega) (by omega)
  split
  · -- three bytes
    rw [if_neg (by omega), if_neg (by omega)]
    split
    · exact byte_cons_lt (by omega) (htwo.imp (by omega) fun ⟨heq, hlt⟩ => ⟨by omega, hlt⟩)
    · exact hmore (by omega) (by omega)
  · -- four bytes
    rw [if_neg (by omega), if_neg (by omega), if_neg (by omega)]
    exact byte_cons_lt (by omega) (hthree.imp (by omega) fun ⟨heq, hlt⟩ => ⟨by omega, hlt⟩)

/-- **A lesser character has lesser bytes**, whatever follows it and the other. -/
theorem encodeChar_append_lt {c d : Char} (h : c < d) (r s : Bytes) :
    String.utf8EncodeChar c ++ r < String.utf8EncodeChar d ++ s := by
  have hd : d.toNat < 0x110000 := by
    have hvalid : d.toNat < 0xD800 ∨ (0xDFFF < d.toNat ∧ d.toNat < 0x110000) := d.valid
    omega
  rw [encodeChar_eq, encodeChar_eq]
  exact pointBytes_append_lt h hd r s

/-! ## Texts -/

theorem flatMap_encodeChar_lt {cs ds : List Char} (h : cs < ds) :
    cs.flatMap String.utf8EncodeChar < ds.flatMap String.utf8EncodeChar := by
  induction h with
  | nil =>
    rename_i d ds
    obtain ⟨b, bs, hbytes⟩ := List.exists_cons_of_ne_nil (String.utf8EncodeChar_ne_nil (c := d))
    rw [List.flatMap_nil, List.flatMap_cons, hbytes]
    exact List.nil_lt_cons _ _
  | cons _ ih =>
    rw [List.flatMap_cons, List.flatMap_cons]
    exact List.append_left_lt ih
  | rel hlt =>
    rw [List.flatMap_cons, List.flatMap_cons]
    exact encodeChar_append_lt hlt _ _

theorem encode_lt_iff {s t : String} : encode s < encode t ↔ s < t := by
  constructor
  · intro h
    refine Decidable.byContradiction fun hnot => ?_
    have hle : t ≤ s := String.not_lt.1 hnot
    by_cases heq : s = t
    · subst heq
      exact List.lt_irrefl _ h
    · have hlt : t < s := String.not_le.1 fun hle' => heq (String.le_antisymm hle' hle)
      exact List.lt_asymm h (flatMap_encodeChar_lt hlt)
  · exact flatMap_encodeChar_lt

/-- **The order of texts is that of their bytes.** -/
theorem encode_le_iff {s t : String} : encode s ≤ encode t ↔ s ≤ t := not_congr encode_lt_iff

end FaultPlan.Utf8
