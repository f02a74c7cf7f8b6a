/-
  Exact coverage: which addresses the ignore ranges of a survey hold.

  `Reaches` says declaratively how far one span goes: from its lower bound to the first later
  closer, and never past the end of flash.  `Covered` says that some opener's span reaches an
  address.  The scan in `Survey.spans` joins the spans of successive openers into one and drops
  empty ranges; it still gives exactly the covered addresses (`exists_mem_spans_iff`).

  In the middle of a scan the addresses still to be given are those `Ahead`, and a step gives some of
  them and leaves the others ahead (`ahead_cons`).  The crux is the step at an opener inside an open
  span (`ahead_some_cons_of_not_closes`): the scan ignores it, and nothing is lost because the table
  is sorted, so that the open span began no later than the opener and both end at the same closer.
-/
import FaultPlan.Proofs.Symbol.Order
import FaultPlan.Proofs.Symbol.Survey

namespace FaultPlan.Survey

variable {o : Options} {endOfFlash : UInt64}

/-! ## The specification -/

/-- A span that is open since `lower`, with the symbols `later` still to come, reaches the address
    `x`: it ends at the first closer among them, or at the end of flash. -/
def Reaches (o : Options) (endOfFlash lower : UInt64) (later : List Symbol) (x : UInt64) : Prop :=
  lower ≤ x ∧ x < endOfFlash ∧ ∀ s, later.find? (closes o) = some s → x < s.address

/-- The span of some opener reaches the address. -/
def Covered (o : Options) (endOfFlash : UInt64) (symbols : List Symbol) (x : UInt64) : Prop :=
  ∃ before s after, symbols = before ++ s :: after ∧ opens o s = true ∧
    Reaches o endOfFlash s.address after x

theorem reaches_nil {lower x : UInt64} :
    Reaches o endOfFlash lower [] x ↔ lower ≤ x ∧ x < endOfFlash := by
  simp [Reaches]

theorem lt_min_iff {a b c : UInt64} : a < min b c ↔ a < b ∧ a < c := by
  rw [← UInt64.not_le, Std.min_le, not_or, UInt64.not_le, UInt64.not_le]

theorem reaches_cons_of_closes {s : Symbol} {later : List Symbol} {lower x : UInt64}
    (h : closes o s = true) :
    Reaches o endOfFlash lower (s :: later) x ↔ lower ≤ x ∧ x < min s.address endOfFlash := by
  rw [Reaches, List.find?_cons_of_pos h, lt_min_iff, and_comm (a := x < s.address)]
  simp

theorem reaches_cons_of_not_closes {s : Symbol} {later : List Symbol} {lower x : UInt64}
    (h : closes o s = false) :
    Reaches o endOfFlash lower (s :: later) x ↔ Reaches o endOfFlash lower later x := by
  rw [Reaches, Reaches, List.find?_cons_of_neg (Bool.eq_false_iff.1 h)]

theorem not_covered_nil {x : UInt64} : ¬ Covered o endOfFlash [] x := by
  rintro ⟨before, s, after, h, -⟩
  exact absurd h (by simp)

/-- The opener that covers an address is the first symbol or a later one. -/
theorem covered_cons {s : Symbol} {later : List Symbol} {x : UInt64} :
    Covered o endOfFlash (s :: later) x ↔
      (opens o s = true ∧ Reaches o endOfFlash s.address later x) ∨
        Covered o endOfFlash later x := by
  constructor
  · rintro ⟨before, u, after, h, hopens, hreaches⟩
    cases before with
    | nil =>
      obtain ⟨rfl, rfl⟩ := List.cons.inj h
      exact Or.inl ⟨hopens, hreaches⟩
    | cons b before =>
      obtain ⟨-, rfl⟩ := List.cons.inj h
      exact Or.inr ⟨before, u, after, rfl, hopens, hreaches⟩
  · rintro (⟨hopens, hreaches⟩ | ⟨before, u, after, rfl, hopens, hreaches⟩)
    · exact ⟨[], s, later, rfl, hopens, hreaches⟩
    · exact ⟨s :: before, u, after, rfl, hopens, hreaches⟩

/-! ## The scan -/

theorem exists_mem_ofBounds?_iff {lower upper x : UInt64} :
    (∃ r, r ∈ IgnoreRange.ofBounds? lower upper ∧ r.Contains x) ↔ lower ≤ x ∧ x < upper := by
  constructor
  · rintro ⟨r, hr, hx⟩
    obtain ⟨-, rfl⟩ := IgnoreRange.mem_ofBounds?_iff.1 hr
    exact hx
  · rintro ⟨hl, hu⟩
    have hlt : lower < upper := UInt64.lt_of_le_of_lt hl hu
    exact ⟨⟨lower, upper⟩, IgnoreRange.mem_ofBounds?_iff.2 ⟨hlt, rfl⟩, hl, hu⟩

/-- A span that began earlier reaches all that a later one reaches. -/
theorem Reaches.of_le {lower lower' x : UInt64} {later : List Symbol}
    (h : Reaches o endOfFlash lower' later x) (hle : lower ≤ lower') :
    Reaches o endOfFlash lower later x :=
  ⟨UInt64.le_trans hle h.1, h.2⟩

/-- An address that the scan has still to give: the open span reaches it, or that of an opener to
    come. -/
def Ahead (o : Options) (endOfFlash : UInt64) (span : Option UInt64) (symbols : List Symbol)
    (x : UInt64) : Prop :=
  (∃ lower, span = some lower ∧ Reaches o endOfFlash lower symbols x) ∨
    Covered o endOfFlash symbols x

theorem ahead_none {symbols : List Symbol} {x : UInt64} :
    Ahead o endOfFlash none symbols x ↔ Covered o endOfFlash symbols x := by
  simp [Ahead]

theorem ahead_some {lower : UInt64} {symbols : List Symbol} {x : UInt64} :
    Ahead o endOfFlash (some lower) symbols x ↔
      Reaches o endOfFlash lower symbols x ∨ Covered o endOfFlash symbols x := by
  simp [Ahead]

/-- At the end of the table the open span goes on to the end of flash. -/
theorem ahead_nil {span : Option UInt64} {x : UInt64} :
    Ahead o endOfFlash span [] x ↔ ∃ lower, span = some lower ∧ lower ≤ x ∧ x < endOfFlash := by
  simp only [Ahead, reaches_nil, not_covered_nil, or_false]

/-- With no span open, the symbol's own span is the one that may be open after it. -/
theorem ahead_none_cons {s : Symbol} {rest : List Symbol} {x : UInt64} :
    Ahead o endOfFlash none (s :: rest) x ↔ Ahead o endOfFlash (openAfter o s none) rest x := by
  rw [ahead_none, covered_cons]
  cases hopens : opens o s with
  | true =>
    have hafter : openAfter o s none = some s.address := by simp [openAfter, hopens]
    rw [hafter, ahead_some]
    simp
  | false =>
    have hafter : openAfter o s none = none := by simp [openAfter, hopens]
    rw [hafter, ahead_none]
    simp

/-- A closer ends the open span, and opens none itself. -/
theorem ahead_some_cons_of_closes {lower x : UInt64} {s : Symbol} {rest : List Symbol}
    (h : closes o s = true) :
    Ahead o endOfFlash (some lower) (s :: rest) x ↔
      (lower ≤ x ∧ x < min s.address endOfFlash) ∨ Ahead o endOfFlash none rest x := by
  have hopens : opens o s = false := not_opens_of_closes h
  rw [ahead_some, ahead_none, reaches_cons_of_closes h, covered_cons, hopens]
  simp

/-- Any other symbol leaves the open span as it is.  Should it be an opener, its own span adds
    nothing: it began no earlier, and the two end at the same closer. -/
theorem ahead_some_cons_of_not_closes {lower x : UInt64} {s : Symbol} {rest : List Symbol}
    (h : closes o s = false) (hls : lower ≤ s.address) :
    Ahead o endOfFlash (some lower) (s :: rest) x ↔ Ahead o endOfFlash (some lower) rest x := by
  rw [ahead_some, ahead_some, reaches_cons_of_not_closes h, covered_cons]
  constructor
  · rintro (hreaches | ⟨-, hreaches⟩ | hcovered)
    · exact Or.inl hreaches
    · exact Or.inl (hreaches.of_le hls)
    · exact Or.inr hcovered
  · rintro (hreaches | hcovered)
    · exact Or.inl hreaches
    · exact Or.inr (Or.inr hcovered)

/-- **One step of the scan** gives the range that ends there, and leaves the rest ahead. -/
theorem ahead_cons {span : Option UInt64} {s : Symbol} {rest : List Symbol} {x : UInt64}
    (hinv : InOrder span (s :: rest)) :
    Ahead o endOfFlash span (s :: rest) x ↔
      (∃ r, r ∈ closedAt o endOfFlash span s ∧ r.Contains x) ∨
        Ahead o endOfFlash (openAfter o s span) rest x := by
  cases span with
  | none =>
    have hclosed : closedAt o endOfFlash none s = none := rfl
    rw [ahead_none_cons, hclosed]
    simp
  | some lower =>
    cases hcloses : closes o s with
    | true =>
      have hclosed : closedAt o endOfFlash (some lower) s =
          IgnoreRange.ofBounds? lower (min s.address endOfFlash) := by simp [closedAt, hcloses]
      have hafter : openAfter o s (some lower) = none := by simp [openAfter, hcloses]
      rw [ahead_some_cons_of_closes hcloses, hclosed, hafter, exists_mem_ofBounds?_iff]
    | false =>
      have hls : lower ≤ s.address := hinv.opened lower rfl s List.mem_cons_self
      have hclosed : closedAt o endOfFlash (some lower) s = none := by simp [closedAt, hcloses]
      have hafter : openAfter o s (some lower) = some lower := by simp [openAfter, hcloses]
      rw [ahead_some_cons_of_not_closes hcloses hls, hclosed, hafter]
      simp

/-- **The scan, from any state.**  While the invariant holds, the ranges still to be given hold what
    is ahead. -/
theorem exists_mem_spans_iff (o : Options) (endOfFlash x : UInt64) :
    ∀ (symbols : List Symbol) (span : Option UInt64), InOrder span symbols →
      ((∃ r ∈ spans o endOfFlash span symbols, r.Contains x) ↔
        Ahead o endOfFlash span symbols x) := by
  intro symbols
  induction symbols with
  | nil =>
    intro span _
    rw [ahead_nil]
    constructor
    · rintro ⟨r, hr, hx⟩
      obtain ⟨lower, hspan, -, rfl⟩ := mem_spans_nil.1 hr
      exact ⟨lower, hspan, hx⟩
    · rintro ⟨lower, hspan, hx⟩
      have hlt : lower < endOfFlash := UInt64.lt_of_le_of_lt hx.1 hx.2
      exact ⟨⟨lower, endOfFlash⟩, mem_spans_nil.2 ⟨lower, hspan, hlt, rfl⟩, hx⟩
  | cons s rest ih =>
    intro span hinv
    rw [ahead_cons hinv, ← ih _ hinv.step]
    simp only [mem_spans_cons, or_and_right, exists_or]

/-! ## Coverage of a survey -/

/-- The ignore ranges of a survey hold the addresses that the openers of the table cover. -/
theorem exists_mem_ignores_iff {text : String} {survey : Survey}
    (h : ofSymbols o endOfFlash (symbolTable text) = .ok survey) (x : UInt64) :
    (∃ r ∈ survey.ignores, r.Contains x) ↔ Covered o endOfFlash (symbolTable text) x := by
  obtain ⟨-, -, -, hignores⟩ := ofSymbols_eq_ok_iff.1 h
  have hscan := exists_mem_spans_iff o endOfFlash x (symbolTable text) none (InOrder.table text)
  rwa [hignores, ahead_none] at hscan

/-- A symbol that bears the start's name or a halt's opens no span. -/
theorem not_opens_of_named {s : Symbol} (h : s.name = o.start ∨ s.name ∈ o.halts) :
    opens o s = false := by
  refine Bool.eq_false_iff.2 fun hopens => ?_
  obtain ⟨hstart, hhalt, -⟩ := opens_iff.1 hopens
  rcases h with h | h
  · exact hstart h
  · exact hhalt h

/-- **Exact coverage.**  An ignore range of the survey holds an address exactly when an opener of
    the table lies at or before it, flash has not ended, and the first closer after that opener, if
    there is one, is still ahead.  A start or halt symbol opens no span, and ends one exactly when
    it is a function that is not ignored. -/
theorem mem_ignores_iff_covered {text : String} {survey : Survey}
    (h : ofSymbols o endOfFlash (symbolTable text) = .ok survey) :
    (∀ x : UInt64, (∃ r ∈ survey.ignores, r.lower ≤ x ∧ x < r.upper) ↔
      ∃ (before : List Symbol) (opener : Symbol) (after : List Symbol),
        symbolTable text = before ++ opener :: after ∧
        (opener.name ≠ o.start ∧ opener.name ∉ o.halts ∧
          (opener.kind = .object ∨ opener.name ∈ o.ignores.names)) ∧
        opener.address ≤ x ∧ x < endOfFlash ∧
        ∀ closer : Symbol, after.find? (fun s => s.kind = .function ∧ s.name ∉ o.ignores.names) =
          some closer → x < closer.address) ∧
    (∀ s ∈ symbolTable text, s.name = o.start ∨ s.name ∈ o.halts →
      ∀ span, openAfter o s span =
        if s.kind = .function ∧ s.name ∉ o.ignores.names then none else span) := by
  have hcloses : closes o =
      fun s => decide (s.kind = .function ∧ s.name ∉ o.ignores.names) := by
    funext s
    rw [Bool.eq_iff_iff, closes_iff, decide_eq_true_iff]
  constructor
  · intro x
    have hcovered := exists_mem_ignores_iff h x
    simpa only [IgnoreRange.Contains, Covered, Reaches, opens_iff, hcloses] using hcovered
  · intro s _ hname span
    rw [openAfter_of_not_opens (not_opens_of_named hname), hcloses]
    simp only [decide_eq_true_eq]

/-- An address behind an ignored function, in a span that a data object opened. -/
theorem mem_ignores_iff_covered_joined :
    ofSymbols (((Options.new "main").withHalt "win").withIgnores ["memcpy"]) 0x100
        (symbolTable "10 g F main\n20 g O tbl\n28 g F memcpy\n40 g F win\nf0 g O buf\n")
      = .ok ⟨0x10, [⟨"win", 0x40⟩], [⟨0x20, 0x40⟩, ⟨0xf0, 0x100⟩]⟩ ∧
    ∃ (before : List Symbol) (opener : Symbol) (after : List Symbol),
      symbolTable "10 g F main\n20 g O tbl\n28 g F memcpy\n40 g F win\nf0 g O buf\n"
        = before ++ opener :: after ∧
      (opener.name ≠ "main" ∧ opener.name ∉ ["win"] ∧
        (opener.kind = .object ∨ opener.name ∈ ["memcpy"])) ∧
      opener.address ≤ 0x30 ∧ (0x30 : UInt64) < 0x100 ∧
      ∀ closer : Symbol, after.find? (fun s => s.kind = .function ∧ s.name ∉ ["memcpy"]) =
        some closer → 0x30 < closer.address := by
  have h : ofSymbols (((Options.new "main").withHalt "win").withIgnores ["memcpy"]) 0x100
      (symbolTable "10 g F main\n20 g O tbl\n28 g F memcpy\n40 g F win\nf0 g O buf\n")
      = .ok ⟨0x10, [⟨"win", 0x40⟩], [⟨0x20, 0x40⟩, ⟨0xf0, 0x100⟩]⟩ :=
    ofSymbols_eq_ok_iff.2 ⟨by decide, by decide, by decide, by decide⟩
  exact ⟨h, ((mem_ignores_iff_covered h).1 0x30).1
    ⟨⟨0x20, 0x40⟩, List.mem_cons_self, by decide, by decide⟩⟩

end FaultPlan.Survey
