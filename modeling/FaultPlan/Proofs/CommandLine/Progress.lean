/-
  What reading one switch adds to what has been given.

  A switch that is accepted adds its setting behind those that are there (`accept_eq_ok_iff`), so that
  progress has the switches that it had and this one.  Before a further switch is read, a value that is
  pending is accepted.  Only a switch that takes a value can be pending (`Progress.Awaits`); whatever
  takes none is therefore given exactly where its name is read (`has_of_takeLong`, `has_of_takeShort`).
-/
import FaultPlan.CommandLine.Reading
import FaultPlan.Proofs.Outcomes

namespace FaultPlan.CommandLine

/-- A setting is one of its switch. -/
theorem Switch.switch_of_setting {s : Switch} {value : Bytes} {x : Setting}
    (h : s.setting value = .ok x) : x.switch = s := by
  unfold setting at h
  cases s with
  | verbose | silent =>
    obtain rfl := Except.ok.inj h
    rfl
  | help | version => nomatch h
  | elf | map | start | halt | ignore | toolchain | timeout | outDir | format | engine =>
    obtain ⟨fitting, -, rfl⟩ := map_eq_ok_iff.1 h
    rfl

/-! ## Levels -/

/-- The letter of the one switch with a letter and a value. -/
def valueLetter : UInt8 := 'o'.toUInt8

namespace Level

variable {l : Level} {s : Switch}

theorem mem_of_findLong? {name : Bytes} (h : l.findLong? name = some s) :
    s ∈ l.switches ∧ Utf8.encode s.long = name := by
  unfold findLong? at h
  exact ⟨List.mem_of_find?_eq_some h, by simpa using List.find?_some h⟩

theorem mem_of_findShort? {b : UInt8} (h : l.findShort? b = some s) :
    s ∈ l.switches ∧ s.short? = some b := by
  unfold findShort? at h
  exact ⟨List.mem_of_find?_eq_some h, by simpa using List.find?_some h⟩

/-- No two switches of a level share their names. -/
theorem findLong?_long (h : s ∈ l.switches) : l.findLong? (Utf8.encode s.long) = some s := by
  revert s
  cases l with
  | top => decide
  | sub c => cases c <;> decide

theorem findShort?_of_short? {b : UInt8} (h : s ∈ l.switches) (hb : s.short? = some b) :
    l.findShort? b = some s := by
  have hall : ∀ s ∈ l.switches, s.short? ≠ none → s.short?.bind l.findShort? = some s := by
    cases l with
    | top => decide
    | sub c => cases c <;> decide
  have hs := hall s h
  rw [hb] at hs
  exact hs nofun

theorem takesValue_of_findShort? {b : UInt8} (h : l.findShort? b = some s) :
    s.takesValue = (b == valueLetter) := by
  obtain ⟨-, hb⟩ := mem_of_findShort? h
  have hall : ∀ s : Switch, s.short?.all (fun b => s.takesValue == (b == valueLetter)) = true := by
    intro s
    cases s <;> decide
  have hs := hall s
  rw [hb] at hs
  exact beq_iff_eq.1 hs

end Level

namespace Progress

variable {l : Level} {p q : Progress} {s : Switch} {value : Bytes}

/-! ## Accepting and settling -/

theorem accept_eq_ok_iff : p.accept s value = .ok q ↔
    (s.repeatable = true ∨ p.has s = false) ∧
      ∃ x, s.setting value = .ok x ∧ q = { p with given := p.given ++ [x] } := by
  unfold accept
  by_cases h : s.repeatable = true ∨ p.has s = false
  · have hfree : (!s.repeatable && p.has s) = false := by
      rcases h with h | h <;> simp [h]
    rw [hfree, if_neg Bool.false_ne_true, map_eq_ok_iff]
    simp only [h, true_and, eq_comm (a := q)]
  · obtain ⟨hsingle, hgiven⟩ := not_or.1 h
    have htaken : (!s.repeatable && p.has s) = true := by simp_all
    simp [htaken, h]

theorem has_append (given : List Setting) (x : Setting) (pending : Option (Switch × Option Bytes))
    (f : Switch) :
    has ⟨given ++ [x], pending⟩ f = (has ⟨given, pending⟩ f || x.switch == f) := by
  simp [has]

theorem of_accept (h : p.accept s value = .ok q) :
    q.pending = p.pending ∧ ∀ f, q.has f = (p.has f || s == f) := by
  obtain ⟨-, x, hx, rfl⟩ := accept_eq_ok_iff.1 h
  refine ⟨rfl, fun f => ?_⟩
  rw [has_append, Switch.switch_of_setting hx]

/-- What is pending at a level is a switch of that level, one that takes a value. -/
def Awaits (p : Progress) (l : Level) : Prop :=
  ∀ w ∈ p.pending, w.1.takesValue = true ∧ w.1 ∈ l.switches

theorem Awaits.of_pending_eq_none (h : p.pending = none) : p.Awaits l := by
  intro w hw
  rw [h] at hw
  nomatch hw

/-- At the top level nothing takes a value. -/
theorem Awaits.pending_eq_none (h : p.Awaits .top) : p.pending = none := by
  cases hp : p.pending with
  | none => rfl
  | some w =>
    obtain ⟨htakes, hmem⟩ := h w hp
    have hall : ∀ s ∈ Level.top.switches, s.takesValue = false := by decide
    nomatch htakes.symm.trans (hall w.1 hmem)

variable {f : Switch}

/-- Settling gives no switch that takes no value. -/
theorem of_settle (hp : p.Awaits l) (hf : f.takesValue = false) (h : p.settle = .ok q) :
    q.pending = none ∧ q.has f = p.has f := by
  unfold settle at h
  split at h
  · next hnone =>
    obtain rfl := Except.ok.inj h
    exact ⟨hnone, rfl⟩
  · nomatch h
  · next w value hsome =>
    obtain ⟨hpending, hhas⟩ := of_accept h
    have hne : (w == f) = false := by
      refine beq_eq_false_iff_ne.2 ?_
      rintro rfl
      nomatch hf.symm.trans (hp _ hsome).1
    refine ⟨hpending, ?_⟩
    rw [hhas, hne, Bool.or_false]
    rfl

theorem of_take (hp : p.Awaits l) (hf : f.takesValue = false) (h : p.take s value = .ok q) :
    q.pending = none ∧ q.has f = (p.has f || s == f) := by
  obtain ⟨r, hr, h⟩ := bind_eq_ok_iff.1 h
  obtain ⟨hnone, hsettled⟩ := of_settle hp hf hr
  obtain ⟨hpending, hhas⟩ := of_accept h
  exact ⟨hpending.trans hnone, by rw [hhas, hsettled]⟩

theorem of_await (hp : p.Awaits l) (hf : f.takesValue = false) (h : p.await s = .ok q) :
    q.pending = some (s, none) ∧ q.has f = p.has f := by
  obtain ⟨r, hr, h⟩ := bind_eq_ok_iff.1 h
  obtain ⟨-, hsettled⟩ := of_settle hp hf hr
  obtain rfl := Except.ok.inj h
  exact ⟨rfl, hsettled⟩

/-! ## Switches -/

/-- A long switch without a value is given where its name is read. -/
theorem of_takeLong {name : Bytes} {value : Option Bytes} (hp : p.Awaits l)
    (hf : f.takesValue = false) (hmem : f ∈ l.switches) (h : p.takeLong l name value = .ok q) :
    q.Awaits l ∧ (q.has f = true ↔ p.has f = true ∨ (name = Utf8.encode f.long ∧ value = none)) := by
  unfold takeLong at h
  split at h
  · nomatch h
  · next s hs =>
    obtain ⟨hsmem, hlong⟩ := Level.mem_of_findLong? hs
    -- the name is that of the flag exactly if the switch is the flag
    have hname : name = Utf8.encode f.long ↔ s = f := by
      constructor
      · rintro rfl
        exact Option.some.inj (hs.symm.trans (Level.findLong?_long hmem))
      · rintro rfl
        exact hlong.symm
    split at h
    · next value htakes =>
      obtain ⟨hpending, hhas⟩ := of_take hp hf h
      have hne : s ≠ f := by
        rintro rfl
        nomatch hf.symm.trans htakes
      refine ⟨.of_pending_eq_none hpending, ?_⟩
      rw [hhas, beq_eq_false_iff_ne.2 hne]
      simp
    · next htakes =>
      obtain ⟨hpending, hhas⟩ := of_await hp hf h
      have hne : s ≠ f := by
        rintro rfl
        nomatch hf.symm.trans htakes
      refine ⟨fun w hw => ?_, ?_⟩
      · obtain rfl : (s, none) = w := Option.some.inj (hpending.symm.trans hw)
        exact ⟨htakes, hsmem⟩
      · rw [hhas, hname]
        simp [hne]
    · nomatch h
    · obtain ⟨hpending, hhas⟩ := of_take hp hf h
      refine ⟨.of_pending_eq_none hpending, ?_⟩
      rw [hhas, hname, Bool.or_eq_true, beq_iff_eq]
      simp

/-- One-letter switches without a value are given where their letters are read, which goes on up to the
    letter of a switch that takes the rest. -/
theorem of_takeShort {letters : Bytes} {b : UInt8} (hf : f.takesValue = false)
    (hmem : f ∈ l.switches) (hb : f.short? = some b) (hp : p.Awaits l)
    (h : takeShort l p letters = .ok q) :
    q.Awaits l ∧ (q.has f = true ↔ p.has f = true ∨ b ∈ letters.takeWhile (· != valueLetter)) := by
  induction letters generalizing p with
  | nil =>
    obtain rfl := Except.ok.inj h
    exact ⟨hp, by simp⟩
  | cons d rest ih =>
    rw [takeShort] at h
    split at h
    · nomatch h
    · next s hs =>
      have htakes := Level.takesValue_of_findShort? hs
      split at h
      · next hvalue =>
        obtain rfl : d = valueLetter := by simpa [htakes] using hvalue
        have hne : s ≠ f := by
          rintro rfl
          nomatch hf.symm.trans hvalue
        split at h
        · obtain ⟨hpending, hhas⟩ := of_await hp hf h
          refine ⟨fun w hw => ?_, by simp [hhas]⟩
          obtain rfl : (s, none) = w := Option.some.inj (hpending.symm.trans hw)
          exact ⟨hvalue, (Level.mem_of_findShort? hs).1⟩
        · obtain ⟨hpending, hhas⟩ := of_take hp hf h
          exact ⟨.of_pending_eq_none hpending, by simp [hhas, hne]⟩
      · next hvalue =>
        have hd : (d != valueLetter) = true := by simpa [htakes] using hvalue
        obtain ⟨r, hr, h⟩ := bind_eq_ok_iff.1 h
        obtain ⟨hpending, hhas⟩ := of_take hp hf hr
        obtain ⟨hq, hrest⟩ := ih (.of_pending_eq_none hpending) h
        -- the letter is that of the flag exactly if the switch is the flag
        have hletter : b = d ↔ s = f := by
          constructor
          · rintro rfl
            exact Option.some.inj (hs.symm.trans (Level.findShort?_of_short? hmem hb))
          · rintro rfl
            exact Option.some.inj (hb.symm.trans (Level.mem_of_findShort? hs).2)
        refine ⟨hq, ?_⟩
        rw [hrest, hhas, List.takeWhile_cons_of_pos (p := (· != valueLetter)) hd, List.mem_cons, hletter,
          Bool.or_eq_true, beq_iff_eq, or_assoc]

end Progress

/-! ## Arguments -/

variable {l : Level} {p q : Progress} {arg : Bytes} {rest : List Bytes} {stop : Stop}

theorem scan_escape_of_ok (hkind : Argument.ofBytes arg = .escape)
    (h : scan l p (arg :: rest) = .ok (q, stop)) : rest = [] ∧ q = p ∧ stop = .finished := by
  unfold scan at h
  simp only [hkind] at h
  cases rest with
  | nil =>
    obtain ⟨rfl, rfl⟩ := Prod.mk.inj (Except.ok.inj h)
    exact ⟨rfl, rfl, rfl⟩
  | cons next rest => nomatch h

theorem scan_long {name : Bytes} {value : Option Bytes}
    (hkind : Argument.ofBytes arg = .long name value) :
    scan l p (arg :: rest) = p.takeLong l name value >>= fun q => scan l q rest := by
  rw [scan.eq_def]
  simp only [hkind]

theorem scan_short {letters : Bytes} (hkind : Argument.ofBytes arg = .short letters) :
    scan l p (arg :: rest) = p.takeShort l letters >>= fun q => scan l q rest := by
  rw [scan.eq_def]
  simp only [hkind]

/-- A word is the value that is awaited, or scanning stops at it. -/
theorem scan_plain_of_ok (hkind : Argument.ofBytes arg = .plain)
    (h : scan l p (arg :: rest) = .ok (q, stop)) :
    (∃ s, p.pending = some (s, none) ∧
      scan l { p with pending := some (s, some arg) } rest = .ok (q, stop)) ∨
    (q = p ∧ l.stopAt arg rest = some stop) := by
  unfold scan at h
  simp only [hkind] at h
  split at h
  · next s hpending => exact Or.inl ⟨s, hpending, h⟩
  · split at h
    · next stop' hstop =>
      obtain ⟨rfl, rfl⟩ := Prod.mk.inj (Except.ok.inj h)
      exact Or.inr ⟨rfl, hstop⟩
    · nomatch h

end FaultPlan.CommandLine
