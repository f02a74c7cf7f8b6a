/-
  Options act monotonically on what a survey protects.

  More ignored names open more spans and let fewer functions end one, and more halts open fewer
  spans.  The two scans of one table are soon in different states: a span that is open in the one may
  be closed in the other, and ranges that are apart in the one are joined in the other.  They are
  therefore not compared step by step but by what they cover.  Options that open more and close less
  (`Widens`) let every span reach at least as far, because the table is sorted and the first closer
  that is left is not below the first one that there was (`Reaches.widen`).
-/
import FaultPlan.Proofs.Options.Builder
import FaultPlan.Proofs.Symbol.Entries

namespace FaultPlan.Survey

variable {o o' : Options} {endOfFlash x : UInt64} {symbols : List Symbol} {text : String}
  {survey survey' : Survey}

/-! ## Wider options -/

/-- Under the second options every symbol opens a span that opens one under the first, and only
    symbols end a span that end one under the first. -/
structure Widens (o o' : Options) : Prop where
  opens : ∀ s, opens o s = true → opens o' s = true
  closes : ∀ s, closes o' s = true → closes o s = true

/-- A span reaches no less far when closers are taken away. -/
theorem Reaches.widen (h : Widens o o') {lower : UInt64}
    (hsorted : symbols.Pairwise (fun a b => a.address ≤ b.address))
    (hreaches : Reaches o endOfFlash lower symbols x) : Reaches o' endOfFlash lower symbols x := by
  obtain ⟨hlower, hflash, hfirst⟩ := hreaches
  refine ⟨hlower, hflash, ?_⟩
  intro s hs
  have hmem : s ∈ symbols := List.mem_of_find?_eq_some hs
  have hcloses : Survey.closes o s = true := h.closes s (List.find?_some hs)
  obtain ⟨first, hsome, hle⟩ := exists_first_closer hsorted hmem hcloses
  exact UInt64.lt_of_lt_of_le (hfirst first hsome) hle

/-- What an opener covers it covers under wider options as well. -/
theorem Covered.widen (h : Widens o o')
    (hsorted : symbols.Pairwise (fun a b => a.address ≤ b.address))
    (hcovered : Covered o endOfFlash symbols x) : Covered o' endOfFlash symbols x := by
  obtain ⟨before, s, after, rfl, hopens, hreaches⟩ := hcovered
  have hafter := (List.pairwise_cons.1 (List.pairwise_append.1 hsorted).2.1).2
  exact ⟨before, s, after, rfl, h.opens s hopens, hreaches.widen h hafter⟩

/-- **Wider options protect no less**: their ignore ranges hold every address that those of the
    others hold. -/
theorem ignores_widen (h : Widens o o')
    (hsurvey : ofSymbols o endOfFlash (symbolTable text) = .ok survey)
    (hsurvey' : ofSymbols o' endOfFlash (symbolTable text) = .ok survey')
    (hx : ∃ r ∈ survey.ignores, r.Contains x) : ∃ r ∈ survey'.ignores, r.Contains x := by
  rw [exists_mem_ignores_iff hsurvey] at hx
  rw [exists_mem_ignores_iff hsurvey']
  exact hx.widen h (pairwise_symbolTable text)

/-! ## More ignored names, more halts -/

/-- An ignored name opens spans, unless it is start or halt, and ends none. -/
theorem widens_withIgnores (o : Options) (names : List String) :
    Widens o (o.withIgnores names) where
  opens s hs := by
    obtain ⟨hstart, hhalt, hcause⟩ := opens_iff.1 hs
    refine opens_iff.2 ⟨hstart, hhalt, ?_⟩
    exact hcause.imp_right fun hname => Options.mem_ignores_withIgnores.2 (Or.inl hname)
  closes s hs := by
    obtain ⟨hkind, hname⟩ := closes_iff.1 hs
    refine closes_iff.2 ⟨hkind, fun hignored => hname ?_⟩
    exact Options.mem_ignores_withIgnores.2 (Or.inl hignored)

/-- A halt opens no span, and whether it ends one has nothing to do with its being a halt. -/
theorem withHalts_widens (o : Options) (names : List String) :
    Widens (o.withHalts names) o where
  opens s hs := by
    rw [opens_iff, Options.start_withHalts, Options.ignores_withHalts] at hs
    obtain ⟨hstart, hhalt, hcause⟩ := hs
    exact opens_iff.2 ⟨hstart, fun h => hhalt (Options.mem_halts_withHalts.2 (Or.inl h)), hcause⟩
  closes s hs := by
    rw [closes_iff, Options.ignores_withHalts]
    exact closes_iff.1 hs

/-- The old halts are among the new ones, in their order. -/
theorem haltPoints_sublist_withHalts (o : Options) (names : List String) (symbols : List Symbol) :
    (haltPoints o symbols).Sublist (haltPoints (o.withHalts names) symbols) := by
  have hfilter : symbols.filter (isHaltSymbol o) =
      (symbols.filter (isHaltSymbol (o.withHalts names))).filter (isHaltSymbol o) := by
    rw [List.filter_filter]
    refine List.filter_congr fun s _ => ?_
    rw [Bool.eq_iff_iff, Bool.and_eq_true, isHaltSymbol_iff, isHaltSymbol_iff,
      Options.start_withHalts, Options.mem_halts_withHalts]
    exact ⟨fun h => ⟨h, Or.inl h.1, h.2⟩, And.left⟩
  rw [haltPoints, hfilter]
  exact List.filter_sublist.map _

/-- **Options act monotonically.**  Where a survey succeeds it still does when more names are
    ignored, with the same start and the same halts, and no address that the ignore ranges held is
    given up.  It still does when more halts are named, with the same start and with the old halts
    in their order among the new ones, and no address is held that was not held before. -/
theorem options_act_monotonically {o : Options} {endOfFlash : UInt64} {text : String}
    {survey : Survey} (h : ofSymbols o endOfFlash (symbolTable text) = .ok survey)
    (names : List String) :
    (∃ wider, ofSymbols (o.withIgnores names) endOfFlash (symbolTable text) = .ok wider ∧
      wider.start = survey.start ∧ wider.halts = survey.halts ∧
      ∀ x : UInt64, (∃ r ∈ survey.ignores, r.lower ≤ x ∧ x < r.upper) →
        ∃ r ∈ wider.ignores, r.lower ≤ x ∧ x < r.upper) ∧
    ∃ narrower, ofSymbols (o.withHalts names) endOfFlash (symbolTable text) = .ok narrower ∧
      narrower.start = survey.start ∧ survey.halts.Sublist narrower.halts ∧
      ∀ x : UInt64, (∃ r ∈ narrower.ignores, r.lower ≤ x ∧ x < r.upper) →
        ∃ r ∈ survey.ignores, r.lower ≤ x ∧ x < r.upper := by
  obtain ⟨hstart, hhalts, hsome, -⟩ := ofSymbols_eq_ok_iff.1 h
  constructor
  · -- neither the start nor the halts depend on what is ignored
    have hwider : ofSymbols (o.withIgnores names) endOfFlash (symbolTable text) = .ok
        ⟨survey.start, survey.halts, spans (o.withIgnores names) endOfFlash none (symbolTable text)⟩ :=
      ofSymbols_eq_ok_iff.2 ⟨hstart, hhalts, hsome, rfl⟩
    exact ⟨_, hwider, rfl, rfl, fun x => ignores_widen (widens_withIgnores o names) h hwider⟩
  · have hsub := haltPoints_sublist_withHalts o names (symbolTable text)
    have hstart' : startAddress? (o.withHalts names) (symbolTable text) = some survey.start := by
      rwa [startAddress?, Options.start_withHalts]
    have hsome' : haltPoints (o.withHalts names) (symbolTable text) ≠ [] := by
      intro hnil
      rw [hnil, hhalts] at hsub
      exact hsome (List.sublist_nil.1 hsub)
    have hnarrower : ofSymbols (o.withHalts names) endOfFlash (symbolTable text) = .ok
        ⟨survey.start, haltPoints (o.withHalts names) (symbolTable text),
          spans (o.withHalts names) endOfFlash none (symbolTable text)⟩ :=
      ofSymbols_eq_ok_iff.2 ⟨hstart', rfl, hsome', rfl⟩
    rw [hhalts] at hsub
    exact ⟨_, hnarrower, rfl, hsub,
      fun x => ignores_widen (withHalts_widens o names) hnarrower h⟩

/-- With `memcpy` ignored the span of a data object goes on through it, where it had ended before;
    with `vec` among the halts, the span of that object is given up. -/
theorem options_act_monotonically_joined :
    let o := (Options.new "main").withHalt "win"
    let text := "10 g F main\n20 g O tbl\n28 g F memcpy\n30 g F win\n40 g O vec\n"
    ofSymbols o 0x100 (symbolTable text) =
        .ok ⟨0x10, [⟨"win", 0x30⟩], [⟨0x20, 0x28⟩, ⟨0x40, 0x100⟩]⟩ ∧
      (∃ wider, ofSymbols (o.withIgnores ["memcpy"]) 0x100 (symbolTable text) = .ok wider ∧
        ∃ r ∈ wider.ignores, r.lower ≤ 0x24 ∧ 0x24 < r.upper) ∧
      ∃ narrower, ofSymbols (o.withHalts ["vec"]) 0x100 (symbolTable text) = .ok narrower ∧
        [⟨"win", 0x30⟩].Sublist narrower.halts := by
  intro o text
  have h : ofSymbols o 0x100 (symbolTable text) =
      .ok ⟨0x10, [⟨"win", 0x30⟩], [⟨0x20, 0x28⟩, ⟨0x40, 0x100⟩]⟩ :=
    ofSymbols_eq_ok_iff.2 ⟨by decide, by decide, by decide, by decide⟩
  obtain ⟨wider, hwider, -, -, hkept⟩ := (options_act_monotonically h ["memcpy"]).1
  obtain ⟨narrower, hnarrower, -, hsub, -⟩ := (options_act_monotonically h ["vec"]).2
  refine ⟨h, ⟨wider, hwider, hkept 0x24 ⟨⟨0x20, 0x28⟩, ?_, ?_, ?_⟩⟩, narrower, hnarrower, hsub⟩
  · exact List.mem_cons_self
  · decide
  · decide

end FaultPlan.Survey
