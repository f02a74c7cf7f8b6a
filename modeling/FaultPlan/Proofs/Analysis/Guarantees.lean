/-
  What a successful analysis guarantees.

  Later stages rely on three facts about an analysis: flash and RAM have some length, there is a
  halt, and the ignore ranges are neither empty nor inverted.  For the ranges more holds: they lie
  in front of the end of flash and come one after the other.
-/
import FaultPlan.Proofs.Analysis.Stages
import FaultPlan.Proofs.Symbol.Ranges

namespace FaultPlan

/-- The end of a region is computed without wrapping, and stays at the last address. -/
theorem Region.toNat_limit (r : Region) :
    r.limit.toNat = min (r.origin.toNat + r.length.toNat) (UInt64.size - 1) := by
  unfold Region.limit
  have h : min (r.origin.toNat + r.length.toNat) (UInt64.size - 1) < UInt64.size := by
    have : 0 < UInt64.size := by decide
    omega
  rw [UInt64.toNat_ofNat', Nat.mod_eq_of_lt h]

namespace Source.Yields

variable {source : Source} {o : Options} {a : Analysis}

theorem flash_length_ne_zero (h : source.Yields o a) : a.layout.flash.length ≠ 0 := by
  obtain ⟨map, -, hlayout⟩ := h.layout
  exact Layout.length_ne_zero_of_require (Layout.ofMap_eq_ok_iff.1 hlayout).1

theorem ram_length_ne_zero (h : source.Yields o a) : a.layout.ram.length ≠ 0 := by
  obtain ⟨map, -, hlayout⟩ := h.layout
  exact Layout.length_ne_zero_of_require (Layout.ofMap_eq_ok_iff.1 hlayout).2

theorem halts_ne_nil (h : source.Yields o a) : a.survey.halts ≠ [] := by
  obtain ⟨text, -, hsurvey⟩ := h.survey
  exact (Survey.ofSymbols_eq_ok_iff.1 hsurvey).2.2.1

theorem ignores_shape (h : source.Yields o a) :
    (∀ r ∈ a.survey.ignores, r.lower < r.upper ∧ r.upper ≤ a.layout.endOfFlash) ∧
      a.survey.ignores.Pairwise (fun r r' => r.upper ≤ r'.lower) := by
  obtain ⟨text, -, hsurvey⟩ := h.survey
  exact Survey.shape_of_ignores hsurvey

end Source.Yields

/-- **The ignore ranges of an analysis** hold at least one address each, end in flash, and come in
    order without meeting.  The end of flash is the end of the region as a number, cut off at the
    last address. -/
theorem Source.ignores_ordered_within_flash {source : Source} {o : Options} {a : Analysis}
    (h : (source.analyze o).outcome = .ok a) :
    (∀ r ∈ a.survey.ignores, r.lower < r.upper ∧ r.upper ≤ a.layout.endOfFlash) ∧
      a.survey.ignores.Pairwise (fun r r' => r.upper ≤ r'.lower) ∧
      a.layout.endOfFlash.toNat =
        min (a.layout.flash.origin.toNat + a.layout.flash.length.toNat) (UInt64.size - 1) := by
  obtain ⟨hbounds, hordered⟩ := (Source.analyze_eq_ok_iff.1 h).ignores_shape
  exact ⟨hbounds, hordered, Region.toNat_limit a.layout.flash⟩

/-- Two ranges in a flash that passes the last address. -/
theorem Source.ignores_ordered_within_flash_cut_off :
    let source := Source.ofTexts "Tag_CPU_name:\"6-M\"" "flash fffffffffffffff0 20\nram 0 10\n"
      "10 g O key\n20 g F main\n40 g F win\n50 g O buf\n" ""
    ∃ a, (source.analyze ((Options.new "main").withHalt "win")).outcome = .ok a ∧
      a.survey.ignores = [⟨0x10, 0x20⟩, ⟨0x50, 0xffffffffffffffff⟩] ∧
      a.layout.endOfFlash = 0xffffffffffffffff ∧
      (∀ r ∈ a.survey.ignores, r.lower < r.upper ∧ r.upper ≤ a.layout.endOfFlash) ∧
      a.survey.ignores.Pairwise (fun r r' => r.upper ≤ r'.lower) ∧
      a.layout.endOfFlash.toNat =
        min (a.layout.flash.origin.toNat + a.layout.flash.length.toNat) (UInt64.size - 1) := by
  intro source
  have h : (source.analyze ((Options.new "main").withHalt "win")).outcome
      = .ok ⟨.armv6m, ⟨⟨0xfffffffffffffff0, 0x20⟩, ⟨0, 0x10⟩⟩,
        ⟨0x20, [⟨"win", 0x40⟩], [⟨0x10, 0x20⟩, ⟨0x50, 0xffffffffffffffff⟩]⟩, []⟩ := by rfl
  exact ⟨_, h, rfl, by decide, Source.ignores_ordered_within_flash h⟩

end FaultPlan
