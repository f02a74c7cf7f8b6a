/-
  Talkative and silent command lines.

  Whether an argument asks for a switch that takes no value can be told from its bytes: it is the long
  name, or the letter stands among its one-letter switches before one that takes the rest (`Asks`).  A
  value never looks like that, because a value that is an argument of its own begins with no dash.  So
  scanning a level gives such a switch exactly if one of the level's arguments asks for it (`of_scan`);
  the induction goes argument by argument, and what it carries is that only a switch that takes a value
  can be pending.

  Both switches may stand at both levels, and each level is checked by itself before the two are put
  together.  They exclude each other at one level and meet across the subcommand
  (`verbose_meets_silent_across_levels`, `silent_above_verbose_below`).
-/
import FaultPlan.Proofs.Command.PassingOn
import FaultPlan.Proofs.CommandLine.Arguments
import FaultPlan.Proofs.CommandLine.Progress

namespace FaultPlan

namespace CommandLine

/-- The switches that say how much is logged. -/
def Switch.IsLoudness (f : Switch) : Prop := f = .verbose ∨ f = .silent

namespace Switch.IsLoudness

variable {f : Switch}

theorem takesValue (hf : f.IsLoudness) : f.takesValue = false := by
  obtain rfl | rfl := hf <;> rfl

theorem mem_switches (hf : f.IsLoudness) (l : Level) : f ∈ l.switches := by
  have hall : Switch.verbose ∈ l.switches ∧ Switch.silent ∈ l.switches := by
    cases l with
    | top => decide
    | sub c => cases c <;> decide
  obtain rfl | rfl := hf
  · exact hall.1
  · exact hall.2

theorem exists_short (hf : f.IsLoudness) : ∃ b, f.short? = some b := by
  obtain rfl | rfl := hf
  · exact ⟨_, rfl⟩
  · exact ⟨_, rfl⟩

end Switch.IsLoudness

/-! ## What an argument asks for -/

/-- The argument asks for the switch, by its long name or by its letter.  What stands behind the letter
    of the output directory is a path. -/
def Asks (f : Switch) (arg : Bytes) : Prop :=
  arg = f.argument ∨
    ∃ letters b, arg = dash :: letters ∧ letters.head? ≠ some dash ∧ f.short? = some b ∧
      b ∈ letters.takeWhile (· != valueLetter)

/-- One of the arguments asks for the switch. -/
def Asked (f : Switch) (args : List Bytes) : Prop := ∃ arg ∈ args, Asks f arg

variable {f : Switch} {arg : Bytes}

theorem asked_cons {args : List Bytes} :
    Asked f (arg :: args) ↔ Asks f arg ∨ Asked f args := by
  simp [Asked]

/-- A long argument asks for the switch that it names if it holds nothing else. -/
theorem asks_iff_of_long {rest name : Bytes} {value : Option Bytes}
    (harg : arg = dash :: dash :: rest) (hkind : Argument.ofBytes arg = .ofLong rest)
    (h : Argument.ofLong rest = .long name value) :
    Asks f arg ↔ name = Utf8.encode f.long ∧ value = none := by
  constructor
  · rintro (rfl | ⟨letters, b, hletters, hhead, -⟩)
    · have hlong := hkind.symm.trans (Argument.ofBytes_long f)
      obtain ⟨hname, hvalue⟩ := Argument.long.inj (h.symm.trans hlong)
      exact ⟨hname, hvalue⟩
    · obtain ⟨-, rfl⟩ := List.cons.inj (harg.symm.trans hletters)
      exact absurd rfl hhead
  · rintro ⟨rfl, rfl⟩
    obtain rfl := Argument.of_ofLong_eq_long h
    exact Or.inl (harg.trans f.argument_eq.symm)

theorem asks_iff_of_short {letters : Bytes} {b : UInt8} (hb : f.short? = some b)
    (harg : arg = dash :: letters) (hhead : letters.head? ≠ some dash) :
    Asks f arg ↔ b ∈ letters.takeWhile (· != valueLetter) := by
  constructor
  · rintro (hlong | ⟨letters', b', hletters, -, hb', hmem⟩)
    · rw [harg, f.argument_eq] at hlong
      obtain ⟨-, rfl⟩ := List.cons.inj hlong
      exact absurd rfl hhead
    · obtain ⟨-, rfl⟩ := List.cons.inj (harg.symm.trans hletters)
      obtain rfl := Option.some.inj (hb.symm.trans hb')
      exact hmem
  · intro hmem
    exact Or.inr ⟨letters, b, harg, hhead, hb, hmem⟩

/-- The two dashes alone ask for nothing. -/
theorem not_asks_of_escape (harg : arg = [dash, dash]) : ¬ Asks f arg := by
  rintro (hlong | ⟨letters, b, hletters, hhead, -⟩)
  · rw [harg, f.argument_eq] at hlong
    exact f.long_ne_nil (List.cons.inj (List.cons.inj hlong).2).2.symm
  · obtain ⟨-, rfl⟩ := List.cons.inj (harg.symm.trans hletters)
    exact absurd rfl hhead

/-- A value or a subcommand asks for nothing. -/
theorem not_asks_of_plain (harg : ∀ b rest, arg ≠ dash :: b :: rest) : ¬ Asks f arg := by
  rintro (hlong | ⟨letters, b, hletters, -, -, hmem⟩)
  · exact harg _ _ (hlong.trans f.argument_eq)
  · cases letters with
    | nil => nomatch hmem
    | cons d rest => exact harg d rest hletters

/-! ## Scanning a level -/

/-- The arguments that a stop leaves to be read, with the word that it stopped at. -/
def Stop.remaining : Stop → List Bytes
  | finished => []
  | subcommand c rest => Path.ofText c.name :: rest
  | help rest => helpWord :: rest

/-- Scanning stops at a word of the top level. -/
theorem Level.of_stopAt {l : Level} {rest : List Bytes} {stop : Stop}
    (h : l.stopAt arg rest = some stop) : l = .top ∧ stop.remaining = arg :: rest := by
  unfold stopAt at h
  cases l with
  | sub c => nomatch h
  | top =>
    refine ⟨rfl, ?_⟩
    dsimp only at h
    split at h
    · next harg =>
      obtain rfl := Option.some.inj h
      rw [harg]
      rfl
    · obtain ⟨c, hc, rfl⟩ := Option.map_eq_some_iff.1 h
      have hname : Path.ofText c.name = arg := by
        unfold Subcommand.ofWord? at hc
        simpa [Path.ofText] using List.find?_some hc
      rw [← hname]
      rfl

variable {l : Level} {p q : Progress} {stop : Stop}

/-- **What a level gives** of the switches that say how much is logged is what its arguments ask for.
    At the top level all of them begin with a dash; a subcommand's level goes on to the end. -/
theorem of_scan {args : List Bytes} (hp : p.Awaits l) (h : scan l p args = .ok (q, stop)) :
    ∃ taken, args = taken ++ stop.remaining ∧ q.Awaits l ∧ (l = .top ∨ stop = .finished) ∧
      (l = .top → ∀ arg ∈ taken, arg.head? = some dash) ∧
      ∀ f : Switch, f.IsLoudness → (q.has f = true ↔ p.has f = true ∨ Asked f taken) := by
  induction args generalizing p with
  | nil =>
    obtain ⟨rfl, rfl⟩ := Prod.mk.inj (Except.ok.inj h)
    exact ⟨[], rfl, hp, Or.inr rfl, nofun, fun f _ => by simp [Asked]⟩
  | cons arg rest ih =>
    rcases Argument.ofBytes_cases arg with ⟨harg, hkind⟩ | ⟨long, -, harg, hkind⟩ |
      ⟨letters, -, hhead, harg, hkind⟩ | ⟨harg, hkind⟩
    · obtain ⟨rfl, rfl, rfl⟩ := scan_escape_of_ok hkind h
      refine ⟨[arg], rfl, hp, Or.inr rfl, ?_, fun f _ => ?_⟩
      · rintro - x hx
        rw [List.mem_singleton.1 hx, harg]
        rfl
      · simp [Asked, not_asks_of_escape harg]
    · obtain ⟨name, value, hlong⟩ : ∃ name value, Argument.ofLong long = .long name value :=
        ⟨_, _, rfl⟩
      rw [scan_long (hkind.trans hlong)] at h
      obtain ⟨r, hr, h⟩ := bind_eq_ok_iff.1 h
      have hstep (f : Switch) (hf : f.IsLoudness) :=
        Progress.of_takeLong hp hf.takesValue (hf.mem_switches l) hr
      obtain ⟨taken, rfl, hq, hstop, htop, hhas⟩ := ih (hstep .verbose (Or.inl rfl)).1 h
      refine ⟨arg :: taken, rfl, hq, hstop, fun hl => ?_, fun f hf => ?_⟩
      · exact List.forall_mem_cons.2 ⟨by rw [harg]; rfl, htop hl⟩
      · rw [hhas f hf, (hstep f hf).2, asked_cons, asks_iff_of_long harg hkind hlong, or_assoc]
    · rw [scan_short hkind] at h
      obtain ⟨r, hr, h⟩ := bind_eq_ok_iff.1 h
      have hstep (f : Switch) (hf : f.IsLoudness) (b : UInt8) (hb : f.short? = some b) :=
        Progress.of_takeShort hf.takesValue (hf.mem_switches l) hb hp hr
      obtain ⟨taken, rfl, hq, hstop, htop, hhas⟩ := ih (hstep .verbose (Or.inl rfl) _ rfl).1 h
      refine ⟨arg :: taken, rfl, hq, hstop, fun hl => ?_, fun f hf => ?_⟩
      · exact List.forall_mem_cons.2 ⟨by rw [harg]; rfl, htop hl⟩
      · obtain ⟨b, hb⟩ := hf.exists_short
        rw [hhas f hf, (hstep f hf b hb).2, asked_cons, asks_iff_of_short hb harg hhead, or_assoc]
    · rcases scan_plain_of_ok hkind h with ⟨s, hpending, h⟩ | ⟨rfl, hstop⟩
      · have hp' : Progress.Awaits { p with pending := some (s, some arg) } l := by
          intro w hw
          obtain rfl : (s, some arg) = w := Option.some.inj hw
          exact hp (s, none) hpending
        obtain ⟨taken, rfl, hq, hstop, htop, hhas⟩ := ih hp' h
        refine ⟨arg :: taken, rfl, hq, hstop, fun hl => ?_, fun f hf => ?_⟩
        · -- nothing is awaited at the top level
          subst hl
          nomatch hpending.symm.trans hp.pending_eq_none
        · rw [hhas f hf, asked_cons]
          simp only [not_asks_of_plain harg, false_or]
          rfl
      · obtain ⟨hl, hremaining⟩ := Level.of_stopAt hstop
        exact ⟨[], hremaining.symm, hp, Or.inl hl, nofun, fun f _ => by simp [Asked]⟩

/-! ## The whole line -/

theorem Progress.of_checkConflict (h : p.checkConflict = .ok ()) :
    ¬ (p.has .verbose = true ∧ p.has .silent = true) := by
  rintro ⟨hverbose, hsilent⟩
  unfold checkConflict at h
  rw [hverbose, hsilent] at h
  nomatch h

/-- A level that is read to its end and settled gives what its arguments ask for. -/
theorem of_settled_scan {args : List Bytes} {r : Progress}
    (h : scan l .start args = .ok (p, stop)) (hsettle : p.settle = .ok r) :
    ∃ taken, args = taken ++ stop.remaining ∧ (l = .top ∨ stop = .finished) ∧
      (l = .top → ∀ arg ∈ taken, arg.head? = some dash) ∧
      ∀ f : Switch, f.IsLoudness → (r.has f = true ↔ Asked f taken) := by
  obtain ⟨taken, hargs, hp, hstop, htop, hhas⟩ := of_scan (.of_pending_eq_none rfl) h
  refine ⟨taken, hargs, hstop, htop, fun f hf => ?_⟩
  have hnone : Progress.start.has f = false := rfl
  rw [(Progress.of_settle hp hf.takesValue hsettle).2, hhas f hf, hnone]
  simp

/-- What an accepted line is made of: two levels, each settled and checked by itself. -/
theorem of_read {args : List Bytes} {i : Invocation} (h : read args = .ok i) :
    ∃ (above below a b : Progress) (c : Subcommand) (rest : List Bytes) (stop : Stop),
      scan .top .start args = .ok (above, .subcommand c rest) ∧ above.settle = .ok a ∧
      a.checkConflict = .ok () ∧ scan (.sub c) .start rest = .ok (below, stop) ∧
      below.settle = .ok b ∧ b.checkConflict = .ok () ∧
      i.verbose = (a.has .verbose || b.has .verbose) ∧
      i.silent = (a.has .silent || b.has .silent) := by
  obtain ⟨⟨above, stop⟩, hscan, h⟩ := bind_eq_ok_iff.1 h
  cases stop with
  | finished =>
    obtain ⟨_, -, h⟩ := bind_eq_ok_iff.1 h
    nomatch h
  | help rest => nomatch h
  | subcommand c rest =>
    obtain ⟨⟨below, stop⟩, hbelow, h⟩ := bind_eq_ok_iff.1 h
    obtain ⟨b, hb, h⟩ := bind_eq_ok_iff.1 h
    obtain ⟨⟨⟩, hbcheck, h⟩ := bind_eq_ok_iff.1 h
    obtain ⟨target, -, h⟩ := bind_eq_ok_iff.1 h
    obtain ⟨action, -, h⟩ := bind_eq_ok_iff.1 h
    obtain ⟨a, ha, h⟩ := bind_eq_ok_iff.1 h
    obtain ⟨⟨⟩, hacheck, h⟩ := bind_eq_ok_iff.1 h
    obtain rfl := Except.ok.inj h
    exact ⟨above, below, a, b, c, rest, stop, hscan, ha, hacheck, hbelow, hb, hbcheck, rfl, rfl⟩

end CommandLine

/-- A silent command that is not talkative logs errors only. -/
theorem Host.severity_of_silent {h : Host} {i : Invocation} (hsilent : i.silent = true)
    (hverbose : i.verbose = false) : ∀ r ∈ (h.execute i).log, r.severity = .error := by
  have hlevel : i.level = .errors := by
    rw [Invocation.level, hverbose, hsilent]
    rfl
  intro r hr
  unfold execute executeUnder at hr
  rw [hlevel] at hr
  exact beq_iff_eq.1 (List.mem_filter.1 hr).2

/-- To a talkative command silence makes no difference. -/
theorem Host.execute_of_verbose {h : Host} {i : Invocation} (hverbose : i.verbose = true) :
    h.execute i = h.execute { i with silent := false } := by
  have hlevel : i.level = Invocation.level { i with silent := false } := by
    rw [Invocation.level, Invocation.level, hverbose]
    rfl
  unfold execute executeUnder
  rw [hlevel]

namespace CommandLine

/-- **Talkative and silent exclude each other at each level, and only there.**  An accepted line has its
    subcommand at the first argument without a dash.  A switch is set if it is asked for before or
    behind it.  No level asks for both, so that both are set exactly if one of them is asked for before
    the subcommand and the other behind it.  Then the command is talkative: silence keeps all but errors
    out of the log only where nothing asks for talk. -/
theorem verbose_meets_silent_across_levels {args : List Bytes} {i : Invocation}
    (h : read args = .ok i) :
    ∃ (above : List Bytes) (c : Subcommand) (below : List Bytes),
      args = above ++ Path.ofText c.name :: below ∧ (∀ arg ∈ above, arg.head? = some dash) ∧
      (i.verbose = true ↔ Asked .verbose above ∨ Asked .verbose below) ∧
      (i.silent = true ↔ Asked .silent above ∨ Asked .silent below) ∧
      ¬ (Asked .verbose above ∧ Asked .silent above) ∧
      ¬ (Asked .verbose below ∧ Asked .silent below) ∧
      (i.verbose = true ∧ i.silent = true ↔
        (Asked .verbose above ∧ Asked .silent below) ∨
          (Asked .silent above ∧ Asked .verbose below)) ∧
      ∀ host : Host,
        (i.silent = true → i.verbose = false → ∀ r ∈ (host.execute i).log, r.severity = .error) ∧
        (i.verbose = true → host.execute i = host.execute { i with silent := false }) := by
  obtain ⟨above, below, a, b, c, rest, stop, habove, ha, hacheck, hbelow, hb, hbcheck, hverbose,
    hsilent⟩ := of_read h
  obtain ⟨front, hargs, -, hdash, hfront⟩ := of_settled_scan habove ha
  obtain ⟨back, hrest, hstop, -, hback⟩ := of_settled_scan hbelow hb
  obtain rfl : rest = back := by
    obtain hlevel | rfl := hstop
    · nomatch hlevel
    · rw [hrest, Stop.remaining, List.append_nil]
  have hv : i.verbose = true ↔ Asked .verbose front ∨ Asked .verbose rest := by
    rw [hverbose, Bool.or_eq_true, hfront _ (Or.inl rfl), hback _ (Or.inl rfl)]
  have hs : i.silent = true ↔ Asked .silent front ∨ Asked .silent rest := by
    rw [hsilent, Bool.or_eq_true, hfront _ (Or.inr rfl), hback _ (Or.inr rfl)]
  have hnotfront : ¬ (Asked .verbose front ∧ Asked .silent front) := by
    rw [← hfront _ (Or.inl rfl), ← hfront _ (Or.inr rfl)]
    exact Progress.of_checkConflict hacheck
  have hnotback : ¬ (Asked .verbose rest ∧ Asked .silent rest) := by
    rw [← hback _ (Or.inl rfl), ← hback _ (Or.inr rfl)]
    exact Progress.of_checkConflict hbcheck
  refine ⟨front, c, rest, hargs, hdash rfl, hv, hs, hnotfront, hnotback, ?_, fun host =>
    ⟨Host.severity_of_silent, Host.execute_of_verbose⟩⟩
  rw [hv, hs]
  constructor
  · rintro ⟨hv | hv, hs | hs⟩
    · exact absurd ⟨hv, hs⟩ hnotfront
    · exact Or.inl ⟨hv, hs⟩
    · exact Or.inr ⟨hs, hv⟩
    · exact absurd ⟨hv, hs⟩ hnotback
  · rintro (⟨hv, hs⟩ | ⟨hs, hv⟩)
    · exact ⟨Or.inl hv, Or.inr hs⟩
    · exact ⟨Or.inr hv, Or.inl hs⟩

/-- A silent switch before the subcommand, and talk in one argument with the output directory behind
    it. -/
theorem verbose_meets_silent_across_levels_derive :
    let args : List Bytes := ["-s", "derive", "--elf", "fw.elf", "--map=fw.map", "--halt", "-", "-vos"]
    let i : Invocation := ⟨true, true, ⟨"fw.elf", "fw.map", "main", ["-"], [], .arm, none⟩,
      .derive "s" .line⟩
    read args = .ok i ∧
    ∃ (above : List Bytes) (c : Subcommand) (below : List Bytes),
      args = above ++ Path.ofText c.name :: below ∧
      ¬ (Asked .verbose above ∧ Asked .silent above) ∧
      ¬ (Asked .verbose below ∧ Asked .silent below) ∧
      ((Asked .verbose above ∧ Asked .silent below) ∨
        (Asked .silent above ∧ Asked .verbose below)) := by
  intro args i
  have hread : read args = .ok i := by decide +kernel
  obtain ⟨above, c, below, hargs, -, -, -, habove, hbelow, hboth, -⟩ :=
    verbose_meets_silent_across_levels hread
  exact ⟨hread, above, c, below, hargs, habove, hbelow, hboth.1 ⟨rfl, rfl⟩⟩

/-- **A silent command that is also talkative.**  The first tool fails and standard output cannot be
    written, and the log warns of it although the line asks for silence. -/
theorem silent_above_verbose_below :
    let args : List Bytes :=
      ["--silent", "check", "--elf", "fw.elf", "--map", "fw.map", "--halt", "win", "--verbose"]
    ∃ i, read args = .ok i ∧ i.verbose = true ∧ i.silent = true ∧
      ((brokenHost (.ofRoom 0) .endless).execute i).log.any (·.severity == .warning) = true :=
  ⟨⟨true, true, smallTarget, .check⟩, by decide +kernel, rfl, rfl, by decide +kernel⟩

end CommandLine
end FaultPlan
