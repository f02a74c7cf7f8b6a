/-
  From what is asked for to the command line and back.

  A request names the values of the options, each given or left out (`Request`).  It is written with one
  argument for each setting, `--name=value`, behind the subcommand.  Whatever a value looks like, the
  argument is read as the setting that it was made from (`Progress.takeLong_token`), so that a level
  takes all settings in, up to the first that may not be given again (`scan_tokens`).

  Settings are picked out of what was given by their kind.  Of a kind that is given once the order of the
  arguments does not matter (`findSome?_of_perm`); halts are listed, and keep theirs.  The line is thus
  read as the request, whatever its order (`request_carried_through`).
-/
import Mathlib.Data.List.Basic
import FaultPlan.Proofs.CommandLine.Arguments
import FaultPlan.Proofs.CommandLine.Progress
import FaultPlan.Proofs.Number.RoundTrip
import FaultPlan.Proofs.Options.Sequences

namespace FaultPlan

theorem OutputFormat.ofName?_name (f : OutputFormat) : ofName? f.name = some f := by
  cases f <;> rfl

namespace CommandLine

/-! ## Settings as arguments -/

/-- The value of a setting in an argument. -/
def Setting.value : Setting → Bytes
  | .verbose | .silent => []
  | .elf path | .map path | .outDir path | .engine path => path
  | .start name | .halt name | .ignore name => Path.ofText name
  | .toolchain stem => Path.ofText stem
  | .timeout cycles => Path.ofText (Decimal.render cycles)
  | .format f => Path.ofText f.name

/-- A setting in one argument. -/
def Setting.token (x : Setting) : Bytes := x.switch.argument ++ equals :: x.value

/-- The setting is one of an option of the subcommand, and a path is not empty. -/
structure Setting.Fits (x : Setting) (c : Subcommand) : Prop where
  takesValue : x.switch.takesValue = true
  known : x.switch ∈ (Level.sub c).switches
  proper : x.switch ∈ [Switch.elf, .map, .outDir, .engine] → x.value ≠ []

variable {c : Subcommand} {x : Setting} {xs given : List Setting}

theorem textValue_ofText (text : String) : textValue (Path.ofText text) = .ok text := by
  simp [textValue, Path.ofText]

/-- The value of a setting makes that setting again. -/
theorem Setting.Fits.setting_value (h : x.Fits c) : x.switch.setting x.value = .ok x := by
  have hproper := h.proper
  have htakes := h.takesValue
  cases x with
  | verbose | silent => nomatch htakes
  | elf path | map path | outDir path | engine path =>
    have hne : path ≠ [] := hproper (by simp [Setting.switch])
    simp [Switch.setting, pathValue, Setting.switch, Setting.value, hne, Except.map]
  | start text | halt text | ignore text | toolchain text =>
    simp [Switch.setting, Setting.switch, Setting.value, textValue_ofText, Except.map]
  | timeout cycles =>
    have hvalue : cyclesValue (Path.ofText (Decimal.render cycles)) = .ok cycles := by
      simp [cyclesValue, textValue_ofText, Decimal.parse_render, bind, Except.bind]
    simp [Switch.setting, Setting.switch, Setting.value, hvalue, Except.map]
  | format f =>
    have hvalue : formatValue (Path.ofText f.name) = .ok f := by
      simp [formatValue, Path.ofText, OutputFormat.ofName?_name]
    simp [Switch.setting, Setting.switch, Setting.value, hvalue, Except.map]

/-! ## A level of settings -/

/-- How often a switch has been given. -/
def timesGiven (xs : List Setting) (s : Switch) : Nat := (xs.map Setting.switch).count s

/-- No switch has been given again that may be given once. -/
def GivenOnce (xs : List Setting) : Prop := ∀ s : Switch, s.repeatable = false → timesGiven xs s ≤ 1

theorem givenOnce_nil : GivenOnce [] := fun _ _ => Nat.zero_le 1

theorem timesGiven_append (xs ys : List Setting) (s : Switch) :
    timesGiven (xs ++ ys) s = timesGiven xs s + timesGiven ys s := by
  simp [timesGiven]

theorem timesGiven_singleton (x : Setting) (s : Switch) :
    timesGiven [x] s = if x.switch = s then 1 else 0 := by
  simp [timesGiven, List.count_singleton]

theorem has_iff {pending : Option (Switch × Option Bytes)} {s : Switch} :
    Progress.has ⟨xs, pending⟩ s = true ↔ 0 < timesGiven xs s := by
  rw [timesGiven, List.count_pos_iff]
  simp [Progress.has]

namespace Progress

/-- An argument is read as the setting that it was made from. -/
theorem takeLong_token (h : x.Fits c) :
    takeLong ⟨given, none⟩ (.sub c) (Utf8.encode x.switch.long) (some x.value) =
      accept ⟨given, none⟩ x.switch x.value := by
  unfold takeLong
  rw [Level.findLong?_long h.known]
  simp only [h.takesValue]
  rfl

theorem accept_again (hsingle : x.switch.repeatable = false) (hgiven : 0 < timesGiven given x.switch) :
    accept ⟨given, none⟩ x.switch x.value = .error .conflict := by
  unfold accept
  rw [has_iff.2 hgiven, hsingle]
  rfl

theorem accept_new (h : x.Fits c)
    (hnew : x.switch.repeatable = true ∨ timesGiven given x.switch = 0) :
    accept ⟨given, none⟩ x.switch x.value = .ok ⟨given ++ [x], none⟩ := by
  refine accept_eq_ok_iff.2 ⟨hnew.imp_right fun hzero => ?_, x, h.setting_value, rfl⟩
  refine Bool.eq_false_iff.2 fun hhas => ?_
  have hpos := has_iff.1 hhas
  omega

end Progress

theorem ofBytes_token (x : Setting) :
    Argument.ofBytes x.token = .long (Utf8.encode x.switch.long) (some x.value) :=
  Argument.ofBytes_long_value x.switch x.value

/-- **A level takes its settings in**, unless one is given again that may be given once. -/
theorem scan_tokens (hgiven : GivenOnce given) (h : ∀ x ∈ xs, x.Fits c) :
    (GivenOnce (given ++ xs) →
      scan (.sub c) ⟨given, none⟩ (xs.map Setting.token) = .ok (⟨given ++ xs, none⟩, .finished)) ∧
    (¬ GivenOnce (given ++ xs) →
      scan (.sub c) ⟨given, none⟩ (xs.map Setting.token) = .error .conflict) := by
  induction xs generalizing given with
  | nil =>
    rw [List.append_nil]
    exact ⟨fun _ => rfl, fun hno => absurd hgiven hno⟩
  | cons x rest ih =>
    obtain ⟨hx, hrest⟩ := List.forall_mem_cons.1 h
    rw [List.map_cons, scan_long (ofBytes_token x), Progress.takeLong_token hx]
    by_cases hagain : x.switch.repeatable = false ∧ 0 < timesGiven given x.switch
    · obtain ⟨hsingle, hpos⟩ := hagain
      rw [Progress.accept_again hsingle hpos]
      refine ⟨fun honce => ?_, fun _ => rfl⟩
      -- the switch is counted where it was given before, and again here
      have htwice := honce x.switch hsingle
      rw [List.append_cons, timesGiven_append, timesGiven_append, timesGiven_singleton,
        if_pos rfl] at htwice
      omega
    · have hnew : x.switch.repeatable = true ∨ timesGiven given x.switch = 0 := by
        cases hrepeatable : x.switch.repeatable with
        | true => exact Or.inl rfl
        | false => exact Or.inr (Nat.eq_zero_of_not_pos fun hpos => hagain ⟨hrepeatable, hpos⟩)
      have honce : GivenOnce (given ++ [x]) := by
        intro s hs
        rw [timesGiven_append, timesGiven_singleton]
        have hbefore := hgiven s hs
        split
        · next heq =>
          subst heq
          rcases hnew with hrepeatable | hzero
          · nomatch hs.symm.trans hrepeatable
          · omega
        · exact hbefore
      rw [Progress.accept_new hx hnew, List.append_cons]
      exact ih honce hrest

/-- A subcommand begins its own level. -/
theorem read_name (c : Subcommand) (rest : List Bytes) :
    read (Path.ofText c.name :: rest) = invocation .start c rest := by
  have hscan : scan .top .start (Path.ofText c.name :: rest) = .ok (.start, .subcommand c rest) := by
    cases c <;> rfl
  unfold read
  rw [hscan]
  rfl

/-! ## Requests -/

/-- What is asked of a subcommand, each option given or left out. -/
inductive Wish where
  | derive (outDir : Option Path) (format : Option OutputFormat)
  | run (engine : Option Path)
  | check

namespace Wish

def subcommand : Wish → Subcommand
  | derive .. => .derive
  | run _ => .run
  | check => .check

def settings : Wish → List Setting
  | derive outDir format => outDir.toList.map .outDir ++ format.toList.map .format
  | run engine => engine.toList.map .engine
  | check => []

/-- The action that is meant, if nothing is missing. -/
def action? : Wish → Option Action
  | derive outDir format => some (.derive (outDir.getD "tmp_data") (format.getD .line))
  | run engine => engine.map .run
  | check => some .check

def outDir? : Wish → Option Path
  | derive outDir _ => outDir
  | run _ | check => none

def format? : Wish → Option OutputFormat
  | derive _ format => format
  | run _ | check => none

def engine? : Wish → Option Path
  | run engine => engine
  | derive .. | check => none

end Wish

/-- What a command line says of the target and asks for, each option given or left out. -/
structure Request where
  elf : Option Path
  map : Option Path
  start : Option String
  halts : List String
  ignores : List String
  toolchain : Option String
  timeout : Option UInt64
  wish : Wish

namespace Request

def settings (r : Request) : List Setting :=
  r.elf.toList.map .elf ++ r.map.toList.map .map ++ r.start.toList.map .start ++
    r.halts.map .halt ++ r.ignores.map .ignore ++ r.toolchain.toList.map .toolchain ++
    r.timeout.toList.map .timeout ++ r.wish.settings

/-- The path that is given for a switch. -/
def path? (r : Request) : Switch → Option Path
  | .elf => r.elf
  | .map => r.map
  | .outDir => r.wish.outDir?
  | .engine => r.wish.engine?
  | _ => none

/-- The texts that are given for a switch, in the order of the settings. -/
def texts (r : Request) : Switch → List String
  | .start => r.start.toList
  | .halt => r.halts
  | .ignore => r.ignores
  | .toolchain => r.toolchain.toList
  | _ => []

/-- The settings in any order that keeps the halts in theirs. -/
structure Arranged (r : Request) (xs : List Setting) : Prop where
  perm : xs.Perm r.settings
  halts : xs.filterMap (Setting.text? .halt) = r.halts

/-- The subcommand, and an argument for each setting. -/
def line (r : Request) (xs : List Setting) : List Bytes :=
  Path.ofText r.wish.subcommand.name :: xs.map Setting.token

/-- No path that is given is empty. -/
structure Proper (r : Request) : Prop where
  elf : r.elf ≠ some []
  map : r.map ≠ some []
  outDir : ∀ outDir format, r.wish = .derive outDir format → outDir ≠ some []
  engine : ∀ engine, r.wish = .run engine → engine ≠ some []

/-- Nothing is left out that has no default. -/
structure Complete (r : Request) : Prop where
  elf : r.elf ≠ none
  map : r.map ≠ none
  halts : r.halts ≠ []
  action : r.wish.action? ≠ none

/-- The invocation has the values of the request, and the defaults where it gives none. -/
structure CarriedBy (r : Request) (i : Invocation) : Prop where
  elf : r.elf = some i.target.elf
  map : r.map = some i.target.map
  start : i.target.start = r.start.getD "main"
  halts : i.target.halts = r.halts
  ignores : i.target.ignores.Perm r.ignores
  toolchain : i.target.toolchain.stem = r.toolchain.getD "arm-none-eabi-"
  timeout : i.target.timeout = r.timeout
  action : r.wish.action? = some i.action
  loudness : i.verbose = false ∧ i.silent = false

variable {r : Request} {xs : List Setting}

/-- Each setting of a proper request fits its subcommand. -/
theorem Proper.fits (h : r.Proper) : ∀ x ∈ r.settings, x.Fits r.wish.subcommand := by
  have htarget : ∀ s ∈ Level.targetSwitches, s ∈ (Level.sub r.wish.subcommand).switches := by
    cases r.wish.subcommand <;> decide
  have hwish : ∀ x ∈ r.wish.settings, x.Fits r.wish.subcommand := by
    cases hw : r.wish with
    | derive outDir format =>
      intro x hx
      simp only [Wish.settings, List.mem_append, List.mem_map, Option.mem_toList] at hx
      rcases hx with ⟨path, rfl, rfl⟩ | ⟨f, rfl, rfl⟩
      · have hknown : Switch.outDir ∈ (Level.sub .derive).switches := by decide
        refine ⟨rfl, hknown, fun _ hempty => h.outDir _ _ hw ?_⟩
        exact congrArg some hempty
      · have hknown : Switch.format ∈ (Level.sub .derive).switches := by decide
        exact ⟨rfl, hknown, by simp [Setting.switch]⟩
    | run engine =>
      intro x hx
      simp only [Wish.settings, List.mem_map, Option.mem_toList] at hx
      obtain ⟨path, rfl, rfl⟩ := hx
      have hknown : Switch.engine ∈ (Level.sub .run).switches := by decide
      refine ⟨rfl, hknown, fun _ hempty => h.engine _ hw ?_⟩
      exact congrArg some hempty
    | check => nofun
  intro x hx
  simp only [settings, List.mem_append, List.mem_map, Option.mem_toList] at hx
  rcases hx with (((((((⟨path, hpath, rfl⟩ | ⟨path, hpath, rfl⟩) | ⟨name, -, rfl⟩) | ⟨name, -, rfl⟩) |
    ⟨name, -, rfl⟩) | ⟨stem, -, rfl⟩) | ⟨cycles, -, rfl⟩) | hx)
  · refine ⟨rfl, htarget .elf (by decide), fun _ hempty => h.elf (hpath.trans ?_)⟩
    exact congrArg some hempty
  · refine ⟨rfl, htarget .map (by decide), fun _ hempty => h.map (hpath.trans ?_)⟩
    exact congrArg some hempty
  · exact ⟨rfl, htarget .start (by decide), by simp [Setting.switch]⟩
  · exact ⟨rfl, htarget .halt (by decide), by simp [Setting.switch]⟩
  · exact ⟨rfl, htarget .ignore (by decide), by simp [Setting.switch]⟩
  · exact ⟨rfl, htarget .toolchain (by decide), by simp [Setting.switch]⟩
  · exact ⟨rfl, htarget .timeout (by decide), by simp [Setting.switch]⟩
  · exact hwish x hx

/-! ## What is given once -/

/-- An option that is given or left out has its switch once at most. -/
theorem sublist_toList_map {α : Type} {t : Switch} (g : α → Setting) (hg : ∀ a, (g a).switch = t)
    (o : Option α) : ((o.toList.map g).map Setting.switch).Sublist [t] := by
  cases o with
  | none => exact List.nil_sublist _
  | some a =>
    rw [Option.toList_some, List.map_singleton, List.map_singleton, hg]

theorem sublist_wish (w : Wish) :
    (w.settings.map Setting.switch).Sublist [.outDir, .format, .engine] := by
  cases w with
  | derive outDir format =>
    have hdir := sublist_toList_map Setting.outDir (t := .outDir) (fun _ => rfl) outDir
    have hformat := sublist_toList_map Setting.format (t := .format) (fun _ => rfl) format
    rw [Wish.settings, List.map_append]
    exact (hdir.append hformat).trans (by decide)
  | run engine =>
    have hengine := sublist_toList_map Setting.engine (t := .engine) (fun _ => rfl) engine
    exact hengine.trans (by decide)
  | check => exact List.nil_sublist _

/-- The switches of a request: each option that may be given once has one place, filled or not. -/
theorem sublist_settings (r : Request) :
    (r.settings.map Setting.switch).Sublist
      ([Switch.elf] ++ [Switch.map] ++ [Switch.start] ++ List.replicate r.halts.length Switch.halt ++
        List.replicate r.ignores.length Switch.ignore ++ [Switch.toolchain] ++ [Switch.timeout] ++
        [Switch.outDir, Switch.format, Switch.engine]) := by
  have hlisted {t : Switch} (g : String → Setting) (hg : ∀ a, (g a).switch = t) (l : List String) :
      ((l.map g).map Setting.switch).Sublist (List.replicate l.length t) := by
    simp [Function.comp_def, hg, List.map_const']
  simp only [settings, List.map_append]
  refine ((((((List.Sublist.append ?_ ?_).append ?_).append ?_).append ?_).append ?_).append ?_).append
    (sublist_wish r.wish)
  · exact sublist_toList_map .elf (fun _ => rfl) r.elf
  · exact sublist_toList_map .map (fun _ => rfl) r.map
  · exact sublist_toList_map .start (fun _ => rfl) r.start
  · exact hlisted .halt (fun _ => rfl) r.halts
  · exact hlisted .ignore (fun _ => rfl) r.ignores
  · exact sublist_toList_map .toolchain (fun _ => rfl) r.toolchain
  · exact sublist_toList_map .timeout (fun _ => rfl) r.timeout

/-- A request gives no option again that may be given once. -/
theorem givenOnce_settings (r : Request) : GivenOnce r.settings := by
  intro s hs
  refine Nat.le_trans (r.sublist_settings.count_le s) ?_
  simp only [List.count_append, List.count_replicate]
  cases s with
  | halt | ignore => nomatch hs
  | verbose | silent | help | version | elf | map | start | toolchain | timeout | outDir | format
    | engine => simp

theorem Arranged.givenOnce (h : r.Arranged xs) : GivenOnce xs := by
  intro s hs
  rw [timesGiven, (h.perm.map Setting.switch).count_eq]
  exact r.givenOnce_settings s hs

/-! ## What the settings hold -/

/-- What is picked once out of a list is picked out of it in any order. -/
theorem findSome?_of_perm {α β : Type} {f : α → Option β} {xs ys : List α} {b? : Option β}
    (h : xs.Perm ys) (hy : ys.filterMap f = b?.toList) : xs.findSome? f = b? := by
  have hxs : (xs.filterMap f).Perm b?.toList := hy ▸ h.filterMap f
  rw [← List.head?_filterMap]
  cases b? with
  | none =>
    rw [List.perm_nil.1 hxs]
    rfl
  | some b =>
    rw [List.perm_singleton.1 hxs]
    rfl

/-- Settings of one switch hold what they were made with for that switch, and nothing for another. -/
theorem filterMap_held {α : Type} (held? : Switch → Setting → Option α) {s t : Switch}
    (g : α → Setting) (hheld : ∀ a, held? s (g a) = if t = s then some a else none) (l : List α) :
    (l.map g).filterMap (held? s) = if t = s then l else [] := by
  rw [List.filterMap_map]
  by_cases h : t = s
  · simp [hheld, h]
  · simp [hheld, h]

/-- Settings that hold nothing of the kind are passed over. -/
theorem filterMap_held_none {α β : Type} (held? : Setting → Option β) (g : α → Setting)
    (hheld : ∀ a, held? (g a) = none) (l : List α) : (l.map g).filterMap held? = [] := by
  simp [List.filterMap_map, hheld]

theorem filterMap_path?_wish (w : Wish) (s : Switch) :
    w.settings.filterMap (Setting.path? s) =
      (if .outDir = s then w.outDir?.toList else []) ++
        if .engine = s then w.engine?.toList else [] := by
  cases w with
  | derive outDir format =>
    rw [Wish.settings, List.filterMap_append, filterMap_held Setting.path? .outDir (fun _ => rfl),
      filterMap_held_none (Setting.path? s) .format (fun _ => ite_self none)]
    simp [Wish.outDir?, Wish.engine?]
  | run engine =>
    rw [Wish.settings, filterMap_held Setting.path? .engine (fun _ => rfl)]
    simp [Wish.outDir?, Wish.engine?]
  | check => simp [Wish.settings, Wish.outDir?, Wish.engine?]

theorem filterMap_text?_wish (w : Wish) (s : Switch) :
    w.settings.filterMap (Setting.text? s) = [] := by
  cases w with
  | derive outDir format =>
    rw [Wish.settings, List.filterMap_append,
      filterMap_held_none (Setting.text? s) .outDir (fun _ => ite_self none),
      filterMap_held_none (Setting.text? s) .format (fun _ => ite_self none), List.append_nil]
  | run engine => exact filterMap_held_none (Setting.text? s) .engine (fun _ => ite_self none) _
  | check => rfl

theorem filterMap_path?_settings (r : Request) (s : Switch) :
    r.settings.filterMap (Setting.path? s) = (r.path? s).toList := by
  simp only [settings, List.filterMap_append, filterMap_path?_wish,
    filterMap_held Setting.path? .elf (fun _ => rfl),
    filterMap_held Setting.path? .map (fun _ => rfl),
    filterMap_held_none (Setting.path? s) .start (fun _ => ite_self none),
    filterMap_held_none (Setting.path? s) .halt (fun _ => ite_self none),
    filterMap_held_none (Setting.path? s) .ignore (fun _ => ite_self none),
    filterMap_held_none (Setting.path? s) .toolchain (fun _ => ite_self none),
    filterMap_held_none (Setting.path? s) .timeout (fun _ => ite_self none)]
  cases s <;> simp [path?]

theorem filterMap_text?_settings (r : Request) (s : Switch) :
    r.settings.filterMap (Setting.text? s) = r.texts s := by
  simp only [settings, List.filterMap_append, filterMap_text?_wish,
    filterMap_held_none (Setting.text? s) .elf (fun _ => ite_self none),
    filterMap_held_none (Setting.text? s) .map (fun _ => ite_self none),
    filterMap_held Setting.text? .start (fun _ => rfl),
    filterMap_held Setting.text? .halt (fun _ => rfl),
    filterMap_held Setting.text? .ignore (fun _ => rfl),
    filterMap_held Setting.text? .toolchain (fun _ => rfl),
    filterMap_held_none (Setting.text? s) .timeout (fun _ => ite_self none)]
  cases s <;> simp [texts]

theorem filterMap_cycles?_settings (r : Request) :
    r.settings.filterMap Setting.cycles? = r.timeout.toList := by
  cases hw : r.wish <;>
    simp [settings, Wish.settings, hw, List.filterMap_map, Function.comp_def, Setting.cycles?]

theorem filterMap_format?_settings (r : Request) :
    r.settings.filterMap Setting.format? = r.wish.format?.toList := by
  cases hw : r.wish <;>
    simp [settings, Wish.settings, Wish.format?, hw, List.filterMap_map, Function.comp_def,
      Setting.format?]

variable {s : Switch} {o : Option String}

/-- What is given once is picked in whatever order the settings stand. -/
theorem Arranged.path?_eq (h : r.Arranged xs) (s : Switch) : Progress.path? ⟨xs, none⟩ s = r.path? s :=
  findSome?_of_perm h.perm (r.filterMap_path?_settings s)

theorem Arranged.text?_eq (h : r.Arranged xs) (ho : r.texts s = o.toList) :
    Progress.text? ⟨xs, none⟩ s = o :=
  findSome?_of_perm h.perm ((r.filterMap_text?_settings s).trans ho)

theorem Arranged.perm_texts (h : r.Arranged xs) (s : Switch) :
    (Progress.texts ⟨xs, none⟩ s).Perm (r.texts s) := by
  rw [← r.filterMap_text?_settings s]
  exact h.perm.filterMap (Setting.text? s)

/-! ## Reading a request -/

theorem Arranged.target_of_complete (h : r.Arranged xs) {elf map : Path} (helf : r.elf = some elf)
    (hmap : r.map = some map) (hhalts : r.halts ≠ []) :
    Progress.target ⟨xs, none⟩ = .ok ⟨elf, map, r.start.getD "main", r.halts,
      Progress.texts ⟨xs, none⟩ .ignore, (r.toolchain.map Toolchain.mk).getD .arm, r.timeout⟩ := by
  have hpelf : Progress.path? ⟨xs, none⟩ .elf = r.elf := h.path?_eq .elf
  have hpmap : Progress.path? ⟨xs, none⟩ .map = r.map := h.path?_eq .map
  have hpstart := h.text?_eq (s := .start) (o := r.start) rfl
  have hptoolchain := h.text?_eq (s := .toolchain) (o := r.toolchain) rfl
  have hptimeout := findSome?_of_perm h.perm r.filterMap_cycles?_settings
  have hphalts : Progress.texts ⟨xs, none⟩ .halt = r.halts := h.halts
  unfold Progress.target
  rw [hpelf, hpmap, hpstart, hptoolchain, hptimeout, hphalts, helf, hmap]
  simp [hhalts]

theorem Arranged.target_of_missing (h : r.Arranged xs)
    (hmissing : r.elf = none ∨ r.map = none ∨ r.halts = []) :
    Progress.target ⟨xs, none⟩ = .error .missingRequired := by
  have hpelf : Progress.path? ⟨xs, none⟩ .elf = r.elf := h.path?_eq .elf
  have hpmap : Progress.path? ⟨xs, none⟩ .map = r.map := h.path?_eq .map
  have hphalts : Progress.texts ⟨xs, none⟩ .halt = r.halts := h.halts
  unfold Progress.target
  rw [hpelf, hpmap, hphalts]
  rcases hmissing with hnone | hnone | hnone
  · rw [hnone]
  · rw [hnone]
    cases r.elf <;> rfl
  · rw [hnone]
    cases r.elf <;> cases r.map <;> rfl

theorem Arranged.action_eq (h : r.Arranged xs) :
    Progress.action ⟨xs, none⟩ r.wish.subcommand =
      r.wish.action?.elim (.error .missingRequired) .ok := by
  have hpdir : Progress.path? ⟨xs, none⟩ .outDir = r.wish.outDir? := h.path?_eq .outDir
  have hpengine : Progress.path? ⟨xs, none⟩ .engine = r.wish.engine? := h.path?_eq .engine
  have hpformat := findSome?_of_perm h.perm r.filterMap_format?_settings
  cases hw : r.wish with
  | derive outDir format =>
    rw [hw] at hpdir hpformat
    show Except.ok (Action.derive _ _) = _
    rw [hpdir, hpformat]
    rfl
  | run engine =>
    rw [hw] at hpengine
    unfold Progress.action Wish.subcommand
    dsimp only
    rw [hpengine]
    cases engine <;> rfl
  | check => rfl

end Request

/-- A subcommand whose settings have all been taken in is quiet about how much is logged. -/
theorem invocation_tokens (h : ∀ x ∈ xs, x.Fits c) (honce : GivenOnce xs) :
    invocation .start c (xs.map Setting.token) =
      (Progress.target ⟨xs, none⟩ >>= fun target =>
        (Progress.action ⟨xs, none⟩ c).map fun action => ⟨false, false, target, action⟩) := by
  have hhas (s : Switch) (hs : s.takesValue = false) : Progress.has ⟨xs, none⟩ s = false := by
    refine Bool.eq_false_iff.2 fun hhas => ?_
    obtain ⟨x, hx, rfl⟩ : ∃ x ∈ xs, x.switch = s := by simpa [Progress.has] using hhas
    exact Bool.false_ne_true (hs.symm.trans (h x hx).takesValue)
  have hscan := (scan_tokens givenOnce_nil h).1 honce
  have hstart : Progress.start = ⟨[], none⟩ := rfl
  have hquiet : Progress.checkConflict ⟨xs, none⟩ = .ok () := by
    rw [Progress.checkConflict, hhas .silent rfl]
    rfl
  have hverbose := hhas .verbose rfl
  have hsilent := hhas .silent rfl
  rw [List.nil_append] at hscan
  unfold invocation
  rw [hstart, hscan]
  show (Progress.checkConflict ⟨xs, none⟩ >>= fun _ => _) = _
  rw [hquiet]
  simp only [bind, Except.bind]
  cases Progress.target ⟨xs, none⟩ with
  | error refusal => rfl
  | ok target =>
    dsimp only
    cases Progress.action ⟨xs, none⟩ c with
    | error refusal => rfl
    | ok action =>
      simp only [hverbose, hsilent]
      rfl

/-- The options of a target are built from its names and its time limit. -/
theorem reflects_options (t : Target) : t.options.Reflects t.start
    [.halts t.halts, .ignores t.ignores, .timeout t.timeout] :=
  Options.Reflects.build t.start [.halts t.halts, .ignores t.ignores, .timeout t.timeout]

theorem firstNamed_options (t : Target) : FirstNamed t.options.halts t.halts := by
  have h := (reflects_options t).halts
  simpa [Options.haltsNamed, Options.Step.halted] using h

theorem isIgnored_options (t : Target) (n : String) :
    t.options.isIgnored n = true ↔ n ∈ t.ignores := by
  have h := (reflects_options t).ignores n
  simpa [Options.isIgnored, Options.ignoresNamed, Options.Step.ignored] using h

/-- A complete request is carried out as it is meant. -/
theorem Request.Arranged.read_of_complete {r : Request} (h : r.Arranged xs) (hr : r.Proper)
    (hcomplete : r.Complete) : ∃ i, read (r.line xs) = .ok i ∧ r.CarriedBy i := by
  obtain ⟨elf, helf⟩ := Option.ne_none_iff_exists'.1 hcomplete.elf
  obtain ⟨map, hmap⟩ := Option.ne_none_iff_exists'.1 hcomplete.map
  obtain ⟨action, haction⟩ := Option.ne_none_iff_exists'.1 hcomplete.action
  have hfits : ∀ x ∈ xs, x.Fits r.wish.subcommand := fun x hx => hr.fits x (h.perm.subset hx)
  have hread : read (r.line xs) = .ok ⟨false, false, ⟨elf, map, r.start.getD "main", r.halts,
      Progress.texts ⟨xs, none⟩ .ignore, (r.toolchain.map Toolchain.mk).getD .arm, r.timeout⟩,
      action⟩ := by
    rw [line, read_name, invocation_tokens hfits h.givenOnce,
      h.target_of_complete helf hmap hcomplete.halts, h.action_eq, haction]
    rfl
  refine ⟨_, hread, helf, hmap, rfl, rfl, h.perm_texts .ignore, ?_, rfl,
    haction, rfl, rfl⟩
  cases r.toolchain <;> rfl

/-- A request that leaves out what has no default is refused. -/
theorem Request.Arranged.read_of_not_complete {r : Request} (h : r.Arranged xs) (hr : r.Proper)
    (hincomplete : ¬ r.Complete) : read (r.line xs) = .error .missingRequired := by
  have hfits : ∀ x ∈ xs, x.Fits r.wish.subcommand := fun x hx => hr.fits x (h.perm.subset hx)
  rw [line, read_name, invocation_tokens hfits h.givenOnce]
  by_cases hmissing : r.elf = none ∨ r.map = none ∨ r.halts = []
  · rw [h.target_of_missing hmissing]
    rfl
  · -- the target is described, and so the engine is what is missing
    simp only [not_or] at hmissing
    obtain ⟨helf, hmap, hhalts⟩ := hmissing
    have haction : r.wish.action? = none := by
      refine Classical.byContradiction fun haction => hincomplete ⟨helf, hmap, hhalts, haction⟩
    obtain ⟨elf, helf⟩ := Option.ne_none_iff_exists'.1 helf
    obtain ⟨map, hmap⟩ := Option.ne_none_iff_exists'.1 hmap
    rw [h.target_of_complete helf hmap hhalts, h.action_eq, haction]
    rfl

/-- An option that may be given once and is given again makes the line contradict itself, whatever else
    is on it. -/
theorem read_of_given_twice (h : ∀ x ∈ xs, x.Fits c) {s : Switch} (hs : s.repeatable = false)
    (htwice : 2 ≤ timesGiven xs s) :
    read (Path.ofText c.name :: xs.map Setting.token) = .error .conflict := by
  have hno : ¬ GivenOnce ([] ++ xs) := by
    intro honce
    have hle := honce s hs
    rw [List.nil_append] at hle
    omega
  have hscan := (scan_tokens givenOnce_nil h).2 hno
  have hstart : Progress.start = ⟨[], none⟩ := rfl
  rw [read_name]
  unfold invocation
  rw [hstart, hscan]
  rfl

/-- **The command line carries every request through unchanged.**  Each option is one argument behind the
    subcommand, in any order that keeps the halts in theirs, and may have any value: a name any text, a
    path any bytes but none at all.  A complete request is accepted with exactly its values, and the defaults for what it
    leaves out; the options of its target list the halts once each, by their first place, and ignore the
    names that are to be ignored.  A request that leaves out what has no default is refused as
    incomplete, and a line that gives again what may be given once is refused as contradictory. -/
theorem request_carried_through (r : Request) (xs : List Setting) (hr : r.Proper)
    (hxs : r.Arranged xs) :
    (r.Complete → ∃ i, read (r.line xs) = .ok i ∧ r.CarriedBy i ∧
      FirstNamed i.target.options.halts r.halts ∧
      (∀ n, i.target.options.isHalt n = true ↔ n ∈ r.halts) ∧
      (∀ n, i.target.options.isIgnored n = true ↔ n ∈ r.ignores) ∧
      i.target.options.start = r.start.getD "main" ∧ i.target.options.timeout = r.timeout) ∧
    (¬ r.Complete → read (r.line xs) = .error .missingRequired) ∧
    ∀ ys : List Setting, (∀ y ∈ ys, y.Fits r.wish.subcommand) →
      (∃ s : Switch, s.repeatable = false ∧ 2 ≤ timesGiven ys s) →
      read (Path.ofText r.wish.subcommand.name :: ys.map Setting.token) = .error .conflict := by
  refine ⟨fun hcomplete => ?_, hxs.read_of_not_complete hr, ?_⟩
  · obtain ⟨i, hread, hi⟩ := hxs.read_of_complete hr hcomplete
    have hhalts : FirstNamed i.target.options.halts r.halts := hi.halts ▸ firstNamed_options i.target
    refine ⟨i, hread, hi, hhalts, fun n => ?_, fun n => ?_, ?_, ?_⟩
    · exact (i.target.options.mem_haltSet n).trans (hhalts.mem_iff n)
    · rw [isIgnored_options, hi.ignores.mem_iff]
    · exact (reflects_options i.target).start_eq.trans hi.start
    · exact (reflects_options i.target).timeout_eq.trans hi.timeout
  · rintro ys hys ⟨s, hs, htwice⟩
    exact read_of_given_twice hys hs htwice

/-- Values that are empty, hold equals signs, look like options or are no text, in an order of their
    own. -/
theorem request_carried_through_run :
    let engine : Path := Path.ofText "-v" ++ [0xFF]
    let r : Request := ⟨some "a=b", some "--map", some "", ["--halt=x", "win", "--halt=x"], ["", "=i"],
      none, some 18446744073709551615, .run (some engine)⟩
    let xs : List Setting := [.halt "--halt=x", .timeout 18446744073709551615, .ignore "=i",
      .engine engine, .halt "win", .map "--map", .start "", .halt "--halt=x", .elf "a=b", .ignore ""]
    let line : List Bytes := ["run", "--halt=--halt=x", "--timeout=18446744073709551615", "--ignore==i",
      Path.ofText "--engine=" ++ engine, "--halt=win", "--map=--map", "--start=", "--halt=--halt=x",
      "--elf=a=b", "--ignore="]
    r.line xs = line ∧
    r.Proper ∧ r.Arranged xs ∧ r.Complete ∧
    (∃ i, read (r.line xs) = .ok i ∧ r.CarriedBy i ∧ FirstNamed i.target.options.halts r.halts) ∧
    read (Path.ofText "run" :: (xs ++ [Setting.elf "a=b"]).map Setting.token) = .error .conflict := by
  intro engine r xs line
  have hproper : r.Proper := ⟨by decide, by decide, nofun, by
    rintro engine hengine
    obtain rfl := Wish.run.inj hengine
    decide⟩
  have harranged : r.Arranged xs := ⟨by decide, rfl⟩
  have hcomplete : r.Complete := ⟨nofun, nofun, nofun, nofun⟩
  obtain ⟨haccepted, -, hrefused⟩ := request_carried_through r xs hproper harranged
  obtain ⟨i, hread, hi, hhalts, -⟩ := haccepted hcomplete
  refine ⟨by decide, hproper, harranged, hcomplete, ⟨i, hread, hi, hhalts⟩, ?_⟩
  refine hrefused (xs ++ [Setting.elf "a=b"]) (fun y hy => ?_) ⟨.elf, rfl, by decide⟩
  rcases List.mem_append.1 hy with hy | hy
  · exact hproper.fits y (harranged.perm.subset hy)
  · rw [List.mem_singleton.1 hy]
    exact ⟨rfl, by decide, fun _ => by decide⟩

end CommandLine
end FaultPlan
