/-
  What commands print.

  A configuration is printed as its lines, each with a line feed (`OutputFormat.render`), and a stream
  that takes all of it shows just that (`OutputFormat.shown_requests`).  A failure passes on what a
  failed tool printed, or a beginning of it, and nothing else (`Host.shown_passOn`).  What an invocation
  reports is what its command reports, with the log as far as it is let through.
-/
import FaultPlan.Command.Commands
import FaultPlan.Proofs.Command.Streams

namespace FaultPlan

variable {h : Host} {i : Invocation} {filter : LogFilter} {outDir engine : Path}
  {format : OutputFormat} {f : Failure} {r : Report}

/-! ## Printed configurations -/

/-- The text that a configuration is printed as. -/
def OutputFormat.render (format : OutputFormat) (c : Configuration) : String :=
  String.join ((format.linesOf c).map (· ++ "\n"))

theorem optionLines_ne_nil {token : String} {rest : List String} :
    optionLines (token :: rest) ≠ [] := by
  unfold optionLines
  split
  · split <;> nofun
  · nofun

namespace OutputFormat

theorem linesOf_ne_nil (format : OutputFormat) (c : Configuration) : format.linesOf c ≠ [] := by
  cases format with
  | line => nofun
  | lines =>
    have harguments : c.arguments = "--start" :: c.arguments.tail := rfl
    rw [linesOf, harguments]
    exact optionLines_ne_nil

/-- A configuration is printed with a line feed at its end. -/
theorem render_eq_append_feed (format : OutputFormat) (c : Configuration) :
    ∃ text, format.render c = text ++ "\n" := by
  obtain ⟨before, last, hlines⟩ :=
    List.eq_nil_or_concat (format.linesOf c) |>.resolve_left (format.linesOf_ne_nil c)
  refine ⟨String.join (before.map (· ++ "\n")) ++ last, ?_⟩
  rw [render, hlines]
  simp [String.append_assoc]

/-- The requests to print a configuration write its text. -/
theorem written_requests (format : OutputFormat) (c : Configuration) :
    Request.written (format.requests c) = Utf8.encode (format.render c) := by
  rw [requests, render]
  induction format.linesOf c with
  | nil => rfl
  | cons line rest ih =>
    rw [List.flatMap_cons, Request.written_append, ih, List.map_cons, String.join_cons,
      Utf8.encode_append, Utf8.encode_append]
    simp [Request.written, Request.text, Request.bytes]

/-- **A configuration that can be printed is printed** as a whole. -/
theorem shown_requests (format : OutputFormat) (c : Configuration) {s : Stream}
    (h : Untroubled s.fault? (format.requests c)) :
    s.shown (s.attempt [] (format.requests c)).1 = Utf8.encode (format.render c) := by
  obtain ⟨text, htext⟩ := format.render_eq_append_feed c
  have hwritten := format.written_requests c
  rw [← hwritten]
  rw [htext] at hwritten
  exact Stream.shown_of_settled h (Request.settled_of_feed hwritten)

/-- However printing ends, what comes through is a beginning of the text. -/
theorem shown_prefix (format : OutputFormat) (c : Configuration) (s : Stream) :
    s.shown (s.attempt [] (format.requests c)).1 <+: Utf8.encode (format.render c) := by
  rw [← format.written_requests c]
  exact Stream.shown_attempt s.untroubled_nil _

end OutputFormat

/-! ## What is passed on -/

/-- What a failure has to pass on to the standard output: what a failed tool printed there. -/
def Failure.output : Failure → String
  | .toolFailed g => g.stdout
  | _ => ""

namespace Host

/-- The standard output of a failed tool is passed on first; if that fails, nothing follows it. -/
theorem passOn_toolFailed (h : Host) (g : ToolFailure) : h.passOn (.toolFailed g) =
    match h.stdout.attempt [] [.text g.stdout, .flush] with
    | (out, .error cause) => ⟨out, [], [unprinted cause]⟩
    | (out, .ok ()) =>
      match h.stderr.attempt [] [.text g.stderr, .flush] with
      | (err, .error cause) => ⟨out, err, [unprinted cause]⟩
      | (err, .ok ()) => ⟨out, err, []⟩ := by
  rw [passOn, passThrough]
  rcases h.stdout.attempt [] [.text g.stdout, .flush] with ⟨out, cause | ⟨⟩⟩
  · rfl
  · rcases h.stderr.attempt [] [.text g.stderr, .flush] with ⟨err, cause | ⟨⟩⟩ <;> rfl

/-- What is passed on is what a failed tool printed, or a beginning of it. -/
theorem shown_passOn (h : Host) (f : Failure) :
    h.stdout.shown (h.passOn f).stdout <+: Utf8.encode f.output := by
  cases f with
  | toolFailed g =>
    have hout : (h.passOn (.toolFailed g)).stdout =
        (h.stdout.attempt [] [.text g.stdout, .flush]).1 := by
      rw [passOn_toolFailed]
      rcases h.stdout.attempt [] [.text g.stdout, .flush] with ⟨out, cause | ⟨⟩⟩
      · rfl
      · rcases h.stderr.attempt [] [.text g.stderr, .flush] with ⟨err, cause | ⟨⟩⟩ <;> rfl
    rw [hout]
    exact (h.stdout.shown_flushed g.stdout).1
  | _ =>
    show h.stdout.shown [] <+: _
    rw [h.stdout.shown_nil]
    exact List.nil_prefix

end Host

/-! ## Invocations -/

namespace Report

variable {keep : LogRecord → Bool}

@[simp] theorem logged_exit : (r.logged keep).exit = r.exit := rfl
@[simp] theorem logged_calls : (r.logged keep).calls = r.calls := rfl
@[simp] theorem logged_files : (r.logged keep).files = r.files := rfl

end Report

namespace Host

theorem executeUnder_of_derive (h : Host) (filter : LogFilter) (hi : i.action = .derive outDir format) :
    h.executeUnder filter i = (h.derive i.target outDir format).logged (filter i.level) := by
  rw [executeUnder, hi]

theorem executeUnder_of_run (h : Host) (filter : LogFilter) (hi : i.action = .run engine) :
    h.executeUnder filter i = (h.run i.target engine).logged (filter i.level) := by
  rw [executeUnder, hi]

end Host
end FaultPlan
