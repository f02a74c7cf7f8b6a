/-
  The looks of an argument.

  An argument is one of four kinds, by its first two bytes (`Argument.ofBytes_cases`).  A long one ends its
  name at the first equals sign.  The names of switches hold none, so that a switch is found again in its
  argument, alone or with any value behind it (`ofBytes_long`, `ofBytes_long_value`).
-/
import FaultPlan.CommandLine.Reading
import FaultPlan.Proofs.Text.Decoding

namespace FaultPlan.CommandLine

namespace Switch

/-- The argument that is a switch by its long name. -/
def argument (s : Switch) : Bytes := Path.ofText ("--" ++ s.long)

theorem argument_eq (s : Switch) : s.argument = dash :: dash :: Utf8.encode s.long := by
  rw [argument, Path.ofText_append]
  rfl

theorem long_no_equals (s : Switch) : ∀ b ∈ Utf8.encode s.long, (b != equals) = true := by
  have hall : ((Utf8.encode s.long).all (· != equals)) = true := by cases s <;> decide
  exact List.all_eq_true.1 hall

theorem long_ne_nil (s : Switch) : Utf8.encode s.long ≠ [] := by
  cases s <;> decide

/-- The name of a switch ends where a value is set off. -/
theorem takeWhile_long (s : Switch) (rest : Bytes) :
    (Utf8.encode s.long ++ rest).takeWhile (· != equals) =
      Utf8.encode s.long ++ rest.takeWhile (· != equals) :=
  List.takeWhile_append_of_pos s.long_no_equals

theorem dropWhile_long (s : Switch) (rest : Bytes) :
    (Utf8.encode s.long ++ rest).dropWhile (· != equals) = rest.dropWhile (· != equals) :=
  List.dropWhile_append_of_pos s.long_no_equals

end Switch

namespace Argument

theorem ofBytes_cases (arg : Bytes) :
    (arg = [dash, dash] ∧ ofBytes arg = .escape) ∨
    (∃ rest, rest ≠ [] ∧ arg = dash :: dash :: rest ∧ ofBytes arg = .ofLong rest) ∨
    (∃ letters, letters ≠ [] ∧ letters.head? ≠ some dash ∧ arg = dash :: letters ∧
      ofBytes arg = .short letters) ∨
    ((∀ b rest, arg ≠ dash :: b :: rest) ∧ ofBytes arg = .plain) := by
  cases arg with
  | nil => exact Or.inr (Or.inr (Or.inr ⟨by simp, rfl⟩))
  | cons first tail =>
    cases tail with
    | nil => exact Or.inr (Or.inr (Or.inr ⟨by simp, rfl⟩))
    | cons second rest =>
      by_cases hfirst : first = dash
      · by_cases hsecond : second = dash
        · cases rest with
          | nil => exact Or.inl ⟨by rw [hfirst, hsecond], by simp [ofBytes, hfirst, hsecond]⟩
          | cons b rest =>
            refine Or.inr (Or.inl ⟨b :: rest, by simp, by rw [hfirst, hsecond], ?_⟩)
            simp [ofBytes, hfirst, hsecond]
        · refine Or.inr (Or.inr (Or.inl ⟨second :: rest, by simp, by simpa using hsecond,
            by rw [hfirst], ?_⟩))
          simp [ofBytes, hfirst, hsecond]
      · refine Or.inr (Or.inr (Or.inr ⟨fun b rest' h => hfirst (List.cons.inj h).1, ?_⟩))
        simp [ofBytes, hfirst]

theorem ofBytes_eq_ofLong {rest : Bytes} (hne : rest ≠ []) :
    ofBytes (dash :: dash :: rest) = .ofLong rest := by
  simp [ofBytes, hne]

theorem ofBytes_long (s : Switch) : ofBytes s.argument = .long (Utf8.encode s.long) none := by
  have htake := s.takeWhile_long []
  have hdrop := s.dropWhile_long []
  rw [List.append_nil] at htake hdrop
  rw [s.argument_eq, ofBytes_eq_ofLong s.long_ne_nil, ofLong, htake, hdrop]
  simp

/-- Whatever stands behind the first equals sign is the value, further equals signs included. -/
theorem ofBytes_long_value (s : Switch) (value : Bytes) :
    ofBytes (s.argument ++ equals :: value) = .long (Utf8.encode s.long) (some value) := by
  rw [s.argument_eq, List.cons_append, List.cons_append, ofBytes_eq_ofLong (by simp), ofLong,
    s.takeWhile_long, s.dropWhile_long]
  simp

/-- A long argument is the bare name of a switch only if it has nothing else in it. -/
theorem of_ofLong_eq_long {s : Switch} {rest : Bytes}
    (h : ofLong rest = .long (Utf8.encode s.long) none) : rest = Utf8.encode s.long := by
  unfold ofLong at h
  obtain ⟨hname, hvalue⟩ := long.inj h
  have hdrop : rest.dropWhile (· != equals) = [] := by
    split at hvalue
    · next hnil => exact hnil
    · nomatch hvalue
  have hsplit := List.takeWhile_append_dropWhile (p := (· != equals)) (l := rest)
  rw [hdrop, List.append_nil] at hsplit
  rw [← hname, hsplit]

end Argument
end FaultPlan.CommandLine
