/-
  What comes through of requests that are made in order.

  The requests are made up to the first that fails, so that none before it has failed: `Untroubled` is
  the invariant of the attempt (`Stream.attempt_cases`).  From there the laws of a stream tell what it
  shows.  If all requests succeed and the last leaves nothing behind, this is all that was written
  (`Stream.shown_of_settled`); in every case it is a beginning of that (`Stream.shown_attempt`).
-/
import FaultPlan.Command.Stream
import FaultPlan.Proofs.Text.Decoding

namespace FaultPlan

open Request (written Settled)

/-! ## Requests -/

namespace Request

variable {requests requests' : List Request}

theorem written_append (requests requests' : List Request) :
    written (requests ++ requests') = written requests ++ written requests' := List.flatMap_append

theorem written_mono (h : requests <+: requests') : written requests <+: written requests' := by
  obtain ⟨rest, rfl⟩ := h
  rw [written_append]
  exact List.prefix_append _ _

theorem settled_of_feed {text : String} (h : written requests = Utf8.encode (text ++ "\n")) :
    Settled requests := by
  refine Or.inr ?_
  rw [h, Utf8.encode_append, List.getLast?_append]
  rfl

end Request

/-! ## Requests that succeed -/

section

variable {fault? : List Request → Option IoFault} {made requests : List Request} {request : Request}

theorem Untroubled.mono (h : Untroubled fault? requests) (hmade : made <+: requests) :
    Untroubled fault? made := fun _ hfirst => h _ (hfirst.trans hmade)

theorem untroubled_concat : Untroubled fault? (made ++ [request]) ↔
    Untroubled fault? made ∧ fault? (made ++ [request]) = none := by
  constructor
  · exact fun h => ⟨h.mono (List.prefix_append _ _), h _ (List.prefix_refl _)⟩
  · rintro ⟨hmade, hlast⟩ first hfirst
    rcases List.prefix_concat_iff.1 hfirst with rfl | hfirst
    · exact hlast
    · exact hmade first hfirst

end

namespace Stream

variable {s : Stream} {made requests : List Request}

/-- Requests to write nothing succeed. -/
theorem untroubled_of_empty (s : Stream) (h : written requests = []) : Untroubled s.fault? requests :=
  fun first hfirst => s.untroubled_empty first (List.prefix_nil.1 (h ▸ Request.written_mono hfirst))

theorem untroubled_nil (s : Stream) : Untroubled s.fault? [] := s.untroubled_of_empty rfl

/-- **An attempt** makes all requests, and none fails, or ends with the first that does. -/
theorem attempt_cases (h : Untroubled s.fault? made) (requests : List Request) :
    (s.attempt made requests = (made ++ requests, .ok ()) ∧ Untroubled s.fault? (made ++ requests)) ∨
    ∃ before last after fault, requests = before ++ last :: after ∧
      Untroubled s.fault? (made ++ before) ∧ s.fault? (made ++ before ++ [last]) = some fault ∧
      s.attempt made requests = (made ++ before ++ [last], .error fault) := by
  induction requests generalizing made with
  | nil =>
    rw [List.append_nil]
    exact Or.inl ⟨rfl, h⟩
  | cons request rest ih =>
    rw [attempt]
    cases hfault : s.fault? (made ++ [request]) with
    | some fault => exact Or.inr ⟨[], request, rest, fault, rfl, by rwa [List.append_nil],
        by rwa [List.append_nil], by rw [List.append_nil]⟩
    | none =>
      dsimp only
      rw [List.append_cons made request rest]
      rcases ih (untroubled_concat.2 ⟨h, hfault⟩) with
        hdone | ⟨before, last, after, fault, rfl, hbefore, hlast, hend⟩
      · exact Or.inl hdone
      · rw [← List.append_cons] at hbefore hlast hend
        exact Or.inr ⟨request :: before, last, after, fault, rfl, hbefore, hlast, hend⟩

/-- All requests are made exactly if none of them fails. -/
theorem attempt_eq_ok_iff (h : Untroubled s.fault? made) :
    (s.attempt made requests).2 = .ok () ↔ Untroubled s.fault? (made ++ requests) := by
  rcases attempt_cases h requests with ⟨hend, hall⟩ | ⟨before, last, after, fault, rfl, -, hfault, hend⟩
  · rw [hend]
    exact iff_of_true rfl hall
  · rw [hend]
    refine iff_of_false nofun fun hall => ?_
    have hfirst : made ++ before ++ [last] <+: made ++ (before ++ last :: after) :=
      ⟨after, by simp⟩
    nomatch hfault.symm.trans (hall _ hfirst)

theorem attempt_of_untroubled (h : Untroubled s.fault? (made ++ requests)) :
    s.attempt made requests = (made ++ requests, .ok ()) := by
  have hmade := h.mono (List.prefix_append made requests)
  rcases attempt_cases hmade requests with ⟨hend, -⟩ | ⟨_, _, _, fault, -, -, -, hend⟩
  · exact hend
  · have hok := (attempt_eq_ok_iff hmade).2 h
    rw [hend] at hok
    nomatch hok

/-- What comes through of requests of which at most the last fails is a beginning of what is
    written. -/
theorem shown_prefix_of (s : Stream) (last : Request) (h : Untroubled s.fault? requests)
    (hall : made = requests ∨ made = requests ++ [last]) : s.shown made <+: written made := by
  rcases hall with rfl | rfl
  · rcases List.eq_nil_or_concat made with rfl | ⟨before, last, rfl⟩
    · rw [s.shown_nil]
      exact List.nil_prefix
    · rw [List.concat_eq_append] at h ⊢
      exact s.shown_prefix before last (h.mono (List.prefix_append _ _))
  · exact s.shown_prefix requests last h

/-- **What comes through is a beginning of what was to be written**, however the attempt ends. -/
theorem shown_attempt (h : Untroubled s.fault? made) (requests : List Request) :
    s.shown (s.attempt made requests).1 <+: written (made ++ requests) := by
  rcases attempt_cases h requests with ⟨hend, hall⟩ | ⟨before, last, after, fault, rfl, hbefore, -, hend⟩
  · rw [hend]
    exact s.shown_prefix_of .flush hall (Or.inl rfl)
  · rw [hend]
    refine (s.shown_prefix_of last hbefore (Or.inr rfl)).trans (Request.written_mono ⟨after, ?_⟩)
    simp

/-- **All that was written comes through** if no request fails and the last leaves nothing behind. -/
theorem shown_of_settled (h : Untroubled s.fault? requests) (hsettled : Settled requests) :
    s.shown (s.attempt [] requests).1 = written requests := by
  have hall : Untroubled s.fault? ([] ++ requests) := h
  rw [attempt_of_untroubled hall]
  exact s.shown_all requests h hsettled

/-- A text that is flushed comes through, if neither request fails; otherwise a beginning of it does at
    most. -/
theorem shown_flushed (s : Stream) (text : String) :
    s.shown (s.attempt [] [.text text, .flush]).1 <+: Utf8.encode text ∧
      ((s.attempt [] [.text text, .flush]).2 = .ok () →
        Untroubled s.fault? [.text text, .flush] ∧
          (s.attempt [] [.text text, .flush]).1 = [.text text, .flush] ∧
          s.shown (s.attempt [] [.text text, .flush]).1 = Utf8.encode text) := by
  have hwritten : written [.text text, .flush] = Utf8.encode text := by
    simp [written, Request.text, Request.bytes]
  rw [← hwritten]
  refine ⟨shown_attempt s.untroubled_nil _, fun hok => ?_⟩
  have hall : Untroubled s.fault? ([] ++ [.text text, .flush]) :=
    (attempt_eq_ok_iff s.untroubled_nil).1 hok
  exact ⟨hall, congrArg Prod.fst (attempt_of_untroubled hall), shown_of_settled hall (Or.inl rfl)⟩

end Stream
end FaultPlan
