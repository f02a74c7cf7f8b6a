/-
  Streams: where the output of a command goes.

  A command makes requests of a stream, to write some bytes or to pass on what was written.  Any of
  them may fail, and a write may fail when a part of its bytes has come through already.  What a
  stream makes of a row of requests is left open, but for a few laws.  As long as no request fails
  nothing is lost or made up: what has come through is a beginning of what was written, and all of it
  once the stream has been flushed or a line has been ended.  And nothing fails before there is
  something to be written.
-/
import FaultPlan.Files.Fault
import FaultPlan.Text.Utf8

namespace FaultPlan

/-- What is asked of a stream. -/
inductive Request where
  | write (bytes : Bytes)
  | flush
  deriving DecidableEq, Repr

namespace Request

/-- The request to write a text. -/
def text (text : String) : Request := .write (Utf8.encode text)

def bytes : Request → Bytes
  | .write bytes => bytes
  | .flush => []

/-- All that is to be written by the requests. -/
def written (requests : List Request) : Bytes := requests.flatMap bytes

/-- After these requests the stream is flushed, or at the end of a line. -/
def Settled (requests : List Request) : Prop :=
  requests.getLast? = some .flush ∨ (written requests).getLast? = some 0x0A

end Request

/-- None of the requests fails, where they are made in order. -/
def Untroubled (fault? : List Request → Option IoFault) (requests : List Request) : Prop :=
  ∀ made, made <+: requests → fault? made = none

structure Stream where
  /-- What comes through if these requests are made and no more. -/
  shown : List Request → Bytes
  /-- The fault of the last of these requests, if it fails. -/
  fault? : List Request → Option IoFault
  shown_nil : shown [] = []
  shown_prefix : ∀ requests last, Untroubled fault? requests →
    shown (requests ++ [last]) <+: Request.written (requests ++ [last])
  shown_all : ∀ requests, Untroubled fault? requests → Request.Settled requests →
    shown requests = Request.written requests
  untroubled_empty : ∀ requests, Request.written requests = [] → fault? requests = none

namespace Stream

/-- Further requests are made in order, up to the first that fails. -/
def attempt (s : Stream) : (made : List Request) → List Request → List Request × Except IoFault Unit
  | made, [] => (made, .ok ())
  | made, request :: rest =>
    match s.fault? (made ++ [request]) with
    | some fault => (made ++ [request], .error fault)
    | none => s.attempt (made ++ [request]) rest

/-! ## Streams that are known -/

/-- Everything comes through. -/
def endless : Stream where
  shown := Request.written
  fault? _ := none
  shown_nil := rfl
  shown_prefix _ _ _ := List.prefix_refl _
  shown_all _ _ _ := rfl
  untroubled_empty _ _ := rfl

/-- There is room for so many bytes. -/
def ofRoom (room : Nat) : Stream where
  shown requests := (Request.written requests).take room
  fault? requests := if room < (Request.written requests).length then some .noSpace else none
  shown_nil := by simp [Request.written]
  shown_prefix _ _ _ := List.take_prefix _ _
  shown_all requests h _ := by
    have hroom : ¬ room < (Request.written requests).length := by
      simpa using h requests (List.prefix_refl _)
    exact List.take_of_length_le (Nat.not_lt.1 hroom)
  untroubled_empty requests h := by simp [h]

end Stream
end FaultPlan
