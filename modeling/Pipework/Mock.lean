import Pipework.Table
import Pipework.Fault

/-!
# Mock commands

A mock stands in for a command. It keeps a record of its calls and answers each by the handler
with the longest pattern that the arguments of the call begin with. A handler is either a queue of
responses or something else, which is left open here. The last response of a queue is repeated
once it has been given in full.
-/

namespace Pipework

abbrev Pattern := List String

structure Call where
  args : List String
  env : Table
  /-- What the call was given as input, if that was not the input of the host and not empty. -/
  got : Option Bytes
deriving DecidableEq, Repr

structure Response where
  text : Bytes
  fault : Option Fault
deriving DecidableEq, Repr

inductive Handler (α : Type) where
  | queue
  | other (handler : α)
deriving DecidableEq, Repr

structure Mock (α : Type) where
  calls : List Call
  responses : List (Pattern × List Response)
  captured : List (String × Bytes)
  handlers : List (Pattern × Handler α)

namespace Mock

variable {α : Type}

def empty : Mock α := ⟨[], [], [], []⟩

/-- Captured texts are kept under the arguments of the pattern joined by zero characters. -/
def key (pattern : Pattern) : String :=
  if pattern = [] then "<default>" else "\x00".intercalate pattern

def assign {κ β : Type} [DecidableEq κ] (k : κ) (v : β) : List (κ × β) → List (κ × β)
  | [] => [(k, v)]
  | (k', v') :: rest => if k' = k then (k, v) :: rest else (k', v') :: assign k v rest

def register (m : Mock α) (handler : Handler α) (pattern : Pattern) : Mock α :=
  { m with handlers := assign pattern handler m.handlers }

/-- Queues `response` for calls that begin with `pattern`. The first response for a pattern
registers its queue. A response that comes when the last one is being repeated takes its place. -/
def enqueue (m : Mock α) (response : Response) (pattern : Pattern) : Mock α :=
  match m.responses.lookup pattern with
  | none =>
    { m with responses := m.responses ++ [(pattern, [response])] }.register .queue pattern
  | some queue =>
    if (m.captured.lookup (key pattern)).isSome then
      { m with
        captured := m.captured.filter (·.1 ≠ key pattern)
        responses := assign pattern [response] m.responses }
    else { m with responses := assign pattern (queue ++ [response]) m.responses }

/-- The registered pattern that serves a call with `args`: the longest that `args` begins with, and
of several the one registered first. -/
def dispatch (m : Mock α) (args : List String) : Option (Pattern × Handler α) :=
  m.handlers.foldl (fun best candidate =>
    if candidate.1.isPrefixOf args
        && (match best with
          | none => true
          | some (pattern, _) => pattern.length < candidate.1.length) then
      some candidate
    else best) none

inductive Answer (α : Type) where
  | nothing
  | handler (handler : α)
  | response (response : Response) (capture : Option Pattern)

/-- Takes a response from the queue of `pattern`. The last one stays, though its text is gone: it
is copied in one part, as a text of up to 32 KiB is. Of a longer one, a refused write would leave
the parts that had not been read. -/
def serve (m : Mock α) (pattern : Pattern) : Mock α × Answer α :=
  match m.captured.lookup (key pattern) with
  | some text => (m, .response ⟨text, none⟩ none)
  | none =>
    match m.responses.lookup pattern with
    | none | some [] => (m, .nothing)
    | some [last] =>
      ({ m with responses := assign pattern [{ last with text := [] }] m.responses },
        .response last (some pattern))
    | some (next :: rest) =>
      ({ m with responses := assign pattern rest m.responses }, .response next none)

def receive (m : Mock α) (call : Call) : Mock α × Answer α :=
  let m := { m with calls := m.calls ++ [call] }
  match m.dispatch call.args with
  | none => (m, .nothing)
  | some (pattern, .queue) => m.serve pattern
  | some (_, .other handler) => (m, .handler handler)

def capture (m : Mock α) (pattern : Pattern) (text : Bytes) : Mock α :=
  { m with captured := assign (key pattern) text m.captured }

def callsLike (m : Mock α) (pattern : Pattern) : List Call :=
  m.calls.filter fun call => pattern.isPrefixOf call.args

end Mock

end Pipework
