import Pipework.Builtin.Standard

/-!
# Mocks as builtins

A mock that is registered under a command name reads its input, unless that is the input of the
host, records the call, and then gives what it has been told to give. Of the functions that a mock
can be told to call, these are the ones that a `Reaction` describes: they pass the input on, write,
and fail. The theory uses no more of them than that they leave the mocks alone.
-/

namespace Pipework.Builtin

/-- Gives `response`, and keeps its text if the queue is to repeat it. -/
def respond (name : String) (response : Response) (capture : Option Pattern) : Task Unit := do
  if response.text ≠ [] then Task.write .out response.text
  Task.check response.fault
  match capture with
  | none => pure ()
  | some pattern =>
    let _ ← Task.perform (.consult name fun m => (m.capture pattern response.text, .nothing))

/-- Does what the mock was told; `got` is the input, if it has been read. -/
def react (reaction : Reaction) (got : Option Bytes) : Task Unit := do
  if reaction.passInput then
    match got with
    | some [] => pure ()
    | some data => Task.write .out data
    | none => Task.relay
  Task.write .out reaction.text
  Task.check reaction.fault

def mock (name : String) (p : Proc) : Task Unit := do
  let got ← if p.hostInput then pure none else some <$> Task.readAll
  let call : Call := ⟨p.args, p.env, got.filter (· ≠ [])⟩
  match ← Task.perform (.consult name (·.receive call)) with
  | .nothing => pure ()
  | .handler reaction => react reaction got
  | .response response capture => respond name response capture

end Pipework.Builtin
