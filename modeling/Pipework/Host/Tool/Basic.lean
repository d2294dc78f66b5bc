import Pipework.Host.Process
import Pipework.Host.Signal
import Pipework.Host.Tool.Options

/-!
# What the tools of the host have in common

A tool complains on its error output under the name by which it was called, and says by its exit
status whether it succeeded. Writing to a stream without a reader ends it.
-/

namespace Pipework.Host

namespace Spawn

variable (p : Spawn)

def name : String := p.args.headD ""

def path (name : String) : String := Path.below p.directory name

end Spawn

namespace Tool

def reason : Fault → String
  | .about _ cause => reason cause
  | .noEntry => "No such file or directory"
  | .plain text => text.capitalize
  | _ => "Input/output error"

def write (data : Bytes) : Task Unit := do
  if (← Task.perform (.write .out data)).isSome then throw Signal.brokenPipe

def writeLine (text : String) : Task Unit := write (utf8 (text ++ "\n"))

def complainOf (p : Spawn) (data : Bytes) : Task Unit := do
  let refused ← Task.perform (.write .err (utf8 (p.name ++ ": ") ++ data ++ [10]))
  if refused.isSome then throw Signal.brokenPipe

def complain (p : Spawn) (text : String) : Task Unit := complainOf p (utf8 text)

def exit (code : Nat) : Task Unit := if code = 0 then pure () else throw (.exited code)

def seeHelp (p : Spawn) (text : String) (code : Nat) : Task Unit := do
  complain p (text ++ "\nTry '" ++ p.name ++ " --help' for more information.")
  exit code

def withArguments (p : Spawn) (flags : List Flag) (mixed : Bool) (code : Nat)
    (body : Arguments → Task Unit) : Task Unit :=
  match Arguments.ofList flags mixed p.args.tail with
  | .ok arguments => body arguments
  | .error refused => seeHelp p refused.message code

def files (p : Spawn) (request : String → FileRequest) (name : String) : Task (Except Fault Feed) :=
  Task.perform (.files .host (request (p.path name)))

/-- Does `step` for each name, and fails with `code` in the end if one of the steps failed. -/
def forEach (code : Nat) (step : String → Task Bool) (names : List String) : Task Unit := do
  exit (if ← steps names then 0 else code)
where
  steps : List String → Task Bool
    | [] => pure true
    | name :: names => do
      let succeeded ← step name
      return (← steps names) && succeeded

/-- Runs `body` on the file `name` in place of the input, which `-` stands for. -/
def onFile (p : Spawn) (refusal : String → String) (body : Task Bool) (name : String) :
    Task Bool := do
  if name = "-" then body
  else match ← files p .read name with
    | .ok feed => Program.feeding body feed
    | .error fault =>
      complain p (refusal name ++ ": " ++ reason fault)
      return false

def number? (s : String) : Option Nat :=
  let digits := s.toList
  if digits ≠ [] && digits.all Char.isDigit then
    some (digits.foldl (fun n d => 10 * n + (d.toNat - 48)) 0)
  else none

end Tool

end Pipework.Host
