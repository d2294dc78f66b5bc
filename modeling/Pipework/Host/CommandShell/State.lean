import Pipework.Host.CommandShell.Basic
import Pipework.Host.Tool.Basic
import Pipework.Plumbing

/-!
# The state of the command shell

The shell keeps variables, functions, a directory, its streams and the status of the last command,
and knows whether it goes on with the next one. Scripts within a script, and the bodies of
functions, are run by a machine for one level less.
-/

namespace Pipework.Host.CommandShell

inductive Ending where
  | exited (code : Nat)
  | killed (fault : Fault)
deriving DecidableEq, Repr

/-- How the shell goes on after a command. Loops are counted from the innermost. -/
inductive Flow where
  | onward
  | breaking (loops : Nat)
  | continuing (loops : Nat)
  | returning
  | ended (ending : Ending)
deriving DecidableEq, Repr

structure Options where
  errexit : Bool
  nounset : Bool
  xtrace : Bool
  noglob : Bool
deriving DecidableEq, Repr

structure Job where
  number : Nat
  body : Node
  args : List String
  vars : Table
  directory : String

structure State where
  name : String
  label : String
  args : List String
  vars : Table
  exported : List String
  fixed : List String
  functions : List (String × Node)
  traps : Table
  options : Options
  /-- What the functions at work have to put back in the end, the innermost first. -/
  frames : List (List (String × Option String))
  loops : Nat
  directory : String
  streams : Plumbing
  isPiped : Bool
  subject : List Char
  status : Nat
  leaving : Option Nat
  /-- The status of the last script that was run for its output within the command. -/
  captured : Nat
  jobs : List Job
  finished : List (Nat × Nat)
  flow : Flow

namespace State

def processNumber : Nat := 4242

def lastJob (s : State) : Nat := processNumber + s.jobs.length + s.finished.length

def value? (s : State) (name : String) : Option String :=
  match name with
  | "?" => some (toString s.status)
  | "$" => some (toString processNumber)
  | "!" => if s.lastJob = processNumber then none else some (toString s.lastJob)
  | "#" => some (toString s.args.length)
  | "-" => some ""
  | "@" | "*" => if s.args = [] then none else some (" ".intercalate s.args)
  | "0" => some s.name
  | _ =>
    match Tool.number? name with
    | some n => s.args[n - 1]?
    | none => s.vars.find? name

def assign (s : State) (name value : String) : State :=
  { s with vars := s.vars.insert name value }

def shelf (name : String) : Nat :=
  let bytes := (utf8 name).map UInt8.toNat
  bytes.foldl (· + ·) (16 * bytes.headD 0) % 39

def environment (s : State) : Table :=
  (s.vars.filter fun (name, _) => s.exported.contains name).mergeSort
    fun (a, _) (b, _) => decide (shelf a ≤ shelf b)

def separators (s : State) : List Char := ((s.vars.find? "IFS").getD " \t\n").toList

def after (s : State) (status : Nat) : State := { s with status := status }

def ended (s : State) (ending : Ending) : State := { s with flow := .ended ending }

def exiting (s : State) (status : Nat) : State := (s.after status).ended (.exited status)

def isOnward (s : State) : Bool := s.flow = .onward

def settled (s : State) (tested : Bool) : State :=
  if s.options.errexit && !tested && s.isOnward && s.status ≠ 0 then s.exiting s.status else s

def inside (s : State) : State := { s with streams := .straight }

def forked (s : State) : State :=
  { s with
    streams := .straight
    traps := s.traps.filter fun (_, action) => action = ""
    jobs := []
    finished := [] }

/-- The state after a shell of its own ended in the state `inner`. The number of its process is
that of the shell, so what killed the process there killed the shell. -/
def afterApart (s inner : State) : State :=
  match inner.flow with
  | .ended (.exited code) => s.after code
  | .ended (.killed fault) =>
    if fault = Signal.brokenPipe then s.after (128 + Signal.numberOf fault)
    else s.ended (.killed fault)
  | _ => s.after inner.status

/-- The state after a command for which the streams were `p` in the end. A command with an input
of its own leaves that of the shell alone. -/
def withStreams (s : State) (ownInput : Bool) (p : Plumbing) (after : State) : State :=
  { after with
    streams :=
      { s.streams with
        input := if ownInput then s.streams.input else p.input
        files := p.files.take s.streams.files.length } }

end State

/-- What a shell needs to run programs, scripts within scripts, and functions. The failure of what
is `tested` does not end the shell. -/
structure Machine where
  programs : Programs
  nested : (line : Nat) → List Char → (tested : Bool) → State → Program State
  call : Node → (tested : Bool) → State → Program State

def say (channel : Channel) (text : String) : Program Unit := do
  let _ ← Program.perform (.write channel (utf8 text))

def onStreams (s : State) (body : Program Unit) : Program State := do
  if s.streams = .straight then
    body
    return s
  else
    let (_, p) ← body.through s.streams
    return s.withStreams false p s

def report (s : State) (line : Nat) (text : String) : Program State :=
  onStreams s (say .err (s.name ++ ": " ++ toString line ++ ": " ++ text ++ "\n"))

def complain (s : State) (line : Nat) (text : String) : Program State :=
  report s line (s.label ++ text)

end Pipework.Host.CommandShell
