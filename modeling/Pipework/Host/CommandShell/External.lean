import Pipework.Host.CommandShell.State

/-!
# Programs run by the command shell

A command that the shell does not know is a program of the host. The shell looks for it on the
search path, and says what killed it.
-/

namespace Pipework.Host.CommandShell

def endingOf : Except Fault Unit → Ending
  | .ok () => .exited 0
  | .error (.exited code) => .exited code.toNat
  | .error fault => .killed fault

/-- The state after a program that ended so. The shell says what killed it, unless that was an
interrupt or a pipe without a reader. -/
def afterProgram (s : State) : Ending → Program State
  | .exited code => pure (s.after code)
  | .killed fault => do
    let number := Signal.numberOf fault
    if number ≠ 2 && number ≠ 13 then say .err (Signal.describe number ++ "\n")
    return s.after (128 + number)

def loadProgram (s : State) (path : String) : Program (Except Fault Bytes) := do
  match ← Program.perform (.files .host (.load (Path.below s.directory path))) with
  | .ok feed => return .ok feed.ready
  | .error fault => return .error fault

def searchProgram (s : State) (name : String) :
    List String → Program (Except Fault (String × Bytes))
  | [] => pure (.error .noEntry)
  | dir :: dirs => do
    let path := Path.join dir name
    match ← loadProgram s path with
    | .ok data => return .ok (path, data)
    | .error _ => searchProgram s name dirs

def findProgram (s : State) (name : String) : Program (Except Fault (String × Bytes)) := do
  if name.toList.contains '/' then return (← loadProgram s name).map (name, ·)
  else
    searchProgram s name (searchPath ((s.vars.find? "PATH").getD ""))

def refuseProgram (name : String) (fault : Fault) (line : Nat) (s : State) : Program Ending := do
  let isMissing := fault.mentions .notExist
  let why := if isMissing then "not found" else Tool.reason fault
  let _ ← complain s line (name ++ ": " ++ why)
  return .exited (if isMissing then 127 else 126)

/-- Runs a program of the host. A file that is neither a program nor asks for one is a script.
Complaints are about the program as `shown` says. -/
def Machine.external (m : Machine) (args : List String) (shown : String) (line : Nat) (s : State) :
    Program Ending := do
  if args.headD "" = "" then
    let _ ← complain s line (shown ++ ": Permission denied")
    return .exited 127
  match ← findProgram s (args.headD "") with
  | .error fault => refuseProgram shown fault line s
  | .ok (path, data) =>
    let spawn : Spawn := ⟨args, s.environment, s.directory⟩
    match ← interpret (loadProgram s) m.programs maxInterpreters path data spawn with
    | .ok task => return endingOf (← task.run)
    | .error fault =>
      match if fault = noProgram then m.programs.lookup "sh" else none with
      | some sh => return endingOf (← (sh { spawn with args := "sh" :: path :: args.tail }).run)
      | none => refuseProgram shown fault line s

end Pipework.Host.CommandShell
