import Pipework.Host.Tool.Basic

/-!
# Tools on processes

`pwd` and `printenv` show what a process was started with, and `sleep` waits.
-/

namespace Pipework.Host.Tool

def printenv (p : Spawn) : Task Unit :=
  withArguments p [⟨'0', "null", false⟩] false 2 fun a => do
    let mark := if a.has '0' then "\x00" else "\n"
    match a.operands with
    | [] => write (utf8 (String.join (p.env.map fun (k, v) => k ++ "=" ++ v ++ mark)))
    | keys =>
      let values := keys.filterMap fun key => Table.find? key p.env
      write (utf8 (String.join (values.map (· ++ mark))))
      exit (if values.length = keys.length then 0 else 1)

def pwd (p : Spawn) : Task Unit :=
  withArguments p [⟨'L', "logical", false⟩, ⟨'P', "physical", false⟩] true 1 fun a => do
    if a.operands ≠ [] then complain p "ignoring non-option arguments"
    match ← files p .isDirectory "." with
    | .ok _ => writeLine (Path.clean p.directory)
    | .error _ =>
      complain p "couldn't find directory entry in '..' with matching i-node"
      exit 1

def isNoTime? (t : String) : Option Bool :=
  let digits := t.toList.takeWhile fun c => c.isDigit || c = '.'
  let unit := String.ofList (t.toList.drop digits.length)
  if digits.any Char.isDigit && digits.count '.' ≤ 1 && ["", "s", "m", "h", "d"].contains unit then
    some (digits.all fun c => c = '0' || c = '.')
  else none

/-- Waits. How long is left open: the wait ends when the process is stopped or when nothing else
can go on. -/
def sleep (p : Spawn) : Task Unit :=
  withArguments p [] true 1 fun a => do
    let wrong := a.operands.filter fun t => isNoTime? t = none
    if a.operands = [] then seeHelp p "missing operand" 1
    else if wrong ≠ [] then
      let texts := wrong.map fun t => "invalid time interval " ++ quotedText t
      seeHelp p (("\n" ++ p.name ++ ": ").intercalate texts) 1
    else if a.operands.all fun t => isNoTime? t = some true then pure ()
    else Task.perform .pause

end Pipework.Host.Tool
