import Pipework.Builtin.Standard

/-!
# Builtins for trying out a shell

Each of these shows one thing that a builtin can see or do: fail in a given way, read and set
variables, tell its directory and arguments, write to either output, wait to be stopped, run
another builtin on broken input, and run a script of its own.
-/

namespace Pipework.Builtin

/-- The value of a decimal number with or without a sign, as far as it fits into 64 bits, and 0 for
anything else. -/
def number (s : String) : Int :=
  let value (digits : List Char) : Int :=
    if digits ≠ [] && digits.all Char.isDigit then
      (digits.foldl (fun n d => 10 * n + (d.toNat - 48)) 0 : Nat)
    else 0
  match s.toList with
  | '-' :: digits => max (-value digits) Int64.minValue.toInt
  | '+' :: digits => min (value digits) Int64.maxValue.toInt
  | digits => min (value digits) Int64.maxValue.toInt

def hexValue? (c : Char) : Option Nat :=
  if c.isDigit then some (c.toNat - 48)
  else if 'a' ≤ c && c ≤ 'f' then some (c.toNat - 87)
  else if 'A' ≤ c && c ≤ 'F' then some (c.toNat - 55)
  else none

def unhex? : List Char → Option Bytes
  | [] => some []
  | [_] => none
  | a :: b :: rest => do
    let high ← hexValue? a
    let low ← hexValue? b
    return UInt8.ofNat (16 * high + low) :: (← unhex? rest)

def lines (ls : List String) : Bytes := utf8 (String.join (ls.map (· ++ "\n")))

def printLines (ls : List String) : Task Unit :=
  if ls = [] then pure () else Task.tryWrite .out (lines ls)

def fail (p : Proc) : Task Unit := throw (.plain (" ".intercalate p.args.tail))

def failCode (p : Proc) : Task Unit := throw (.stage ⟨"", [], number (p.arg 1), p.arg 2⟩)

def failAs (p : Proc) : Task Unit := throw (.stage ⟨p.arg 1, [], number (p.arg 2), ""⟩)

def failWrapped (p : Proc) : Task Unit :=
  throw (.about "wrapped" (.stageOf ⟨"", [], number (p.arg 2), ""⟩ (.plain (p.arg 1))))

def setVariable (p : Proc) : Task Unit := Task.perform (.assign (p.arg 1) (p.arg 2))

def values (p : Proc) : List String → Task (List String)
  | [] => pure []
  | key :: keys => do return (← p.getenv key) :: (← values p keys)

def showVariables (p : Proc) : Task Unit := do printLines (← values p p.args.tail)

def say (p : Proc) : Task Unit := do
  printLines [p.arg 1]
  Task.tryWrite .err (lines [p.arg 2])
  if p.args.length > 3 then throw (.plain (p.arg 3))

def emit (p : Proc) : Task Unit :=
  match unhex? (p.arg 1).toList with
  | some data => Task.tryWrite .out data
  | none => throw (.plain "emit: bad hex")

def upper (_ : Proc) : Task Unit := do
  let (data, fault) ← Task.perform (.read .all)
  Task.tryWrite .out (data.map fun b => if 97 ≤ b && b ≤ 122 then b - 32 else b)
  Task.check fault

def block (_ : Proc) : Task Unit := do
  Task.perform .pause
  throw .canceled

def brokenInputName : String := "badin"

def brokenFeed : Feed := ⟨utf8 "part\n", [], true, some (.plain "bad input")⟩

/-- Runs the builtin named by the first argument on input that breaks off. Its own name among the
arguments changes nothing. -/
def onBrokenInput (find? : String → Option Builtin) (p : Proc) : Task Unit :=
  let args := p.args.tail.dropWhile (· = brokenInputName)
  match find? (args.headD "") with
  | none => throw (.plain "badin: no builtin")
  | some builtin =>
    Program.feeding (builtin.task { p with args := args, hostInput := false }) brokenFeed

def nest (file : String) (line : Int) (p : Proc) : Task Unit := do
  match ← Task.perform (.invoke file line (p.arg 1)) with
  | .ok text => printLines [text]
  | .error fault => throw fault

def workbench (file : String) (line : Int) : List (String × Builtin) :=
  [("fail", concurrent fail), ("failcode", concurrent failCode), ("failas", concurrent failAs),
   ("failwrap", concurrent failWrapped), ("setenv", concurrent setVariable),
   ("getenv", concurrent showVariables),
   ("where", concurrent fun p => printLines [p.dir]),
   ("path", concurrent fun p => printLines (p.args.tail.map p.path)),
   ("args", concurrent fun p => printLines (p.args.map fun a => "[" ++ a ++ "]")),
   ("envs", concurrent fun p => printLines (p.env.map fun (k, v) => k ++ "=" ++ v)),
   ("say", concurrent say), ("emit", concurrent emit), ("upper", concurrent upper),
   ("block", concurrent block), ("nest", concurrent (nest file line))]

end Pipework.Builtin
