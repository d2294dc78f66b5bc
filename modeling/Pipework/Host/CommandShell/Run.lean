import Pipework.Host.CommandShell.Builtin
import Pipework.Host.CommandShell.Streams

/-!
# Running commands of the command shell

What the first word of a simple command names is looked up in a fixed order: the builtins that no
function can stand in for, the functions, the other builtins, and the programs of the host. All
other commands direct which of their parts are run, and where these find their streams.
-/

namespace Pipework.Host.CommandShell

inductive Meaning where
  | nothing
  | special
  | function (body : Node)
  | regular
  | program

/-- What the words `args` of a command name, and the words without those that only say how the
command is to be looked up. -/
def meaningOf (s : State) : List String → Meaning × List String
  | [] => (.nothing, [])
  | name :: args =>
    let byName : Meaning :=
      if specialBuiltins.contains name then .special
      else match s.functions.lookup name with
        | some body => .function body
        | none => if isBuiltin name then .regular else .program
    match byName, name, args with
    | .regular, "command", inner :: rest =>
      match if inner = "-p" then rest else inner :: rest with
      | [] => (.regular, ["command"])
      | inner :: rest =>
        if inner.toList.head? = some '-' then (.regular, name :: args)
        else (if isBuiltin inner then .regular else .program, inner :: rest)
    | meaning, _, _ => (meaning, name :: args)

def Meaning.isTemporary : Meaning → Bool
  | .nothing | .special => false
  | _ => true

/-- Whether the command is run by running other commands, each of which is led to the streams of
the shell by itself. -/
def isDirect : Meaning → List String → Bool
  | .function _, _ => true
  | .special, name :: _ => name = "eval" || name = "."
  | _, _ => false

namespace State

def exporting (s : State) (names : List String) : State :=
  { s with exported := names ++ s.exported }

def restoring (s before : State) (names : List String) : State :=
  { s with
    vars := names.foldl (fun vars name => vars.assign name (before.vars.find? name)) s.vars
    exported := names.filter before.exported.contains ++
      s.exported.filter fun name => !names.contains name }

def afterRound (s : State) : State × Bool :=
  match s.flow with
  | .onward => (s, true)
  | .breaking n => ({ s with flow := if n ≤ 1 then .onward else .breaking (n - 1) }, false)
  | .continuing n =>
    if n ≤ 1 then ({ s with flow := .onward }, true)
    else ({ s with flow := .continuing (n - 1) }, false)
  | .returning | .ended _ => (s, false)

end State

def tracedLine (env : Table) (args : List String) : String :=
  String.join ("+" :: (env.map fun (name, value) => " " ++ name ++ "=" ++ value) ++
    args.map (" " ++ ·)) ++ "\n"

/-- How many rounds of a loop are run. A loop that has not ended then is taken to have no end. -/
def maxRounds : Nat := 10000

/-- A loop without end. If its output is read by a command of the script, it ends with that. -/
def unending (s : State) : Program State := do
  if !s.isPiped then Program.perform .pause
  return s.ended (.killed Signal.brokenPipe)

def iterate (round : State → Program (State × Bool)) : (rounds : Nat) → State → Program State
  | 0, s => unending s
  | rounds + 1, s => do
    let (s, again) ← round s
    if again then iterate round rounds s else return s

namespace Machine

variable (m : Machine)

def callFunction (body : Node) (args : List String) (tested : Bool) (s : State) :
    Program State := do
  let start := { s with args := args, frames := [] :: s.frames, loops := 0 }
  let after := (← m.call body tested start).leaveFunction
  let flow := if after.flow = .returning then .onward else after.flow
  return { after with args := s.args, loops := s.loops, flow := flow }

def perform (meaning : Meaning) (args : List String) (line : Nat) (tested : Bool) (s : State) :
    Program State :=
  match meaning with
  | .nothing => pure (s.after s.captured)
  | .special | .regular => m.builtin (args.headD "") args.tail line tested s
  | .function body => m.callFunction body args.tail tested s
  | .program => do afterProgram s (← m.external args (args.headD "") line s)

/-- Runs a simple command. The words are expanded before the streams are led, and the assignments
are made after that. -/
def runSimple (assignments : List (String × Word)) (words : List Word) (rs : List Redirection)
    (line : Nat) (tested : Bool) (s : State) : Program State := do
  let (args, s) ← m.expandWords line false words { s with captured := 0 }
  if !s.isOnward then return s
  let (meaning, args) := meaningOf s args
  match ← m.openStreams rs line s with
  | .error s => return if meaning matches .special then s.exiting 2 else s
  | .ok (p, s) =>
    let ((env, inner), p) ← (m.assignAll line assignments s.inside).through p
    if !inner.isOnward then return s.withStreams (feeds rs) p inner
    let p ← traced env args s p
    let names := if meaning.isTemporary then env.map Prod.fst else []
    let body (start : State) : Program State := do
      return (← m.perform meaning args line tested (start.exporting names)).restoring s names
    if meaning matches .special && args = ["exec"] then
      return { inner with streams := p, status := inner.captured }
    else if rs = [] && isDirect meaning args then body (s.withStreams false p inner)
    else
      let (after, p) ← (body inner).through p
      return s.withStreams (feeds rs) p after
where
  traced (env : Table) (args : List String) (s : State) (p : Plumbing) : Program Plumbing := do
    if !s.options.xtrace then return p
    let (_, q) ← (say .err (tracedLine env args)).through { p with err := s.streams.err }
    return { q with err := p.err }

def runApart (body : State → Program State) (s : State) : Program State := do
  let (inner, p) ← (body s.forked >>= m.leave).through s.streams
  return s.withStreams false p (s.afterApart inner)

def runPiped (first second : State → Program State) (s : State) : Program State := do
  let filling := { s.streams with out := .buffer, buffer := .nothing }
  let (_, p) ← (first { s.forked with isPiped := true } >>= m.leave).through filling
  let emptying := { p with out := s.streams.out, buffer := .nothing }.feedWith p.buffer none
  let (inner, q) ← (second s.forked >>= m.leave).through emptying
  return s.withStreams false { q with input := p.input, inputPath := p.inputPath }
    (s.afterApart inner)

def matchesSubject (line : Nat) : List Word → State → Program (Bool × State)
  | [], s => pure (false, s)
  | word :: words, s => do
    let (p, s) ← m.expandPattern line word s
    if !s.isOnward || p.matchesText s.subject then return (true, s)
    else matchesSubject line words s

def runEach (name : String) (line : Nat) (body : State → Program State) :
    (values : List String) → State → Program State
  | [], s => pure s
  | value :: values, s => do
    if s.fixed.contains name then
      return (← complain s line (name ++ ": is read only")).exiting 2
    let (s, again) := (← body (s.assign name value)).afterRound
    if again then runEach name line body values s else return s

def inLoop (body : State → Program State) (s : State) : Program State := do
  return { ← body { s with loops := s.loops + 1 } with loops := s.loops }

/-- One round of a loop. The status of the loop is that of the last body, which `s` has. -/
def round (whileFails : Bool) (condition body : State → Program State) (s : State) :
    Program (State × Bool) := do
  let tried ← condition s
  if !tried.isOnward then return tried.afterRound
  if (tried.status = 0) = whileFails then return (tried.after s.status, false)
  return (← body tried).afterRound

def run : Node → (tested : Bool) → State → Program State
  | .nothing, _, s => pure (s.after 0)
  | .simple assignments words rs line, tested, s => do
    return (← m.runSimple assignments words rs line tested s).settled tested
  | .apart body, tested, s => do return (← m.runApart (run body tested) s).settled tested
  | .redirected body rs line, tested, s => m.withRedirections rs line tested (run body tested) s
  | .piped first second, tested, s => do
    return (← m.runPiped (run first tested) (run second tested) s).settled tested
  | .negated body, _, s => do
    let after ← run body true s
    return if after.isOnward then after.after (if after.status = 0 then 1 else 0) else after
  | .both first second, tested, s => do
    let after ← run first true s
    if after.isOnward && after.status = 0 then run second tested after else return after
  | .either first second, tested, s => do
    let after ← run first true s
    if after.isOnward && after.status ≠ 0 then run second tested after else return after
  | .sequence first second, tested, s => do
    let after ← run first tested s
    if after.isOnward then run second tested after else return after
  | .background body, _, s =>
    let job : Job := ⟨s.lastJob + 1, body, s.args, s.vars, s.directory⟩
    pure { s.after 0 with jobs := s.jobs ++ [job] }
  | .choice condition body other, tested, s => do
    let after ← run condition true s
    if !after.isOnward then return after
    else if after.status = 0 then run body tested after
    else run other tested after
  | .loop whileFails condition body, tested, s =>
    inLoop (iterate (round whileFails (run condition true) (run body tested)) maxRounds) (s.after 0)
  | .each name words body line, tested, s => do
    let (values, s) ← match words with
      | none => pure (s.args, s)
      | some words => m.expandWords line false words s
    if !s.isOnward then return s
    inLoop (runEach name line (run body tested) values) (s.after 0)
  | .select subject arms line, tested, s => do
    let (text, s) ← m.expandWhole line subject s
    if !s.isOnward then return s
    run arms tested { s with subject := text.toList }
  | .arm patterns body others line, tested, s => do
    let (isMatch, s) ← m.matchesSubject line patterns s
    if !s.isOnward then return s
    else if isMatch then run body tested s
    else run others tested s
  | .define name body, _, s => pure { s.after 0 with functions := (name, body) :: s.functions }

end Machine

end Pipework.Host.CommandShell
