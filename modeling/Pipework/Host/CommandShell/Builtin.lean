import Pipework.Host.CommandShell.Check
import Pipework.Host.CommandShell.Expand
import Pipework.Host.CommandShell.External
import Pipework.Host.CommandShell.Parse
import Pipework.Host.Tool.Conversion

/-!
# Builtins of the command shell

What the shell does itself: it writes, reads lines, checks, changes its variables, its directory
and its options, and directs the flow of the script. The streams of a builtin have been led where
its redirections say before it runs.
-/

namespace Pipework.Host.CommandShell

def failing (s : State) (line : Nat) (text : String) (status : Nat) : Program State := do
  return (← report s line text).after status

def fatal (s : State) (line : Nat) (text : String) : Program State := do
  return (← report s line text).exiting 2

def put (data : Bytes) (s : State) : Program State := do
  if data = [] then return s.after 0
  match ← Program.perform (.write .out data) with
  | none => return s.after 0
  | some _ => return s.ended (.killed Signal.brokenPipe)

def echoText (args : List String) : Bytes :=
  let (ends, args) := match args with
    | "-n" :: args => (false, args)
    | args => (true, args)
  let text := " ".intercalate args
  let (data, ending) := Format.unescape .shell [] text.length text.toList
  if ends && ending = .whole then data ++ [10] else data

def printf (args : List String) (line : Nat) (s : State) : Program State := do
  match args with
  | [] | ["--"] => failing s line "printf: usage: printf format [arg ...]" 2
  | first :: rest =>
    match first.toList with
    | '-' :: letter :: _ =>
      if first = "--" then formatted (rest.headD "") rest.tail
      else failing s line ("printf: Illegal option -" ++ String.ofList [letter]) 2
    | _ => formatted first rest
where
  formatted (format : String) (args : List String) : Program State := do
    let result := Format.apply .shell format args
    complaints (← put result.output s) result.wrong
  complaints (s : State) : List Format.Complaint → Program State
    | [] => pure s
    | c :: cs => do
      let text := "printf: " ++ String.ofList (Utf8.decode (c.message .shell))
      complaints (← failing s line text (if c.isFinal then 2 else 1)) cs

def numberArgument? (text : String) : Option Nat :=
  (Arithmetic.numberOf? true text).bind fun n =>
    if 0 ≤ n && n ≤ 2147483647 then some n.toNatClampNeg else none

def signalOf? (text : String) : Option Nat := (Tool.number? text).or (Signal.number? text)

def maxSignal : Nat := 64

def trapName? (text : String) : Option String :=
  if text = "EXIT" || text = "0" then some "EXIT"
  else match Tool.number? text with
    | some n => Signal.names[n - 1]?
    | none => (Signal.number? text).map fun _ => text

/-- Divides a line among the variables `names`, the last of which gets all that is left. A character
that is quoted does not divide. -/
def spread (s : State) (separators : List Char) : List String → List Marked → State
  | [], _ => s
  | [name], text =>
    let isBlankEnd (c : Marked) : Bool := separators.contains c.1 && isBlank c.1 && !c.2
    s.assign name (textOf (text.reverse.dropWhile isBlankEnd).reverse)
  | name :: names, text =>
    let divides (c : Marked) : Bool := separators.contains c.1 && !c.2
    let first := text.takeWhile fun c => !divides c
    let blanks (cs : List Marked) : List Marked := cs.dropWhile fun c => divides c && isBlank c.1
    let rest := blanks (text.drop first.length)
    let rest := match rest with
      | c :: cs => if divides c && !isBlank c.1 then blanks cs else rest
      | [] => []
    spread (s.assign name (textOf first)) separators names rest

def unescaped : List Char → List Marked
  | '\\' :: c :: cs => (c, true) :: unescaped cs
  | c :: cs => (c, false) :: unescaped cs
  | [] => []

/-- Reads a line, and the next one too if a backslash stands at the end; at most `fuel` lines. The
second part tells whether the input has not ended. -/
def inputLine (raw : Bool) : (fuel : Nat) → Program (List Char × Bool)
  | 0 => pure ([], false)
  | fuel + 1 => do
    let (data, _) ← Program.perform (.read .line)
    let text := Utf8.decode (chomp data)
    let isWhole := data.getLast? = some 10
    let slashes := (text.reverse.takeWhile (· = '\\')).length
    if isWhole && !raw && slashes % 2 = 1 then
      let (more, isWhole) ← inputLine raw fuel
      return (text.dropLast ++ more, isWhole)
    else return (text, isWhole)

def readLine (args : List String) (line : Nat) (s : State) : Program State := do
  match Tool.Arguments.ofList [⟨'r', "", false⟩, ⟨'p', "", true⟩] false args with
  | .error (.invalid letter) =>
    failing s line ("read: Illegal option -" ++ String.ofList [letter]) 2
  | .error _ => failing s line "read: No arg for -p option" 2
  | .ok a =>
    match a.operands.find? fun name => !isName name.toList || s.fixed.contains name with
    | some name =>
      let why := if isName name.toList then "is read only" else "bad variable name"
      failing s line ("read: " ++ name ++ ": " ++ why) 2
    | none =>
      if a.operands = [] then failing s line "read: arg count" 2
      else
        let raw := a.has 'r'
        let (text, isWhole) ← inputLine raw 100
        let chars : List Marked := if raw then text.map fun c => (c, false) else unescaped text
        let separators := s.separators
        let chars := chars.dropWhile fun (c, quoted) =>
          separators.contains c && isBlank c && !quoted
        return (spread s separators a.operands chars).after (if isWhole then 0 else 1)

def changeDirectory (args : List String) (line : Nat) (s : State) : Program State := do
  let args := args.dropWhile ["-L", "-P", "--"].contains
  let name := match args.head? with
    | none => (s.vars.find? "HOME").getD ""
    | some "-" => (s.vars.find? "OLDPWD").getD ""
    | some name => name
  if name = "" then return s.after 0
  let path := Path.clean (Path.below s.directory name)
  match ← Program.perform (.files .host (.isDirectory path)) with
  | .ok _ =>
    let moved := ({ s with directory := path }.assign "OLDPWD" s.directory).assign "PWD" path
    let moved := { moved with exported := "PWD" :: "OLDPWD" :: s.exported }
    if args.head? = some "-" then put (utf8 (path ++ "\n")) moved else return moved.after 0
  | .error _ => failing s line ("cd: can't cd to " ++ name) 2

def definition (arg : String) : String × Option String :=
  let cs := arg.toList
  let name := cs.takeWhile (· ≠ '=')
  (String.ofList name,
    if name.length < cs.length then some (String.ofList (cs.drop (name.length + 1))) else none)

/-- Does `change` for each definition among the arguments of the builtin `builtin`. -/
def defineAll (builtin : String) (change : State → String → Option String → State) (line : Nat) :
    List String → State → Program State
  | [], s => pure (s.after 0)
  | arg :: args, s => do
    let (name, value) := definition arg
    if !isName name.toList then fatal s line (builtin ++ ": " ++ name ++ ": bad variable name")
    else if (value.isSome || builtin = "unset") && s.fixed.contains name then
      fatal s line (builtin ++ ": " ++ name ++ ": is read only")
    else defineAll builtin change line args (change s name value)

def State.define (s : State) (name : String) : Option String → State
  | some value => s.assign name value
  | none => s

def exportVariable (s : State) (name : String) (value : Option String) : State :=
  { s.define name value with exported := name :: s.exported }

def fixVariable (s : State) (name : String) (value : Option String) : State :=
  { s.define name value with fixed := name :: s.fixed }

def unsetVariable (s : State) (name : String) (_ : Option String) : State :=
  { s with vars := s.vars.erase name, exported := s.exported.filter (· ≠ name) }

def localVariable (s : State) (name : String) (value : Option String) : State :=
  match s.frames with
  | [] => s
  | frame :: frames =>
    { s.define name value with frames := ((name, s.vars.find? name) :: frame) :: frames }

def State.leaveFunction (s : State) : State :=
  match s.frames with
  | [] => s
  | frame :: frames =>
    { s with
      vars := frame.foldl (fun vars (name, value) => vars.assign name value) s.vars
      frames := frames }

def Options.set? (o : Options) (letter : Char) (on : Bool) : Option Options :=
  match letter with
  | 'e' => some { o with errexit := on }
  | 'u' => some { o with nounset := on }
  | 'x' => some { o with xtrace := on }
  | 'f' => some { o with noglob := on }
  | 'a' | 'b' | 'm' | 'n' | 'v' | 'C' | 'i' | 's' | 'I' | 'E' | 'V' => some o
  | _ => none

def optionNames : List (String × Char) :=
  [("errexit", 'e'), ("nounset", 'u'), ("xtrace", 'x'), ("noglob", 'f'), ("allexport", 'a'),
   ("notify", 'b'), ("monitor", 'm'), ("noexec", 'n'), ("verbose", 'v'), ("noclobber", 'C')]

def Options.setAll (o : Options) (on : Bool) : List Char → Except Char Options
  | [] => .ok o
  | letter :: letters =>
    match o.set? letter on with
    | some o => o.setAll on letters
    | none => .error letter

def setOptions (line : Nat) : List String → State → Program State
  | [], s => pure (s.after 0)
  | "--" :: args, s => pure ({ s with args := args }.after 0)
  | "-o" :: name :: args, s => named true name args s
  | "+o" :: name :: args, s => named false name args s
  | arg :: args, s =>
    match arg.toList with
    | sign :: letter :: letters =>
      if sign = '-' || sign = '+' then
        match s.options.setAll (sign = '-') (letter :: letters) with
        | .ok options => setOptions line args { s with options := options }
        | .error letter => fatal s line ("set: Illegal option " ++ String.ofList [sign, letter])
      else pure ({ s with args := arg :: args }.after 0)
    | _ => pure ({ s with args := arg :: args }.after 0)
where
  named (on : Bool) (name : String) (args : List String) (s : State) : Program State :=
    match (optionNames.lookup name).bind fun letter => s.options.set? letter on with
    | some options => setOptions line args { s with options := options }
    | none => fatal s line ("set: Illegal option -o " ++ name)

def shiftArgs (args : List String) (line : Nat) (s : State) : Program State :=
  match numberArgument? (args.headD "1") with
  | none => fatal s line ("shift: Illegal number: " ++ args.headD "")
  | some n =>
    if n ≤ s.args.length then pure ({ s with args := s.args.drop n }.after 0)
    else fatal s line "shift: can't shift that many"

/-- Leaves as many loops as the argument of the builtin `name` says, or as there are. -/
def leaveLoops (name : String) (flow : Nat → Flow) (args : List String) (line : Nat) (s : State) :
    Program State :=
  match numberArgument? (args.headD "1") with
  | none | some 0 => fatal s line (name ++ ": Illegal number: " ++ args.headD "")
  | some n =>
    let n := min n s.loops
    pure { s.after 0 with flow := if n = 0 then .onward else flow n }

def setTraps (action : Option String) (line : Nat) : List String → State → Program State
  | [], s => pure (s.after 0)
  | text :: texts, s =>
    match trapName? text with
    | some name => setTraps action line texts { s with traps := s.traps.assign name action }
    | none => do
      say .err ("trap: " ++ text ++ ": bad trap\n")
      return s.after 1

def inQuotes (text : String) : String :=
  String.join (aroundQuotes text.toList)
where
  aroundQuotes (cs : List Char) : List String :=
    let parts := (Path.splitAt '\'' cs).map fun part => "'" ++ String.ofList part ++ "'"
    parts.intersperse "\"'\""

def listVariables (builtin : String) (names : List String) (s : State) : Program State :=
  let lines := (sortTexts names.eraseDups).map fun name =>
    match s.vars.find? name with
    | some value => builtin ++ " " ++ name ++ "=" ++ inQuotes value ++ "\n"
    | none => builtin ++ " " ++ name ++ "\n"
  put (utf8 (String.join lines)) s

def listTraps (s : State) : Program State :=
  let lines := ("EXIT" :: Signal.names).filterMap fun name =>
    (s.traps.find? name).map fun action => "trap -- " ++ inQuotes action ++ " " ++ name ++ "\n"
  put (utf8 (String.join lines)) s

def trap (args : List String) (line : Nat) (s : State) : Program State :=
  match if args.head? = some "--" then args.tail else args with
  | [] => listTraps s
  | "-" :: signals => setTraps none line signals s
  | action :: signals =>
    if signals = [] then setTraps none line [action] s
    else setTraps (some action) line signals s

def killUsage : String :=
  "kill: Usage: kill [-s sigspec | -signum | -sigspec] [pid | job]... or\nkill -l [exitstatus]"

def check (name : String) (args : List String) (line : Nat) (s : State) : Program State := do
  match if name = "[" then (args.getLast?.bind fun last => last.toList.head?) else some ']' with
  | some ']' =>
    let args := if name = "[" then args.dropLast else args
    match Check.ofArgs (args.length + 1) args with
    | .error text => failing s line (name ++ ": " ++ text) 2
    | .ok c =>
      match ← c.holds s.directory with
      | .ok holds => return s.after (if holds then 0 else 1)
      | .error text => failing s line (name ++ ": " ++ text) 2
  | _ => failing s line (name ++ ": missing ]") 2

/-- The builtins that a function can stand in for. -/
def regularBuiltins : List String :=
  ["[", "cd", "command", "echo", "false", "kill", "local", "printf", "pwd", "read", "test", "true",
   "type", "umask", "wait"]

def isBuiltin (name : String) : Bool :=
  specialBuiltins.contains name || regularBuiltins.contains name

/-- What `type` says that a name is; with `short`, as `command -v` puts it. -/
def describe (short : Bool) (name : String) (s : State) : Program (Option String) := do
  let shown (what : String) : Option String := some (if short then name else name ++ what)
  if reserved.contains name then return shown " is a shell keyword"
  else if specialBuiltins.contains name then return shown " is a special shell builtin"
  else if (s.functions.lookup name).isSome then return shown " is a shell function"
  else if isBuiltin name then return shown " is a shell builtin"
  else match ← findProgram s name with
    | .ok (path, _) => return some (if short then path else name ++ " is " ++ path)
    | .error _ => return none

def describeAll (short : Bool) : List String → State → Program State
  | [], s => pure s
  | name :: names, s => do
    match ← describe short name s with
    | some text => describeAll short names (← put (utf8 (text ++ "\n")) s)
    | none =>
      let s ← if short then pure s else put (utf8 (name ++ ": not found\n")) s
      describeAll short names (s.after 127)

namespace Machine

variable (m : Machine)

def takeSignal (number : Nat) (s : State) : Program State := do
  match if number = 0 || number = 9 then none else (Signal.names[number - 1]?).bind s.traps.find?
  with
  | some "" => return s.after 0
  | some action =>
    let after ← m.nested 1 action.toList false (s.after 0)
    return if after.isOnward then after.after 0 else after
  | none =>
    if Signal.isFatal number then return s.ended (.killed (Signal.fault number))
    else return s.after 0

/-- Sends the signal `number` to the process with the number `process`, which is the shell or a
command that has not been waited for. -/
def kill (number : Nat) (process : String) (line : Nat) (s : State) : Program State :=
  match Tool.number? process with
  | none => failing s line ("kill: Illegal number: " ++ process) 2
  | some n =>
    if n = State.processNumber then m.takeSignal number s
    else if s.jobs.any fun job => job.number = n then
      if !Signal.isFatal number then pure (s.after 0)
      else
        let jobs := s.jobs.filter fun job => job.number ≠ n
        pure { s.after 0 with jobs := jobs, finished := (n, 128 + number) :: s.finished }
    else failing s line "kill: No such process\n" 1

def killAll (number : Nat) (line : Nat) : List String → State → Program State
  | [], s => pure s
  | process :: processes, s => do
    let s ← m.kill number process line s
    if s.isOnward then killAll number line processes s else return s

def killBuiltin (args : List String) (line : Nat) (s : State) : Program State :=
  match args with
  | ["-l", text] =>
    match Tool.number? text with
    | some n =>
      match if n % 128 = 0 then none else Signal.names[n % 128 - 1]? with
      | some name => put (utf8 (name ++ "\n")) s
      | none => failing s line ("kill: invalid signal number or exit status: " ++ text) 2
    | none => failing s line ("kill: Illegal number: " ++ text) 2
  | "-s" :: signal :: processes =>
    match signalOf? signal with
    | some number =>
      if processes = [] then failing s line killUsage 2 else m.killAll number line processes s
    | none => failing s line ("kill: invalid signal number or name: " ++ signal) 2
  | first :: processes =>
    match first.toList with
    | '-' :: signal =>
      match (signalOf? (String.ofList signal)).filter (· ≤ maxSignal) with
      | some number =>
        if processes = [] then failing s line killUsage 2 else m.killAll number line processes s
      | none => failing s line ("kill: Illegal option -" ++ String.ofList (signal.take 1)) 2
    | _ => m.killAll 15 line args s
  | [] => failing s line killUsage 2

def source (args : List String) (line : Nat) (s : State) : Program State := do
  match args with
  | [] => return s.after 0
  | name :: _ =>
    if name = "" then fatal s line ".: : not found"
    else if !name.toList.contains '/' then
      match ← findFile s name (searchPath ((s.vars.find? "PATH").getD "")) with
      | some data => run name data s
      | none => fatal s line (".: " ++ name ++ ": not found")
    else match ← Program.perform (.files .host (.read (Path.below s.directory name))) with
      | .ok feed => run name feed.ready s
      | .error _ => fatal s line (".: cannot open " ++ name ++ ": No such file")
where
  findFile (s : State) (name : String) : List String → Program (Option Bytes)
    | [] => pure none
    | dir :: dirs => do
      let path := Path.below s.directory (Path.join dir name)
      match ← Program.perform (.files .host (.read path)) with
      | .ok feed => return some feed.ready
      | .error _ => findFile s name dirs
  run (name : String) (data : Bytes) (s : State) : Program State := do
    let after ← m.nested 1 (Utf8.decode data) false { s with label := name ++ ": " }
    let flow := if after.flow = .returning then .onward else after.flow
    return { after with flow := flow, label := s.label }

/-- Waits for the commands that have not been waited for. -/
def wait (args : List String) (line : Nat) (s : State) : Program State := do
  let s ← m.finish s.jobs s
  match args with
  | [] => return s.after 0
  | process :: _ =>
    match Tool.number? process with
    | some n => return s.after ((s.finished.lookup n).getD 127)
    | none => failing s line ("wait: No such job: " ++ process) 2

def builtin (name : String) (args : List String) (line : Nat) (tested : Bool) (s : State) :
    Program State :=
  match name with
  | ":" | "true" => pure (s.after 0)
  | "false" => pure (s.after 1)
  | "echo" => put (echoText args) s
  | "printf" => printf args line s
  | "[" | "test" => check name args line s
  | "exit" =>
    match args with
    | [] => pure (s.exiting (s.leaving.getD s.status))
    | text :: _ =>
      match numberArgument? text with
      | some status => pure (s.exiting (status % 256))
      | none => fatal s line ("exit: Illegal number: " ++ text)
  | "return" =>
    match args with
    | [] => pure { s with flow := .returning }
    | text :: _ =>
      match numberArgument? text with
      | some status => pure { s.after status with flow := .returning }
      | none => fatal s line ("return: Illegal number: " ++ text)
  | "break" => leaveLoops name .breaking args line s
  | "continue" => leaveLoops name .continuing args line s
  | "kill" => m.killBuiltin args line s
  | "read" => readLine args line s
  | "cd" => changeDirectory args line s
  | "pwd" => put (utf8 (s.directory ++ "\n")) s
  | "export" =>
    if args = [] || args = ["-p"] then listVariables "export" s.exported s
    else defineAll "export" exportVariable line args s
  | "readonly" =>
    if args = [] || args = ["-p"] then listVariables "readonly" s.fixed s
    else defineAll "readonly" fixVariable line args s
  | "unset" =>
    if args.head? = some "-f" then
      let functions := s.functions.filter fun (name, _) => !args.contains name
      pure ({ s with functions := functions }.after 0)
    else match args.head?.map String.toList with
      | some ('-' :: letter :: _) =>
        if letter = 'v' then defineAll "unset" unsetVariable line args.tail s
        else fatal s line ("unset: Illegal option -" ++ String.ofList [letter])
      | _ => defineAll "unset" unsetVariable line args s
  | "local" =>
    if s.frames = [] then fatal s line "local: not in a function"
    else defineAll "local" localVariable line args s
  | "set" => setOptions line args s
  | "shift" => shiftArgs args line s
  | "trap" => trap args line s
  | "eval" => do
    let after ← m.nested 1 (" ".intercalate args).toList tested { s with label := "eval: " }
    return { after with label := s.label }
  | "exec" => do
    if args = [] then return s.after s.captured
    let s := { s with traps := [] }
    return s.ended (← m.external args ("exec: " ++ args.headD "") line s)
  | "." => m.source args line s
  | "wait" => m.wait args line s
  | "command" =>
    match args with
    | "-v" :: names => describeAll true (names.take 1) (s.after 0)
    | "-V" :: names => describeAll false (names.take 1) (s.after 0)
    | _ => pure (s.after 0)
  | "umask" => if args = [] then put (utf8 "0022\n") s else pure (s.after 0)
  | "type" => describeAll false args (s.after 0)
  | "times" => put (utf8 "0m0.000000s 0m0.000000s\n0m0.000000s 0m0.000000s\n") s
  | _ => pure (s.after 0)

end Machine

end Pipework.Host.CommandShell
