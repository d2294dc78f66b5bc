import Pipework.Host.CommandShell.Run

/-!
# The process of the command shell

The shell is a program of the host. Its command line sets options and gives a script, names a file
that holds one, or leaves it to the input.
-/

namespace Pipework.Host.CommandShell

def Machine.runUnits (m : Machine) (tested : Bool) : List Node → State → Program State
  | [], s => pure s
  | unit :: units, s => do
    let s ← m.run unit tested s
    if s.isOnward then runUnits m tested units s else return s

/-- Runs a script. What cannot be read of it ends the shell, after what stands before it has been
run. A script without commands succeeds. -/
def Machine.runText (m : Machine) (line : Nat) (text : List Char) (tested : Bool) (s : State) :
    Program State := do
  let script := parse line text
  let s ← m.runUnits tested script.units (if script.units = [] then s.after 0 else s)
  match script.mistake with
  | some (mistake, line) =>
    if s.isOnward then return (← complain s line mistake.message).exiting 2 else return s
  | none => return s

/-- A machine that runs scripts and functions up to `depth` within each other. -/
def machine (programs : Programs) : (depth : Nat) → Machine
  | 0 => ⟨programs, fun _ _ _ s => pure (s.exiting 2), fun _ _ s => pure (s.exiting 2)⟩
  | depth + 1 =>
    let m := machine programs depth
    ⟨programs, m.runText, m.run⟩

def maxCalls : Nat := 200

structure Order where
  options : Options
  isScript : Bool
  isInput : Bool
  args : List String

def illegalOption (text : String) : String := "0: Illegal option " ++ text

namespace Order

def option (o : Order) (on : Bool) (letter : Char) : Except String Order :=
  match letter with
  | 'c' => .ok { o with isScript := true }
  | 's' => .ok { o with isInput := true }
  | 'i' | 'l' => .ok o
  | _ =>
    match o.options.set? letter on with
    | some options => .ok { o with options := options }
    | none => .error (illegalOption (String.ofList [if on then '-' else '+', letter]))

def ofArgs (o : Order) : List String → Except String Order
  | [] => .ok o
  | arg :: rest =>
    match arg.toList with
    | ['-'] | ['-', '-'] => .ok { o with args := rest }
    | ['-', 'o'] => named true rest
    | ['+', 'o'] => named false rest
    | sign :: letter :: letters =>
      if sign = '-' || sign = '+' then do
        ofArgs (← (letter :: letters).foldlM (fun o letter => o.option (sign = '-') letter) o) rest
      else .ok { o with args := arg :: rest }
    | _ => .ok { o with args := arg :: rest }
where
  named (on : Bool) : List String → Except String Order
    | [] => .ok o
    | name :: rest =>
      match optionNames.lookup name with
      | some letter => do ofArgs (← o.option on letter) rest
      | none => .error (illegalOption ("-o " ++ name))

end Order

/-- The directory of a shell, written as its variables have it if they do. -/
def writtenDirectory (p : Spawn) : String :=
  match p.env.find? "PWD" with
  | some path =>
    if Path.isAbsolute path && Path.clean path = Path.clean p.directory then path else p.directory
  | none => p.directory

def initial (p : Spawn) (options : Options) (name : String) (args : List String) : State :=
  let vars := p.env.filter fun (name, _) => isName name.toList
  let defaults : Table := [("PATH", "/usr/local/sbin:/usr/local/bin:/usr/sbin:/usr/bin:/sbin:/bin")]
  let directory := writtenDirectory p
  let given : Table := [("IFS", " \t\n"), ("OPTIND", "1"), ("PWD", directory)]
  { name := name
    label := ""
    args := args
    vars := (defaults.merge vars).merge given
    exported := "PWD" :: vars.map Prod.fst
    fixed := []
    functions := []
    traps := []
    options := options
    frames := []
    loops := 0
    directory := directory
    streams := .straight
    isPiped := false
    subject := []
    status := 0
    leaving := none
    captured := 0
    jobs := []
    finished := []
    flow := .onward }

def process (programs : Programs) (p : Spawn) (options : Options) (name : String)
    (args : List String) (text : List Char) : Task Unit := do
  let m := machine programs maxCalls
  let start := initial p options name args
  let s ← ExceptT.lift (m.runText 1 text false start >>= m.leave)
  match s.flow with
  | .ended (.killed fault) => throw fault
  | .ended (.exited code) => Tool.exit code
  | _ => Tool.exit s.status

def shell (programs : Programs) (p : Spawn) : Task Unit := do
  let refused (text : String) : Task Unit := do
    Tool.complain p text
    Tool.exit 2
  match Order.ofArgs ⟨⟨false, false, false, false⟩, false, false, []⟩ p.args.tail with
  | .error text => refused text
  | .ok o =>
    match o.args, o.isScript, o.isInput with
    | [], true, _ => refused "0: -c requires an argument"
    | text :: args, true, _ =>
      process programs p o.options (args.headD p.name) args.tail text.toList
    | path :: args, false, false =>
      match ← Tool.files p .read path with
      | .ok feed => process programs p o.options path args (Utf8.decode feed.ready)
      | .error fault =>
        let why := if fault.mentions .notExist then "No such file" else Tool.reason fault
        refused ("0: cannot open " ++ path ++ ": " ++ why)
    | args, false, _ =>
      let (data, _) ← Task.perform (.read .all)
      process programs p o.options p.name args (Utf8.decode data)

end Pipework.Host.CommandShell
