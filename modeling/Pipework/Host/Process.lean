import Pipework.Host.Basic

/-!
# Processes

A command that is no builtin names a program of the host. A name without a slash is looked for on
the search path. A program that cannot be started is refused for the first reason that applies.
-/

namespace Pipework.Host

structure Spawn where
  args : List String
  env : Table
  directory : String

abbrev Programs := List (String × (Spawn → Task Unit))

def isExecutable (h : Host) (p : Place) : Bool :=
  match h.tree.find? p with
  | some (.file _ executable) => executable
  | _ => false

def searchPath (path : String) : List String := if path = "" then [] else Path.splitColon path

def findOnPath? (h : Host) (name : String) : Option String :=
  ((searchPath ((h.env.find? "PATH").getD "")).map fun dir => Path.join dir name).find? fun path =>
    h.isExecutable (h.place path)

def programPath (h : Host) (name : String) : Except Fault String :=
  if name = "" then .error (.plain "exec: no command")
  else if name = "/" then .error (.about ("exec: " ++ quoted name) (.plain "is a directory"))
  else if name.toList.contains '/' then .ok name
  else match h.findOnPath? name with
    | none => .error (.notOnPath name)
    | some path =>
      if Path.isAbsolute path then .ok path
      else .error (.about ("exec: " ++ quoted name)
        (.plain "cannot run executable found relative to current directory"))

/-- A variable as a process sees it. What stands before the first equals sign of an entry is the
name, whatever the one who set it took for the name. -/
def entry (name value : String) : String × String :=
  let cs := name.toList
  let front := cs.takeWhile (· ≠ '=')
  if front.length = cs.length then (name, value)
  else (String.ofList front, String.ofList (cs.drop (front.length + 1)) ++ "=" ++ value)

def entries (env : Table) : Table := env.map fun (name, value) => entry name value

/-- The variables of `env` and then those of `top`, each in its last place only. -/
def extended (env top : Table) : Table :=
  top.foldl (fun env (name, value) => env.erase name ++ [(name, value)]) env

def interpreter? (data : Bytes) : Option (String × List String) :=
  match Utf8.decode (data.takeWhile (· ≠ 10)) with
  | '#' :: '!' :: text =>
    let isBlank (c : Char) : Bool := c = ' ' || c = '\t'
    let text := ((text.dropWhile isBlank).reverse.dropWhile isBlank).reverse
    let name := text.takeWhile fun c => !isBlank c
    let rest := (text.drop name.length).dropWhile isBlank
    if name = [] then none
    else some (String.ofList name, if rest = [] then [] else [String.ofList rest])
  | _ => none

def programMark : Bytes := 127 :: utf8 "ELF"

def noProgram : Fault := .plain "exec format error"

def behaviour (programs : Programs) (path : String) (data : Bytes) (spawn : Spawn) :
    Except Fault (Task Unit) :=
  match if data = programMark then programs.lookup (Path.base path) else none with
  | some program => .ok (program spawn)
  | none => .error noProgram

def maxArgument : Nat := 131071

def isOverlong (args : List String) (env : Table) : Bool :=
  args.any (fun arg => maxArgument < arg.utf8ByteSize)
    || env.any fun (name, value) => maxArgument < name.utf8ByteSize + 1 + value.utf8ByteSize

def maxInterpreters : Nat := 4

/-- What the executable file at `path` with the contents `data` does. A script is run by the
program that it asks for, which `load` gives the contents of. -/
def interpret {m : Type → Type} [Monad m] (load : String → m (Except Fault Bytes))
    (programs : Programs) : (limit : Nat) → (path : String) → Bytes → Spawn →
      m (Except Fault (Task Unit))
  | 0, _, _, _ => pure (.error (.plain "too many levels of symbolic links"))
  | limit + 1, path, data, spawn =>
    match interpreter? data with
    | none => pure (behaviour programs path data spawn)
    | some (name, options) => do
      match ← load name with
      | .ok program =>
        let args := name :: options ++ path :: spawn.args.tail
        interpret load programs limit name program { spawn with args := args }
      | .error fault => return .error fault

def start (programs : Programs) (h : Host) (canceled : Bool) (dir : String) (args : List String)
    (env : Table) : Except Fault (Task Unit) := do
  let path ← h.programPath (args.headD "")
  if canceled then throw .canceled
  if env.any fun (k, v) => hasZero k || hasZero v then
    throw (.plain "exec: environment variable contains NUL")
  let directory := h.absolute dir
  if dir ≠ "" then
    if let .error fault := h.node? dir then throw (.about ("chdir " ++ dir) fault)
  let refused (fault : Fault) : Fault := .about ("fork/exec " ++ path) fault
  if args.any hasZero then throw (refused (.plain "invalid argument"))
  if dir ≠ "" && !((h.node? dir) matches .ok .directory) then
    throw (refused (.plain "not a directory"))
  let load (name : String) : Except Fault Bytes := do
    let (feed, _) ← h.answer (.load (Path.below directory name))
    return feed.ready
  let task := do
    let data ← load path
    if isOverlong args env then throw (Fault.plain "argument list too long")
    Id.run (interpret (fun name => pure (load name)) programs maxInterpreters path data
      ⟨args, env, directory⟩)
  task.mapError refused

end Pipework.Host
