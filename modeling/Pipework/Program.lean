import Pipework.Feed
import Pipework.Mock
import Pipework.Path
import Pipework.Table

/-!
# Programs

What a command does, builtin or process, is a finite tree of actions: each action is answered by
the surroundings, and the answer decides how to go on. A program says nothing about where its
streams lead, which files it works on, or what else runs at the same time.
-/

namespace Pipework

inductive Channel where
  | out
  | err
deriving DecidableEq, Repr

inductive Storage where
  | shell
  | host
deriving DecidableEq, Repr

inductive FileRequest where
  | read (path : String)
  | load (path : String)
  | create (path : String)
  | append (path : String)
  /-- Writes `data` to an open file, from a position on or at the end. -/
  | write (path : String) (position : Option Nat) (data : Bytes)
  | commit (path : String) (data : Bytes)
  | release (path : String)
  | isDirectory (path : String)
  | list (path : String)
  | makeDirectory (path : String)
  | removeDirectory (path : String)
  | setExecutable (path : String) (executable : Bool)
deriving DecidableEq, Repr

structure Handle where
  storage : Storage
  path : String
  atEnd : Bool
  data : Bytes
deriving DecidableEq, Repr

namespace Handle

def writing (h : Handle) (data : Bytes) : FileRequest :=
  .write h.path (if h.atEnd then none else some h.data.length) data

def written (h : Handle) (data : Bytes) : Handle := { h with data := h.data ++ data }

def closing (h : Handle) : FileRequest := .commit h.path h.data

end Handle

structure Reading where
  storage : Storage
  path : String
deriving DecidableEq, Repr

def Reading.closing (r : Reading) : FileRequest := .release r.path

inductive Side where
  | input
  | output
deriving DecidableEq, Repr

/-- What a mock can be told to do with a call: pass on its input, write `text`, and fail. -/
structure Reaction where
  passInput : Bool
  text : Bytes
  fault : Option Fault
deriving DecidableEq, Repr

abbrev MockCommand := Mock Reaction

inductive Action where
  | write (channel : Channel) (data : Bytes)
  | flood (data : Bytes)
  | read (amount : Amount)
  /-- Copies the input to the output until its end, through a filter. Answered with what has been
  passed on, which is nothing if not all of it could be. -/
  | relay (filter : Filter)
  | lookup (key : String)
  | assign (key value : String)
  | workDirectory
  | files (storage : Storage) (request : FileRequest)
  /-- Asks for the full path of the host file from which the input or to which the output leads. -/
  | inquire (side : Side)
  | pause
  | invoke (file : String) (line : Int) (script : String)
  | consult (name : String) (ask : MockCommand → MockCommand × Mock.Answer Reaction)

@[reducible]
def Action.Answer : Action → Type
  | .write _ _ => Option Fault
  | .flood _ => Option Fault
  | .read _ => Bytes × Option Fault
  | .relay _ => Bytes × Option Fault
  | .lookup _ => Option String
  | .assign _ _ => Unit
  | .workDirectory => Except Fault String
  | .files _ _ => Except Fault Feed
  | .inquire _ => Option String
  | .pause => Unit
  | .invoke _ _ _ => Except Fault String
  | .consult _ _ => Mock.Answer Reaction

inductive Program (α : Type) where
  | done (result : α)
  | act (action : Action) (next : action.Answer → Program α)

namespace Program

def bind {α β : Type} : Program α → (α → Program β) → Program β
  | .done result, f => f result
  | .act action next, f => .act action fun answer => (next answer).bind f

instance : Monad Program where
  pure := .done
  bind := Program.bind

theorem bind_done {α : Type} (p : Program α) : p.bind .done = p := by
  induction p with
  | done result => rfl
  | act action next ih => exact congrArg (Program.act action) (funext ih)

theorem bind_bind {α β γ : Type} (p : Program α) (f : α → Program β) (g : β → Program γ) :
    (p.bind f).bind g = p.bind fun result => (f result).bind g := by
  induction p with
  | done result => rfl
  | act action next ih => exact congrArg (Program.act action) (funext ih)

instance : LawfulMonad Program :=
  LawfulMonad.mk' Program (fun p => bind_done p) (fun _ _ => rfl) (fun p f g => bind_bind p f g)

def perform (action : Action) : Program action.Answer := .act action .done

/-- The program that reads `feed` in place of its input. -/
def feeding {α : Type} : Program α → Feed → Program α
  | .done result, _ => .done result
  | .act (.read amount) next, feed =>
    match feed.take? amount with
    | some (answer, feed') => (next answer).feeding feed'
    | none => (next feed.empty.1).feeding feed.empty.2
  | .act (.relay filter) next, feed =>
    let out := feed.through filter
    let ending : Program α :=
      if feed.cycle = [] then (next (out.ready, out.fault)).feeding feed.empty.2
      else .act (.flood out.cycle) fun fault => (next ([], fault)).feeding feed.empty.2
    if out.ready = [] then ending
    else .act (.write .out out.ready) fun
      | some fault => (next ([], some fault)).feeding feed.empty.2
      | none => ending
  | .act (.inquire .input) next, feed => (next none).feeding feed
  | .act action next, feed => .act action fun answer => (next answer).feeding feed

end Program

abbrev Task := ExceptT Fault Program

namespace Task

def perform (action : Action) : Task action.Answer := ExceptT.lift (Program.perform action)

def check (fault : Option Fault) : Task Unit :=
  match fault with
  | none => pure ()
  | some f => throw f

def write (channel : Channel) (data : Bytes) : Task Unit := do
  check (← perform (.write channel data))

def pour (data : Bytes) : Task Unit := if data = [] then pure () else write .out data

def tryWrite (channel : Channel) (data : Bytes) : Task Unit := do
  let _ ← perform (.write channel data)

def relay : Task Unit := do check (← perform (.relay Filter.all)).2

/-- All of the input. A fault of the input is passed on. -/
def readAll : Task Bytes := do
  let (data, fault) ← perform (.read .all)
  check fault
  return data

end Task

structure Proc where
  args : List String
  env : Table
  dir : String
  hostInput : Bool

namespace Proc

def path (p : Proc) (name : String) : String := Path.resolve p.dir name

def arg (p : Proc) (i : Nat) : String := p.args.getD i ""

def getenv (p : Proc) (key : String) : Task String := do
  match p.env.find? key with
  | some value => return value
  | none => return (← Task.perform (.lookup key)).getD ""

end Proc

structure Builtin where
  /-- Runs before the next stage is launched. -/
  inOrder : Bool
  task : Proc → Task Unit

end Pipework
