import Pipework.Builtin.Mocking
import Pipework.Builtin.Text
import Pipework.Builtin.Workbench
import Pipework.Host.Programs
import Pipework.Job

/-!
# Sessions

A session is a shell in use: scripts are run on it in the foreground, read from, or started in the
background, all on one world. Foreground scripts run to their end. What the streams of the host
receive is gathered until it is asked for.
-/

namespace Pipework

/-- A shell with files in memory, the one that is shared by default, one on the files of the host,
and one without builtins. -/
inductive ShellKind where
  | memory
  | shared
  | host
  | bare
deriving DecidableEq, Repr

namespace ShellKind

def inMemory : ShellKind → Bool
  | .memory | .shared => true
  | .host | .bare => false

def builtins (file : String) (line : Int) : ShellKind → List (String × Builtin)
  | .memory => Builtin.workbench file line ++ Builtin.text ++ Builtin.standard
  | .shared =>
    ("noop", Builtin.concurrent fun _ => pure ()) :: Builtin.workbench file line ++ Builtin.text
      ++ Builtin.standard
  | .host => Builtin.workbench file line ++ Builtin.standard
  | .bare => []

end ShellKind

def ShellKind.wrappers : ShellKind → List (String × ((String → Option Builtin) → Builtin))
  | .bare => []
  | _ =>
    [(Builtin.brokenInputName, fun find? => Builtin.concurrent (Builtin.onBrokenInput find?))]

structure Session where
  world : World
  symbols : Table
  /-- The overlay that all scripts share, if they share one. -/
  overlay : Option Nat
  /-- Changes of the shared overlay that no script makes go through this scope. -/
  scope : Scope
  readers : List (String × Reader)
  jobs : List (String × Job)

namespace Session

def initial (kind : ShellKind) (file : String) (line : Int) (host : Host) (input : Bytes)
    (symbols : Table) (overlay : Option Overlay) : Session :=
  let world : World :=
    { builtins := kind.builtins file line
      wrappers := kind.wrappers
      inMemory := kind.inMemory
      memory := .empty
      host := host
      overlays := overlay.toList
      input := input
      output := []
      errors := []
      trace := []
      mocks := [] }
  ⟨world, symbols, overlay.map fun _ => 0, .opened, [], []⟩

structure Request where
  file : String
  line : Int
  symbols : Table
  canceled : Bool
  text : String

def context (s : Session) (r : Request) : Context :=
  ⟨Table.merge s.symbols r.symbols, s.overlay, r.canceled⟩

def parse (s : Session) (r : Request) : Except Mistake Script :=
  Script.parse ⟨(s.context r).symbols, r.file, r.line⟩ r.text

def background (s : Session) (r : Request) (m : Mode) (script : Script) (w : World) : Background :=
  script.execute Host.programs (s.context r) m w

def execute (s : Session) (r : Request) (m : Mode) (script : Script) :
    Except Fault String × Session :=
  let (result, world) := (s.background r m script s.world).complete
  (result, { s with world := world })

def runText (s : Session) (r : Request) (m : Mode) : Except Fault String × Session :=
  match s.parse r with
  | .error mistake => (.error (.mistake mistake), s)
  | .ok script => s.execute r m script

def reader (s : Session) (r : Request) : Reader :=
  match s.parse r with
  | .error mistake => .failed (.mistake mistake)
  | .ok script => .idle (s.background r .stream script)

/-- Starts a script, takes `want` bytes of its output, and stops it. A script of which no bytes are
wanted is stopped before it begins, and how it ends is not told. The fault `refusal` stands for
what the consumer has to say in the end. -/
def stream (s : Session) (r : Request) (want : Option Nat) (refusal : Option Fault) :
    (Bytes × Option Fault) × Session :=
  match s.parse r with
  | .error mistake => (([], some (.mistake mistake)), s)
  | .ok script =>
    if want = some 0 then
      let (_, world) := (s.background r .abandoned script s.world).finish
      (([], refusal), { s with world := world })
    else
    let (reader, world) := (Reader.idle (s.background r .stream script)).begin s.world
    let ((data, ending), reader, world) := reader.read want world
    let (closing, _, world) := reader.close world
    let readFault := match ending with
      | .fault fault => some fault
      | _ => none
    ((data, Reader.outcome (refusal.or readFault) closing), { s with world := world })

def setReader (s : Session) (id : String) (reader : Reader) : Session :=
  { s with readers := Mock.assign id reader s.readers }

def openReader (s : Session) (id : String) (r : Request) : Session := s.setReader id (s.reader r)

def readReader (s : Session) (id : String) (want : Option Nat) : (Bytes × ReadEnd) × Session :=
  let reader := (s.readers.lookup id).getD .closed
  let (answer, reader, world) := reader.read want s.world
  (answer, { s with world := world }.setReader id reader)

def closeReader (s : Session) (id : String) : Option Fault × Session :=
  let reader := (s.readers.lookup id).getD .closed
  let (fault, reader, world) := reader.close s.world
  (fault, { s with world := world }.setReader id reader)

def setJob (s : Session) (id : String) (job : Job) : Session :=
  { s with jobs := Mock.assign id job s.jobs }

def start (s : Session) (id : String) (r : Request) (m : Mode) : Option Fault × Session :=
  match s.parse r with
  | .error mistake => (some (.mistake mistake), s)
  | .ok script =>
    let (job, world) := Job.start (s.background r m script) s.world
    (none, { s with world := world }.setJob id job)

def waitJob (s : Session) (id : String) : Except Fault String × Session :=
  match s.jobs.lookup id with
  | none => (.ok "", s)
  | some job =>
    let (result, job, world) := job.wait s.world
    (result, { s with world := world }.setJob id job)

def killJob (s : Session) (id : String) : Option Fault × Session :=
  match s.jobs.lookup id with
  | none => (none, s)
  | some job =>
    let (fault, job, world) := job.kill s.world
    (fault, { s with world := world }.setJob id job)

def overlayVars (s : Session) : Overlay := (s.overlay.map s.world.overlay).getD []

def assign (s : Session) (key : String) (value : Option String) : Session :=
  match s.overlay with
  | none => s
  | some id =>
    let (scope, overlay) := s.scope.assign (s.world.overlay id) key value
    { s with world := s.world.setOverlay id overlay, scope := scope }

def getenv (s : Session) (key : String) : String :=
  (lookupThrough s.overlayVars s.world.host.env key).getD ""

def isRegistered (s : Session) (name : String) : Bool := (s.world.builtin? name).isSome

def files (s : Session) (request : FileRequest) : Except Fault Feed × Session :=
  let (reply, world) := s.world.serve .shell request
  (reply, { s with world := world })

def tryFiles (s : Session) (request : FileRequest) : Option Fault × Session :=
  match s.files request with
  | (.ok _, s) => (none, s)
  | (.error fault, s) => (some fault, s)

def makeDirectory (s : Session) (path : String) : Option Fault × Session :=
  s.tryFiles (.makeDirectory path)

def writeFile (s : Session) (path : String) (data : Bytes) : Option Fault × Session :=
  let h : Handle := ⟨.shell, path, false, []⟩
  match s.tryFiles (.create path) with
  | (some fault, s) => (some fault, s)
  | (none, s) => (s.tryFiles (h.writing data)).2.tryFiles (h.written data).closing

/-- The files of the shell with their contents, directories with none, below the root or below the
working directory of the host. -/
def listing (s : Session) : List (String × Option Bytes) :=
  let (tree, root) :=
    if s.world.inMemory then (s.world.memory, [])
    else (s.world.host.tree, Path.fromRoot s.world.host.workDirectory)
  tree.entries.filterMap fun (p, node) =>
    if root.isPrefixOf p && p ≠ root then
      let name := "/".intercalate (p.drop root.length)
      some (match node with
        | .file data _ => (name, some data)
        | .directory => (name ++ "/", none)
        | .device _ => (name, some []))
    else none

def registerMock (s : Session) (id name : String) : Session :=
  let world := s.world.setMock id (s.world.mock id)
  { s with world := world.handle name (Builtin.concurrent (Builtin.mock id)) }

def changeMock (s : Session) (id : String) (f : MockCommand → MockCommand) : Session :=
  { s with world := s.world.setMock id (f (s.world.mock id)) }

def takeStreams (s : Session) : (Bytes × Bytes × Bytes) × Session :=
  ((s.world.output, s.world.errors, s.world.trace),
    { s with world := { s.world with output := [], errors := [], trace := [] } })

end Session

end Pipework
