import Pipework.Host.Basic
import Pipework.Memory
import Pipework.Overlay

/-!
# The world of a shell

Everything that a script can see or change and that outlives it: the registered builtins, the
files, the overlays, the streams of the host, and the mocks.
-/

namespace Pipework

structure World where
  builtins : List (String × Builtin)
  /-- Builtins that run others, which they find by name. One under the same name goes before. -/
  wrappers : List (String × ((String → Option Builtin) → Builtin))
  inMemory : Bool
  memory : FileTree
  host : Host
  overlays : List Overlay
  input : Bytes
  output : Bytes
  errors : Bytes
  trace : Bytes
  mocks : List (String × MockCommand)

namespace World

def builtin? (w : World) (name : String) : Option Builtin :=
  (w.builtins.lookup name).or ((w.wrappers.lookup name).map fun b => b fun n => w.builtins.lookup n)

def overlay (w : World) (id : Nat) : Overlay := w.overlays.getD id []

def setOverlay (w : World) (id : Nat) (o : Overlay) : World :=
  { w with overlays := w.overlays.set id o }

def newOverlay (w : World) : Nat × World :=
  (w.overlays.length, { w with overlays := w.overlays ++ [[]] })

def serveMemory (t : FileTree) : FileRequest → Except Fault (Feed × FileTree)
  | .read path | .load path => (Memory.open? t path).map (Feed.ofBytes ·, t)
  | .create path => (Memory.create t path).map (.nothing, ·)
  | .append path => (Memory.append t path).map (.nothing, ·)
  | .write _ _ _ => .ok (.nothing, t)
  | .commit path data => .ok (.nothing, Memory.commit t path data)
  | .isDirectory path =>
    if Memory.isDirectory t path then .ok (.nothing, t) else .error .noDirectory
  | .makeDirectory path => (Memory.makeAll t path).map (.nothing, ·)
  | .release _ | .list _ | .removeDirectory _ | .setExecutable _ _ => .ok (.nothing, t)

def serve (w : World) (storage : Storage) (request : FileRequest) : Except Fault Feed × World :=
  match storage with
  | .host =>
    let (reply, host) := w.host.serve request
    (reply, { w with host := host })
  | .shell =>
    if w.inMemory then
      match serveMemory w.memory request with
      | .ok (feed, memory) => (.ok feed, { w with memory := memory })
      | .error fault => (.error fault, w)
    else
      let (reply, host) := w.host.serveBuiltin request
      (reply, { w with host := host })

def isHeld (w : World) : Storage → Bool
  | .host => false
  | .shell => w.inMemory

def mock (w : World) (name : String) : MockCommand := (w.mocks.lookup name).getD Mock.empty

def setMock (w : World) (name : String) (m : MockCommand) : World :=
  { w with mocks := Mock.assign name m w.mocks }

def handle (w : World) (name : String) (builtin : Builtin) : World :=
  { w with builtins := (name, builtin) :: w.builtins }

end World

end Pipework
