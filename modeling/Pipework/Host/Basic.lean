import Pipework.FileTree
import Pipework.Path
import Pipework.Program

/-!
# The host

The host has an environment, a working directory and files. Its files are seen in two ways. A
process names them as it likes, and has to find the directories on the way. A builtin names them
by their full path, and missing directories are made for it.
-/

namespace Pipework

structure Host where
  env : Table
  workDirectory : String
  tree : FileTree

namespace Host

def absolute (h : Host) (path : String) : String :=
  if Path.isAbsolute path then Path.clean path else Path.join h.workDirectory path

def place (h : Host) (path : String) : Place := Path.fromRoot (h.absolute path)

def currentDirectory (h : Host) : Except Fault String :=
  if h.tree.isDirectory (Path.fromRoot h.workDirectory) then .ok h.workDirectory
  else .error (.about "getwd" .noEntry)

def hasZero (s : String) : Bool := s.toList.any fun c => c.toNat = 0

def isVariable (name value : String) : Bool :=
  name ≠ "" && !name.toList.contains '=' && !hasZero name && !hasZero value

def maxName : Nat := 255

def maxPath : Nat := 4095

def tooLong : Fault := .plain "file name too long"

/-- Goes from the place `p`, which has to be a directory if there is a way to go, along `parts`. -/
def walk (t : FileTree) (p : Place) : (parts : List String) → Except Fault Place
  | [] => .ok p
  | part :: parts =>
    if t.isDirectory p then
      if part = "" || part = "." then walk t p parts
      else if part = ".." then walk t p.dropLast parts
      else if maxName < part.utf8ByteSize then .error tooLong
      else walk t (p ++ [part]) parts
    else .error (if (t.find? p).isSome then .plain "not a directory" else .noEntry)

def locate (h : Host) (path : String) : Except Fault Place :=
  if hasZero path then .error (.plain "invalid argument")
  else if path = "" then .error .noEntry
  else if maxPath < path.utf8ByteSize then .error tooLong
  else
    let start := if Path.isAbsolute path then [] else Path.fromRoot h.workDirectory
    walk h.tree start (Path.parts path)

def node? (h : Host) (path : String) : Except Fault Node := do
  match h.tree.find? (← h.locate path) with
  | some node => return node
  | none => throw .noEntry

def trimSlashes (path : String) : String × Bool :=
  let cs := (path.toList.reverse.dropWhile (· = '/')).reverse
  if cs = [] then (path, false) else (String.ofList cs, cs.length < path.length)

def touch (h : Host) (path : String) : Except Fault (Place × FileTree) := do
  let (trimmed, isTrimmed) := trimSlashes path
  let p ← h.locate trimmed
  match h.tree.find? p with
  | some .directory => throw (.plain "is a directory")
  | some _ => return (← h.locate path, h.tree)
  | none =>
    if isTrimmed then throw (.plain "is a directory")
    return (p, h.tree.put p (.file [] false))

def makeParents (t : FileTree) (p : Place) : FileTree := (t.makeAll p.dropLast).getD t

/-- `old` after `data` has been written over it from `position` on. What is skipped is filled with
zeros. -/
def overwrite (old : Bytes) (position : Nat) (data : Bytes) : Bytes :=
  old.take position ++ List.replicate (position - old.length) 0 ++ data
    ++ old.drop (position + data.length)

def answer (h : Host) (request : FileRequest) : Except Fault (Feed × FileTree) :=
  match request with
  | .read path => do
    match ← h.node? path with
    | .file data _ => return (.ofBytes data, h.tree)
    | .directory => return (⟨[], [], true, some (.plain "is a directory")⟩, h.tree)
    | .device cycle => return (⟨[], cycle, true, none⟩, h.tree)
  | .load path => do
    match ← h.node? path with
    | .file data true => return (.ofBytes data, h.tree)
    | _ => throw (.plain "permission denied")
  | .create path => do
    let (p, tree) ← h.touch path
    return (.nothing, tree.modify p fun _ => [])
  | .append path => do return (.nothing, (← h.touch path).2)
  | .write path position data => do
    let changed (old : Bytes) : Bytes := overwrite old (position.getD old.length) data
    return (.nothing, h.tree.modify (← h.locate path) changed)
  | .commit _ _ | .release _ => .ok (.nothing, h.tree)
  | .isDirectory path => do
    match ← h.node? path with
    | .directory => return (.nothing, h.tree)
    | _ => throw (.plain "not a directory")
  | .list path => do
    match ← h.node? path with
    | .directory =>
      let names := sortTexts (h.tree.children (← h.locate path))
      return (.ofBytes (utf8 (String.join (names.map (· ++ "\n")))), h.tree)
    | _ => throw (.plain "not a directory")
  | .makeDirectory path => do
    let p ← h.locate (trimSlashes path).1
    if (h.tree.find? p).isSome then throw (.plain "file exists")
    return (.nothing, h.tree.put p .directory)
  | .removeDirectory path => do
    let p ← h.locate path
    match ← h.node? path with
    | .directory =>
      if h.tree.children p = [] then return (.nothing, h.tree.remove p)
      else throw (.plain "directory not empty")
    | _ => throw (.plain "not a directory")
  | .setExecutable path executable => do
    match ← h.node? path with
    | .file data _ => return (.nothing, h.tree.put (← h.locate path) (.file data executable))
    | _ => return (.nothing, h.tree)

def subject : FileRequest → String
  | .read path | .load path | .create path | .append path | .write path _ _ | .commit path _
  | .release path | .isDirectory path | .list path | .makeDirectory path | .removeDirectory path
  | .setExecutable path _ => path

def about (path : String) : FileRequest → FileRequest
  | .read _ => .read path
  | .load _ => .load path
  | .create _ => .create path
  | .append _ => .append path
  | .write _ position data => .write path position data
  | .commit _ data => .commit path data
  | .release _ => .release path
  | .isDirectory _ => .isDirectory path
  | .list _ => .list path
  | .makeDirectory _ => .makeDirectory path
  | .removeDirectory _ => .removeDirectory path
  | .setExecutable _ executable => .setExecutable path executable

def serve (h : Host) (request : FileRequest) : Except Fault Feed × Host :=
  match h.answer request with
  | .ok (feed, tree) => (.ok feed, { h with tree := tree })
  | .error fault => (.error (.about ("open " ++ subject request) fault), h)

/-- Whether `path`, which does not start at the root, leads out of the working directory or cannot
be a path at all. -/
def isInvalid (path : String) : Bool :=
  !Path.isAbsolute path && (hasZero path || (Path.components false path).head? == some "..")

def makeAll (h : Host) (path : String) : Except Fault FileTree :=
  let p := h.place path
  let refused (p : Place) (fault : Fault) : Except Fault FileTree :=
    .error (.about ("mkdir /" ++ "/".intercalate p) fault)
  match p.findIdx? fun name => maxName < name.utf8ByteSize with
  | some i => refused (p.take (i + 1)) tooLong
  | none =>
    match h.tree.makeAll p with
    | some tree => .ok tree
    | none => refused ((h.tree.obstacle? p).getD []) (.plain "not a directory")

/-- Answers a request about a file. A file that is to be written to, but cannot be because there is
no directory for it, gets one. -/
def answerMaking (h : Host) (request : FileRequest) : Except Fault (Feed × FileTree) :=
  match request, h.answer request with
  | .create path, .error .noEntry | .append path, .error .noEntry =>
    { h with tree := makeParents h.tree (h.place path) }.answer request
  | _, reply => reply

def serveBuiltin (h : Host) (request : FileRequest) : Except Fault Feed × Host :=
  let path := subject request
  if isInvalid path then (.error (.plain "invalid path"), h)
  else match request with
  | .makeDirectory _ =>
    match h.makeAll path with
    | .ok tree => (.ok .nothing, { h with tree := tree })
    | .error fault => (.error fault, h)
  | _ =>
    match h.answerMaking (about (h.absolute path) request) with
    | .ok (feed, tree) => (.ok feed, { h with tree := tree })
    | .error fault => (.error (.about ("open " ++ h.absolute path) fault), h)

end Host

end Pipework
