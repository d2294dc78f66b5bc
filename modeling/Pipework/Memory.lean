import Pipework.Fault
import Pipework.FileTree
import Pipework.Path

/-!
# Files kept in memory

Builtins of a shell without host files work on a tree of files in memory. A path names a place
from the root down, whether it starts with a slash or not. A reader holds the contents as they are
when the file is opened. A writer gathers what is written to it, and the bytes are added to the
file when the writer is closed.
-/

namespace Pipework.Memory

/-- Takes the component `part` onto the cleaned ones `done`, the last of them first. A `..` takes
away what is before it, whatever that is. Where nothing is before it in a relative path, it is the
name of a directory like any other. -/
def push (rooted : Bool) (done : List String) (part : String) : List String :=
  if part = "" || part = "." then done
  else if part = ".." then
    match done with
    | [] => if rooted then [] else [".."]
    | _ :: before => before
  else part :: done

def place (path : String) : Place :=
  ((Path.parts path).foldl (push (Path.isAbsolute path)) []).reverse

def shownLike (path : String) (p : Place) : String :=
  let body := "/".intercalate p
  if Path.isAbsolute path then "/" ++ body
  else if body = "" then "." else body

def subject (verb path : String) : String := verb ++ " " ++ shownLike path (place path)

/-- The fault of a directory at or above `p`, a place on the way of `path`, that cannot be made. It
names the file that is in the way. A path that starts with `./` is shown so. -/
def blocked (t : FileTree) (path : String) (p : Place) : Fault :=
  let dot := if "./".toList.isPrefixOf path.toList then "./" else ""
  .about ("mkdir " ++ dot ++ shownLike path ((t.obstacle? p).getD p)) (.plain "not a directory")

def open? (t : FileTree) (path : String) : Except Fault Bytes :=
  match t.find? (place path) with
  | some (.file data _) => .ok data
  | some .directory | some (.device _) => .ok []
  | none => .error (.about (subject "open" path) .fileMissing)

def touch (verb : String) (t : FileTree) (path : String) : Except Fault FileTree :=
  let p := place path
  match t.find? p with
  | some _ => .ok t
  | none =>
    match t.makeAll p.dropLast with
    | some t' => .ok (t'.put p (.file [] false))
    | none =>
      .error (.both (.about (subject verb path) .fileMissing) (blocked t path p.dropLast))

def create (t : FileTree) (path : String) : Except Fault FileTree :=
  (touch "create" t path).map fun t' => t'.modify (place path) fun _ => []

/-- Opens the file at `path` for writing at its end. Of the directories, only the root can be
opened so, and it stays as it is. -/
def append (t : FileTree) (path : String) : Except Fault FileTree :=
  match (place path).getLast? with
  | some name =>
    if t.isDirectory (place path) then
      .error (.about ("append " ++ name) (.plain "is a directory"))
    else touch "append" t path
  | none => .ok t

def commit (t : FileTree) (path : String) (data : Bytes) : FileTree :=
  t.modify (place path) (· ++ data)

def isDirectory (t : FileTree) (path : String) : Bool := t.isDirectory (place path)

def makeAll (t : FileTree) (path : String) : Except Fault FileTree :=
  match t.makeAll (place path) with
  | some t' => .ok t'
  | none => .error (blocked t path (place path))

end Pipework.Memory
