/-!
# Paths

Paths are cleaned without looking at any file: empty components and `.` go away, and `..` takes
the component before it away. At the root `..` is dropped, and at the start of a relative path it
stays.
-/

namespace Pipework.Path

def isAbsolute (path : String) : Bool := path.toList.head? == some '/'

def splitAt (sep : Char) : List Char → List (List Char)
  | [] => [[]]
  | c :: cs =>
    if c = sep then [] :: splitAt sep cs
    else match splitAt sep cs with
      | [] => [[c]]
      | part :: parts => (c :: part) :: parts

def parts (path : String) : List String := (splitAt '/' path.toList).map String.ofList

def splitColon (path : String) : List String := (splitAt ':' path.toList).map String.ofList

def push (rooted : Bool) (done : List String) (part : String) : List String :=
  if part = "" || part = "." then done
  else if part = ".." then
    match done with
    | [] => if rooted then [] else [".."]
    | last :: before => if last = ".." then ".." :: done else before
  else part :: done

def components (rooted : Bool) (path : String) : List String :=
  ((parts path).foldl (push rooted) []).reverse

def fromRoot (path : String) : List String := components true path

def clean (path : String) : String :=
  let body := "/".intercalate (components (isAbsolute path) path)
  if isAbsolute path then "/" ++ body
  else if body = "" then "." else body

def join (dir name : String) : String :=
  if dir = "" && name = "" then ""
  else if dir = "" then clean name
  else if name = "" then clean dir
  else clean (dir ++ "/" ++ name)

/-- `name` as seen from the directory `dir`; no directory leaves it alone. -/
def resolve (dir name : String) : String :=
  if isAbsolute name || dir = "" then name else join dir name

def below (dir name : String) : String :=
  if isAbsolute name || name = "" then name else dir ++ "/" ++ name

def base (path : String) : String :=
  match (components (isAbsolute path) path).getLast? with
  | some last => last
  | none => if isAbsolute path then "/" else "."

end Pipework.Path
