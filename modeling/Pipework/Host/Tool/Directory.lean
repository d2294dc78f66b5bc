import Pipework.Host.Tool.Basic

/-!
# Tools on directories and files

`ls` lists, `mkdir` and `rmdir` make and remove directories, and `chmod` says whether a file can be
executed.
-/

namespace Pipework.Host.Tool

structure Listing where
  hidden : Bool
  /-- The directory itself and the one around it are listed too. -/
  all : Bool
  plain : Bool
  reversed : Bool
  marked : Bool
deriving DecidableEq, Repr

structure Listed where
  name : String
  entries : Option (List String)

namespace Listing

variable (o : Listing)

def arranged (names : List String) : List String :=
  if o.reversed then (sortTexts names).reverse else sortTexts names

def chosen (names : List String) : List String :=
  let shown := names.filter fun name => o.hidden || name.toList.head? ≠ some '.'
  o.arranged (if o.all then "." :: ".." :: shown else shown)

def look (p : Spawn) (name : String) : Task (Except Fault Listed) := do
  match ← files p .isDirectory name with
  | .ok _ =>
    if o.plain then return .ok ⟨name, none⟩
    match ← files p .list name with
    | .ok feed =>
      let names := (Path.splitAt '\n' (Utf8.decode feed.ready)).filter (· ≠ [])
      return .ok ⟨name, some (o.chosen (names.map String.ofList))⟩
    | .error fault => return .error fault
  | .error _ =>
    if name ≠ "" && Path.clean (p.path name) = Path.clean p.directory then
      return .ok ⟨name, some []⟩
    match ← files p .read name with
    | .ok _ => return .ok ⟨name, none⟩
    | .error fault => return .error fault

def gather (p : Spawn) : List String → Task (List Listed)
  | [] => pure []
  | name :: names => do
    match ← o.look p name with
    | .ok listed => return listed :: (← gather p names)
    | .error fault =>
      complain p ("cannot access " ++ quotedName name ++ ": " ++ reason fault)
      gather p names

def lines (p : Spawn) (dir : String) : List String → Task (List String)
  | [] => pure []
  | name :: names => do
    let reply ← files p .isDirectory (dir ++ name)
    let isMarked := o.marked && reply matches .ok _
    return (name ++ if isMarked then "/\n" else "\n") :: (← lines p dir names)

def sections (p : Spawn) (titled : Bool) : (between : Bool) → List Listed → Task (List String)
  | _, [] => pure []
  | between, l :: rest => do
    let body ← o.lines p (l.name ++ "/") (l.entries.getD [])
    let title := if titled then [l.name ++ ":\n"] else []
    return (if between then ["\n"] else []) ++ title ++ body ++ (← sections p titled true rest)

end Listing

def lsFlags : List Flag :=
  [⟨'a', "all", false⟩, ⟨'A', "almost-all", false⟩, ⟨'d', "directory", false⟩,
   ⟨'r', "reverse", false⟩, ⟨'p', "", false⟩, ⟨'F', "classify", false⟩, ⟨'w', "width", true⟩]
    ++ "1BCGHLNQRSTUXZbcfghiklmnoqstuvx".toList.map fun c => ⟨c, "", false⟩

def ls (p : Spawn) : Task Unit :=
  withArguments p lsFlags true 2 fun a => do
    let o : Listing :=
      { hidden := a.has 'a' || a.has 'A' || a.has 'f'
        all := a.has 'a' || a.has 'f'
        plain := a.has 'd'
        reversed := a.has 'r'
        marked := a.has 'p' || a.has 'F' }
    let names := o.arranged (if a.operands = [] then ["."] else a.operands)
    let found ← o.gather p names
    let single := found.filter fun l => l.entries.isNone
    let directories := found.filter fun l => l.entries.isSome
    let top ← o.lines p "" (single.map Listed.name)
    let below ← o.sections p (names.length > 1) (top ≠ []) directories
    write (utf8 (String.join (top ++ below)))
    exit (if found.length = names.length then 0 else 2)

/-- Makes the directories `above`, `above/name` and so on, as far as they are missing; gives the
first that cannot be made. -/
def makeWay (p : Spawn) (above : String) : List String → Task (Option (String × Fault))
  | [] => pure none
  | name :: names => do
    let path := above ++ name
    match ← files p .isDirectory path with
    | .ok _ => makeWay p (path ++ "/") names
    | .error _ =>
      match ← files p .makeDirectory path with
      | .ok _ => makeWay p (path ++ "/") names
      | .error fault =>
        let isInWay := names ≠ [] && reason fault = "File exists"
        return some (path, if isInWay then .plain "not a directory" else fault)

def makeDirectory (p : Spawn) (parents verbose : Bool) (name : String) : Task Bool := do
  let refused ← if parents && name ≠ "" then
      let rooted := Path.isAbsolute name
      makeWay p (if rooted then "/" else "") ((Path.parts name).filter (· ≠ ""))
    else match ← files p .makeDirectory name with
      | .ok _ => pure none
      | .error fault => pure (some (name, fault))
  match refused with
  | none =>
    if verbose then writeLine (p.name ++ ": created directory " ++ quotedText name)
    return true
  | some (path, fault) =>
    complain p ("cannot create directory " ++ quotedText path ++ ": " ++ reason fault)
    return false

def mkdirFlags : List Flag :=
  [⟨'p', "parents", false⟩, ⟨'m', "mode", true⟩, ⟨'v', "verbose", false⟩]

def mkdir (p : Spawn) : Task Unit :=
  withArguments p mkdirFlags true 1 fun a =>
    if a.operands = [] then seeHelp p "missing operand" 1
    else forEach 1 (makeDirectory p (a.has 'p') (a.has 'v')) a.operands

def removeDirectory (p : Spawn) (a : Arguments) (name : String) : Task Bool := do
  if a.has 'v' then writeLine (p.name ++ ": removing directory, " ++ quotedName name)
  let isRoot := name ≠ "" && name.toList.all (· = '/')
  let isItself := (Path.parts name).getLast? = some "."
  let reply ← if isItself then pure (.error (.plain "invalid argument"))
    else if isRoot then pure (.error (.plain "device or resource busy"))
    else files p .removeDirectory name
  match reply with
  | .ok _ => return true
  | .error fault =>
    if a.has 'i' && reason fault = "Directory not empty" then return true
    complain p ("failed to remove " ++ quotedName name ++ ": " ++ reason fault)
    return false

def removeWay (p : Spawn) (a : Arguments) : List String → Task Bool
  | [] => pure true
  | name :: names => do
    if ← removeDirectory p a name then removeWay p a names else return false

def wayUp (name : String) : List String :=
  let rooted := Path.isAbsolute name
  let parts := (Path.parts name).filter (· ≠ "")
  let paths := (List.range parts.length).map fun n =>
    (if rooted then "/" else "") ++ "/".intercalate (parts.take (n + 1))
  paths.reverse

def rmdirFlags : List Flag :=
  [⟨'p', "parents", false⟩, ⟨'v', "verbose", false⟩, ⟨'i', "ignore-fail-on-non-empty", false⟩]

def rmdir (p : Spawn) : Task Unit :=
  let flags := rmdirFlags
  withArguments p flags true 1 fun a =>
    if a.operands = [] then seeHelp p "missing operand" 1
    else forEach 1 (fun name =>
      if a.has 'p' then removeWay p a (wayUp name) else removeDirectory p a name) a.operands

/-- Whether a file that has had the mode `mode` applied to it can be executed; `now` tells whether
it could before. Nothing if this is no mode. -/
def executableAfter? (now : Bool) (mode : String) : Option Bool :=
  let cs := mode.toList
  if cs ≠ [] && cs.all fun c => '0' ≤ c && c ≤ '7' then
    some ((cs.drop (cs.length - 3)).any fun c => c.toNat % 2 = 1)
  else (Path.splitAt ',' cs).foldlM clause now
where
  clause (now : Bool) (cs : List Char) : Option Bool :=
    let who := cs.takeWhile ['u', 'g', 'o', 'a'].contains
    match cs.drop who.length with
    | op :: perms =>
      if ['+', '-', '='].contains op && perms.all ['r', 'w', 'x', 'X', 's', 't'].contains then
        let executes := perms.contains 'x' || (perms.contains 'X' && now)
        some (if op = '+' then now || executes else if op = '-' then now && !executes
          else executes)
      else none
    | [] => none

def changeMode (p : Spawn) (mode : String) (name : String) : Task Bool := do
  let now := (← files p .load name) matches .ok _
  let after := (executableAfter? now mode).getD now
  match ← files p (.setExecutable · after) name with
  | .ok _ => return true
  | .error fault =>
    complain p ("cannot access " ++ quotedName name ++ ": " ++ reason fault)
    return false

def chmod (p : Spawn) : Task Unit := do
  let isOption (a : String) : Bool := ["-R", "-v", "-c", "-f", "--"].contains a
  match p.args.tail.dropWhile isOption with
  | [] => seeHelp p "missing operand" 1
  | [mode] => seeHelp p ("missing operand after " ++ quotedText mode) 1
  | mode :: names =>
    if executableAfter? false mode = none then seeHelp p ("invalid mode: " ++ quotedText mode) 1
    else forEach 1 (changeMode p mode) names

end Pipework.Host.Tool
