import Pipework.Host.Tool.Basic

/-!
# The tool `cat`

It joins files. Options make it number lines, drop blank lines that follow each other, and show
bytes that cannot be seen.
-/

namespace Pipework.Host.Tool

/-- Copies the input to the output through a filter; `refusal` says what to complain about when
the input cannot be read. -/
def copy (p : Spawn) (filter : Filter) (refusal : String) : Task Bool := do
  match (← Task.perform (.relay filter)).2 with
  | none => return true
  | some (.plain text) =>
    complain p (refusal ++ ": " ++ reason (.plain text))
    return false
  | some _ => throw Signal.brokenPipe

def isOwnOutput (path : Option String) : Task Bool := do
  match path with
  | none => return false
  | some path =>
    if (← Task.perform (.inquire .output)) ≠ some path then return false
    match ← Task.perform (.files .host (.read path)) with
    | .ok feed => return feed.ready ≠ []
    | .error _ => return false

def unlessOutput (p : Spawn) (body : Task Bool) (name : String) : Task Bool := do
  let path ← if name = "-" then Task.perform (.inquire .input)
    else pure (some (Path.clean (p.path name)))
  if ← isOwnOutput path then
    complain p (shownName name ++ ": input file is output file")
    return false
  onFile p shownName body name

structure LineStyle where
  number : Bool
  numberFilled : Bool
  /-- Only the first of blank lines that follow each other is shown. -/
  squeeze : Bool
  ends : Bool
  tabs : Bool
  others : Bool
deriving DecidableEq, Repr

namespace LineStyle

def ofArguments (a : Arguments) : LineStyle where
  number := a.has 'n'
  numberFilled := a.has 'b'
  squeeze := a.has 's'
  ends := a.has 'E' || a.has 'A' || a.has 'e'
  tabs := a.has 'T' || a.has 'A' || a.has 't'
  others := a.has 'v' || a.has 'A' || a.has 'e' || a.has 't'

def isPlain (s : LineStyle) : Bool := s = ⟨false, false, false, false, false, false⟩

def lowByte (b : UInt8) : Bytes :=
  if b < 32 then [94, b + 64] else if b = 127 then [94, 63] else [b]

def byte (s : LineStyle) (b : UInt8) : Bytes :=
  if b = 9 then if s.tabs then [94, 73] else [9]
  else if !s.others then [b]
  else if b < 128 then lowByte b
  else [77, 45] ++ lowByte (b - 128)

structure Position where
  line : Nat
  blanks : Nat
  atStart : Bool
deriving DecidableEq, Repr

def label (line : Nat) : Bytes :=
  let digits := utf8 (toString line)
  List.replicate (6 - digits.length) 32 ++ digits ++ [9]

def shown (s : LineStyle) (position : Position) : Bytes → Bytes × Position
  | [] => ([], position)
  | b :: rest =>
    let isBlankLine := b = 10 && position.atStart
    let blanks := if !position.atStart then 0 else if b = 10 then position.blanks + 1 else 0
    if isBlankLine && s.squeeze && blanks > 1 then shown s { position with blanks := blanks } rest
    else
      let isNumbered :=
        position.atStart && (s.numberFilled && b ≠ 10 || s.number && !s.numberFilled)
      let line := if isNumbered then position.line + 1 else position.line
      let body := if b = 10 then (if s.ends then [36, 10] else [10]) else s.byte b
      let (more, position) := shown s ⟨line, blanks, b = 10⟩ rest
      ((if isNumbered then label line else []) ++ body ++ more, position)

end LineStyle

def showFiles (p : Spawn) (style : LineStyle) :
    List String → LineStyle.Position → Task Bool
  | [], _ => pure true
  | name :: names, position => do
    let (after, succeeded) ← readFile name
    let (data, position) := style.shown position after
    if data ≠ [] then write data
    return (← showFiles p style names position) && succeeded
where
  readFile (name : String) : Task (Bytes × Bool) := do
    if name = "-" then return ((← Task.perform (.read .all)).1, true)
    match ← files p .read name with
    | .ok feed =>
      match feed.fault with
      | none => return (feed.ready, true)
      | some fault =>
        complain p (shownName name ++ ": " ++ reason fault)
        return ([], false)
    | .error fault =>
      complain p (shownName name ++ ": " ++ reason fault)
      return ([], false)

def catFlags : List Flag :=
  [⟨'A', "show-all", false⟩, ⟨'b', "number-nonblank", false⟩, ⟨'e', "", false⟩,
   ⟨'E', "show-ends", false⟩, ⟨'n', "number", false⟩, ⟨'s', "squeeze-blank", false⟩,
   ⟨'t', "", false⟩, ⟨'T', "show-tabs", false⟩, ⟨'u', "", false⟩,
   ⟨'v', "show-nonprinting", false⟩]

def cat (p : Spawn) : Task Unit :=
  withArguments p catFlags true 1 fun a => do
    let names := if a.operands = [] then ["-"] else a.operands
    let style := LineStyle.ofArguments a
    if style.isPlain then
      forEach 1 (fun name => unlessOutput p (copy p Filter.all (shownName name)) name) names
    else exit (if ← showFiles p style names ⟨0, 0, true⟩ then 0 else 1)

end Pipework.Host.Tool
