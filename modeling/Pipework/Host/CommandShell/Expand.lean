import Pipework.Host.CommandShell.Arithmetic
import Pipework.Host.CommandShell.Pattern
import Pipework.Host.CommandShell.State
import Pipework.Host.CommandShell.Word

/-!
# What words stand for

A word is replaced by the texts of its pieces. What comes from an unquoted substitution is divided
into fields at the separators; quotes keep a field even if it is empty. A field that is a pattern
is replaced by the names of the files that it matches, if there are any.
-/

namespace Pipework.Host.CommandShell

inductive Atom where
  | char (c : Char) (quoted : Bool)
  /-- Keeps a field that has no characters. -/
  | anchor
  | gap
  /-- Ends a field, even one that has no characters. -/
  | cut
  /-- Takes away a field that has no characters, even if quotes keep it. -/
  | absence
deriving DecidableEq, Repr

def isBlank (c : Char) : Bool := c = ' ' || c = '\t' || c = '\n'

def Atom.ofChar (separators : List Char) (c : Char) : Atom :=
  if separators.contains c then if isBlank c then .gap else .cut else .char c false

def substituted (s : State) (split quoted : Bool) (text : List Char) : List Atom :=
  if quoted then .anchor :: text.map (.char · true)
  else if split then text.map (Atom.ofChar s.separators)
  else text.map (.char · false)

def isAbsent (field : List Atom) : Bool :=
  field.contains .absence && field.all fun a => a = .absence || a = .anchor

/-- The fields of a list of atoms; `field` is the one at hand, its last atom first. Blanks around
another separator divide nothing. -/
def fields (field : List Atom) (afterGap : Bool) : List Atom → List (List Atom)
  | [] => if field = [] || isAbsent field then [] else [field.reverse]
  | .gap :: rest =>
    if field = [] then fields [] afterGap rest else field.reverse :: fields [] true rest
  | .cut :: rest =>
    if field = [] && afterGap then fields [] false rest else field.reverse :: fields [] false rest
  | a :: rest => fields (a :: field) false rest

def marked (atoms : List Atom) : Pattern :=
  atoms.filterMap fun
    | .char c quoted => some (c, quoted)
    | _ => none

def textOf (p : Pattern) : String := String.ofList (p.map Prod.fst)

def outputText (data : Bytes) : List Char :=
  Utf8.decode (data.reverse.dropWhile (· = 10)).reverse

def componentsOf : Pattern → List Pattern
  | [] => [[]]
  | (c, quoted) :: rest =>
    if c = '/' then [] :: componentsOf rest
    else match componentsOf rest with
      | [] => [[(c, quoted)]]
      | part :: parts => ((c, quoted) :: part) :: parts

/-- The names in the directory `dir` that the pattern matches; those of the directory itself and of
the one around it come first. Only a pattern that starts with a dot matches a name that does. -/
def namesIn (s : State) (dir : String) (p : Pattern) : Program (List String) := do
  let path := Path.below s.directory (if dir = "" then "." else dir)
  match ← Program.perform (.files .host (.list path)) with
  | .ok feed =>
    let names := ['.'] :: ['.', '.'] :: Path.splitAt '\n' (Utf8.decode feed.ready)
    let isHidden (name : List Char) : Bool := name.head? = some '.'
    let dotted := isHidden (p.map Prod.fst)
    return (names.filter fun name =>
      name ≠ [] && (dotted || !isHidden name) && p.matchesText name).map String.ofList
  | .error _ => return []

def pathsBelow (s : State) (dir : String) : List Pattern → Program (List String)
  | [] => pure [dir]
  | p :: rest => do
    let slash := if rest = [] then "" else "/"
    if p.isActive then
      let names ← namesIn s dir p
      let found ← onEach names fun name => pathsBelow s (dir ++ name ++ slash) rest
      return found
    else
      let next := dir ++ textOf p
      if rest = [] then
        match ← Program.perform (.files .host (.read (Path.below s.directory next))) with
        | .ok _ => return [next]
        | .error _ => return []
      else pathsBelow s (next ++ slash) rest
where
  onEach (names : List String) (f : String → Program (List String)) : Program (List String) :=
    match names with
    | [] => pure []
    | name :: names => do return (← f name) ++ (← onEach names f)

def fieldTexts (s : State) (field : List Atom) : Program (List String) := do
  let p := marked field
  if s.options.noglob || !p.isActive then return [textOf p]
  match ← pathsBelow s "" (componentsOf p) with
  | [] => return [textOf p]
  | paths => return paths

def State.withHome (s : State) (word : Word) : Word :=
  match word, s.vars.find? "HOME" with
  | .text ['~'] false :: rest, some home =>
    match rest with
    | [] | .text ('/' :: _) false :: _ => .text home.toList true :: rest
    | _ => word
  | _, _ => word

namespace Machine

variable (m : Machine)

def finish : (jobs : List Job) → State → Program State
  | [], s => pure { s with jobs := [] }
  | job :: jobs, s => do
    let start :=
      { s.forked with args := job.args, vars := job.vars, directory := job.directory }
    let (inner, p) ← (m.call job.body false start).through (s.streams.feedWith .nothing none)
    let status := (s.afterApart inner).status
    finish jobs { s.withStreams true p s with finished := (job.number, status) :: s.finished }

def leave (s : State) : Program State := do
  match s.flow, s.traps.find? "EXIT" with
  | .ended (.killed _), _ | _, none => m.finish s.jobs s
  | _, some action =>
    let status := (s.afterApart s).status
    let start :=
      { s with
        flow := .onward
        traps := s.traps.erase "EXIT"
        status := status
        leaving := some status }
    let after ← m.nested 1 action.toList false start
    m.finish after.jobs (if after.isOnward then after.exiting status else after)

def capture (line : Nat) (script : List Char) (s : State) : Program (List Char × State) := do
  let streams := { s.streams with out := .buffer, buffer := .nothing }
  let (inner, p) ← (m.nested line script false s.forked >>= m.leave).through streams
  let after := s.afterApart inner
  let after := { after with status := s.status, captured := after.status }
  return (outputText p.buffer.ready, s.withStreams false p after)

def giveUp (line : Nat) (text : String) (s : State) : Program (List Atom × State) := do
  return ([], (← complain s line text).exiting 2)

abbrev Operand := (text : List Char) → (setting : Setting) → State → Program (List Atom × State)

def allArgs (name : String) (split quoted : Bool) (s : State) : List Atom :=
  if name = "@" && quoted && s.args = [] then [.absence]
  else if name = "@" && split && quoted || split && !quoted then
    ((s.args.map fun arg => substituted s split quoted arg.toList).intersperse [.gap]).flatten
  else
    let between := match s.separators.head? with
      | some c => if name = "*" then String.ofList [c] else " "
      | none => if name = "*" then "" else " "
    substituted s split quoted (between.intercalate s.args).toList

def expandParameter (operand : Operand) (line : Nat) (split : Bool) (name : String) (form : Form)
    (text : List Char) (quoted : Bool) (s : State) : Program (List Atom × State) := do
  let value := s.value? name
  let isMissing (colon : Bool) : Bool := value = none || (colon && value = some "")
  let isUnset := value = none && s.options.nounset && name ≠ "@" && name ≠ "*"
  let setting : Setting := if quoted then .operand else .bare
  let shown : List Atom :=
    if name = "@" || name = "*" then allArgs name split quoted s
    else substituted s split quoted (value.getD "").toList
  let spliced (atoms : List Atom) : List Atom :=
    if quoted then .anchor :: atoms
    else atoms.map fun
      | .char c false => if split then Atom.ofChar s.separators c else .char c false
      | a => a
  match form with
  | .value =>
    if isUnset then giveUp line (name ++ ": parameter not set") s else return (shown, s)
  | .length =>
    if isUnset then giveUp line (name ++ ": parameter not set") s
    else return (substituted s split quoted (toString (value.getD "").length).toList, s)
  | .fallback colon =>
    if isMissing colon then
      let (atoms, s) ← operand text setting s
      return (spliced atoms, s)
    else return (shown, s)
  | .assigning colon =>
    if isMissing colon then
      let (atoms, s) ← operand text setting s
      let value := textOf (marked atoms)
      if !isName name.toList then giveUp line (name ++ ": bad variable name") s
      else if s.fixed.contains name then giveUp line (name ++ ": is read only") s
      else return (substituted s split quoted value.toList, s.assign name value)
    else return (shown, s)
  | .required colon =>
    if isMissing colon then
      let (atoms, s) ← operand text setting s
      let why :=
        if text ≠ [] then textOf (marked atoms)
        else if colon then "parameter not set or null" else "parameter not set"
      giveUp line (name ++ ": " ++ why) s
    else return (shown, s)
  | .alternative colon =>
    if isMissing colon then return (if quoted then [.anchor] else [], s)
    else
      let (atoms, s) ← operand text setting s
      return (spliced atoms, s)
  | .trimmed front longest =>
    if isUnset then giveUp line (name ++ ": parameter not set") s
    else
      let (atoms, s) ← operand text .bare s
      let trim := if front then Pattern.trimFront else Pattern.trimBack
      return (substituted s split quoted (trim (marked atoms) longest (value.getD "").toList), s)
  | .unknown => giveUp line "Bad substitution" s

def expandPiece (operand : Operand) (line : Nat) (split : Bool) (piece : Piece) (s : State) :
    Program (List Atom × State) :=
  match piece with
  | .text chars quoted =>
    pure ((if quoted then [.anchor] else []) ++ chars.map (.char · quoted), s)
  | .parameter name form text quoted => expandParameter operand line split name form text quoted s
  | .output script inLine quoted => do
    let (text, s) ← m.capture (if inLine then line else 1) script s
    return (substituted s split quoted text, s)
  | .arithmetic expression quoted => do
    let (atoms, s) ← operand expression .here s
    let text := textOf (marked atoms)
    match Arithmetic.evaluate text s.vars with
    | .ok (value, vars) =>
      match s.fixed.find? fun name => vars.find? name ≠ s.vars.find? name with
      | some name => giveUp line (name ++ ": is read only") s
      | none =>
        let s := { s with vars := vars }
        return (substituted s split quoted (toString value).toList, s)
    | .error mistake => giveUp line (mistake.message text) s

def expandPieces (operand : Operand) (line : Nat) (split : Bool) :
    Word → State → Program (List Atom × State)
  | [], s => pure ([], s)
  | piece :: rest, s => do
    let (atoms, s) ← m.expandPiece operand line split piece s
    if !s.isOnward then return (atoms, s)
    let (more, s) ← expandPieces operand line split rest s
    return (atoms ++ more, s)

def operandAt (line : Nat) : (depth : Nat) → Operand
  | 0 => fun _ _ s => pure ([], s)
  | depth + 1 => fun text setting s =>
    match wholeWord setting text with
    | .ok word => m.expandPieces (operandAt line depth) line false word s
    | .error mistake => giveUp line mistake.message s

def expand (line : Nat) (split : Bool) (word : Word) (s : State) : Program (List Atom × State) :=
  m.expandPieces (m.operandAt line 50) line split (s.withHome word) s

def declarators : List String := ["export", "readonly", "local"]

/-- The texts that words stand for. Among the arguments of a builtin that `declares`, assignments
are not split into fields. -/
def expandWords (line : Nat) (declares : Bool) : List Word → State → Program (List String × State)
  | [], s => pure ([], s)
  | word :: rest, s => do
    let splits := !declares || (assignment? word).isNone
    let (atoms, s) ← m.expand line splits word s
    if !s.isOnward then return ([], s)
    let texts ← if splits then allTexts s (fields [] false atoms) else pure [textOf (marked atoms)]
    let named := declares || (literal? word).any fun cs => declarators.contains (String.ofList cs)
    let (more, s) ← expandWords line named rest s
    return (texts ++ more, s)
where
  allTexts (s : State) : List (List Atom) → Program (List String)
    | [] => pure []
    | field :: rest => do return (← fieldTexts s field) ++ (← allTexts s rest)

def expandPattern (line : Nat) (word : Word) (s : State) : Program (Pattern × State) := do
  let (atoms, s) ← m.expand line false word s
  return (marked atoms, s)

def expandWhole (line : Nat) (word : Word) (s : State) : Program (String × State) := do
  let (p, s) ← m.expandPattern line word s
  return (textOf p, s)

def assignAll (line : Nat) : List (String × Word) → State → Program (Table × State)
  | [], s => pure ([], s)
  | (name, word) :: rest, s => do
    let (value, s) ← m.expandWhole line word s
    if !s.isOnward then return ([], s)
    if s.fixed.contains name then
      return ([], (← complain s line (name ++ ": is read only")).exiting 2)
    let (more, s) ← assignAll line rest (s.assign name value)
    return ((name, value) :: more, s)

end Machine

end Pipework.Host.CommandShell
