import Pipework.Host.Tool.Basic

/-!
# The tool `wc`

It counts the lines, the words and the bytes of files, and shows the numbers in columns, in the end
those of all files together.
-/

namespace Pipework.Host.Tool

structure Counts where
  lines : Nat
  words : Nat
  bytes : Nat
  width : Nat
deriving DecidableEq, Repr

namespace Counts

def isSpace (b : UInt8) : Bool := b = 32 || (9 ≤ b && b ≤ 13)

/-- The number of words in `data`. Bytes that cannot be shown belong to no word. -/
def wordsIn (data : Bytes) : Nat :=
  (data.foldl (fun (n, inside) b =>
    if isSpace b then (n, false)
    else if isShowable b then (if inside then n else n + 1, true)
    else (n, inside)) (0, false)).1

/-- The width of the widest line: tabs go to the next multiple of eight. -/
def widthOf (data : Bytes) : Nat :=
  let (widest, last) := data.foldl (fun (widest, width) b =>
    if b = 10 || b = 13 || b = 12 then (max widest width, 0)
    else if b = 9 then (widest, width + 8 - width % 8)
    else if isShowable b then (widest, width + 1)
    else (widest, width)) (0, 0)
  max widest last

def ofBytes (data : Bytes) : Counts := ⟨data.count 10, wordsIn data, data.length, widthOf data⟩

def add (a b : Counts) : Counts :=
  ⟨a.lines + b.lines, a.words + b.words, a.bytes + b.bytes, max a.width b.width⟩

def columns (c : Counts) (letters : List Char) : List Nat :=
  [('l', c.lines), ('w', c.words), ('m', c.bytes), ('c', c.bytes), ('L', c.width)].filterMap
    fun (letter, n) => if letters.contains letter then some n else none

def render (c : Counts) (letters : List Char) (width : Nat) (name : Option String) : String :=
  let column (n : Nat) : String :=
    let digits := toString n
    String.ofList (List.replicate (width - digits.length) ' ') ++ digits
  " ".intercalate ((c.columns letters).map column ++ name.toList)

end Counts

structure Subject where
  name : Option String
  counts : Counts
  size : Option Nat
  complaint : Option String

def inputSubject (name : Option String) : Task Subject := do
  let path ← Task.perform (.inquire .input)
  let (data, fault) ← Task.perform (.read .all)
  let size := if fault = none then path.map fun _ => data.length else none
  let complaint := fault.map fun f => name.getD "'standard input'" ++ ": " ++ reason f
  return ⟨name, .ofBytes data, size, complaint⟩

def subjectOf (p : Spawn) (name : String) : Task (Except String Subject) := do
  if name = "-" then return .ok (← inputSubject (some name))
  else if name = "" then return .error "invalid zero-length file name"
  else match ← files p .read name with
    | .error fault => return .error (shownName name ++ ": " ++ reason fault)
    | .ok feed =>
      let counts := Counts.ofBytes feed.ready
      match feed.fault with
      | some fault =>
        return .ok ⟨some name, counts, none, some (shownName name ++ ": " ++ reason fault)⟩
      | none =>
        let isFile := Path.clean name ≠ "/dev/null"
        return .ok ⟨some name, counts, if isFile then some counts.bytes else none, none⟩

def subjectsOf (p : Spawn) : List String → Task (List (Except String Subject))
  | [] => pure []
  | name :: names => do return (← subjectOf p name) :: (← subjectsOf p names)

/-- The width of the columns: enough for the sizes of all files together. What is no file might
have any size. -/
def columnWidth (subjects : List (Except String Subject)) (columns : Nat) : Nat :=
  match subjects with
  | .error _ :: _ => 1
  | [_] => if columns = 1 then 1 else widthFor
  | _ => widthFor
where
  widthFor : Nat :=
    let found := subjects.filterMap fun
      | .ok s => some s.size
      | .error _ => none
    let total := found.foldl (fun sum size => sum + size.getD 0) 0
    max (toString total).length (if found.contains none then 7 else 1)

def showCounts (p : Spawn) (letters : List Char) (width : Nat) :
    List (Except String Subject) → Task Bool
  | [] => pure true
  | .error text :: rest => do
    complain p text
    let _ ← showCounts p letters width rest
    return false
  | .ok s :: rest => do
    match s.complaint with
    | some text => complain p text
    | none => pure ()
    writeLine (s.counts.render letters width s.name)
    return (← showCounts p letters width rest) && s.complaint.isNone

def wcFlags : List Flag :=
  [⟨'c', "bytes", false⟩, ⟨'m', "chars", false⟩, ⟨'l', "lines", false⟩, ⟨'w', "words", false⟩,
   ⟨'L', "max-line-length", false⟩]

def wc (p : Spawn) : Task Unit :=
  withArguments p wcFlags true 1 fun a => do
    let letters := if a.options = [] then ['l', 'w', 'c'] else a.options.map Prod.fst
    let columns := (Counts.columns ⟨0, 0, 0, 0⟩ letters).length
    if a.operands = [] then
      let subjects := [.ok (← inputSubject none)]
      exit (if ← showCounts p letters (columnWidth subjects columns) subjects then 0 else 1)
    else
      let subjects ← subjectsOf p a.operands
      let width := columnWidth subjects columns
      let succeeded ← showCounts p letters width subjects
      if subjects.length > 1 then
        let total : Counts := subjects.foldl (fun (sum : Counts) s =>
          match s with
          | .ok s => sum.add s.counts
          | .error _ => sum) ⟨0, 0, 0, 0⟩
        writeLine (total.render letters width (some "total"))
      exit (if succeeded then 0 else 1)

end Pipework.Host.Tool
