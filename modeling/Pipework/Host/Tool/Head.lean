import Pipework.Host.Tool.Basic

/-!
# The tool `head`

It gives the beginning of files: a number of lines or bytes, or all but a number of them at the
end. Several files are shown under their names.
-/

namespace Pipework.Host.Tool

structure Portion where
  inBytes : Bool
  /-- The number counts what is left out at the end. -/
  fromEnd : Bool
  count : Nat
deriving DecidableEq, Repr

def unitFactor? (unit : String) : Option Nat :=
  match unit.toList with
  | [] => some 1
  | ['b'] => some 512
  | c :: rest =>
    match ['K', 'M', 'G', 'T', 'P', 'E'].findIdx? (· = if c = 'k' then 'K' else c) with
    | none => none
    | some i =>
      if rest = [] || rest = ['i', 'B'] then some (Nat.pow 1024 (i + 1))
      else if rest = ['B'] then some (Nat.pow 1000 (i + 1)) else none

def maxCount : Nat := 18446744073709551615

def Portion.ofValue (inBytes : Bool) (value : String) : Except String Portion :=
  let cs := value.toList
  let body := match cs with
    | '-' :: body | '+' :: body => body
    | body => body
  let digits := body.takeWhile Char.isDigit
  let what := "invalid number of " ++ (if inBytes then "bytes" else "lines") ++ ": "
    ++ quotedText value
  match number? (String.ofList digits), unitFactor? (String.ofList (body.drop digits.length)) with
  | some n, some factor =>
    if n * factor ≤ maxCount then .ok ⟨inBytes, cs.head? = some '-', n * factor⟩
    else .error (what ++ ": Value too large for defined data type")
  | _, _ => .error what

def checkInput (fault : Option Fault) : Task Unit :=
  match fault with
  | some (.plain text) => throw (.plain text)
  | _ => pure ()

def copyLines : Nat → Task Nat
  | 0 => pure 0
  | n + 1 => do
    let (data, fault) ← Task.perform (.read .line)
    checkInput fault
    if data = [] then pure 0
    else
      write data
      return data.length + (← copyLines n)

def blockSize : Nat := 8192

/-- Takes the rest of the block in which lines of `count` bytes ended, as far as it is there. A file
is left at the end of the lines. -/
def dropBlock (count : Nat) : Task Unit := do
  if (← Task.perform (.inquire .input)).isNone then
    let _ ← Task.perform (.read (.ready ((blockSize - count % blockSize) % blockSize)))

def linesIn : Bytes → List Bytes
  | [] => []
  | b :: rest =>
    if b = 10 then [10] :: linesIn rest
    else match linesIn rest with
      | [] => [[b]]
      | line :: lines => (b :: line) :: lines

def writeSome (data : Bytes) : Task Unit := if data = [] then pure () else write data

def Portion.copy (o : Portion) : Task Unit := do
  if o.fromEnd then
    let (data, fault) ← Task.perform (.read .all)
    checkInput fault
    let lines := linesIn data
    writeSome (if o.inBytes then data.take (data.length - o.count)
      else (lines.take (lines.length - o.count)).flatten)
  else if o.inBytes then
    let (data, fault) ← Task.perform (.read (.count o.count))
    checkInput fault
    writeSome data
  else dropBlock (← copyLines o.count)

def headFiles (p : Spawn) (o : Portion) (titled : Bool) :
    (isFirst : Bool) → List String → Task Bool
  | _, [] => pure true
  | isFirst, name :: names => do
    let shown := if name = "-" then "standard input" else name
    let title := "==> " ++ shown ++ " <==\n"
    let body : Task Unit := do
      if titled then write (utf8 ((if isFirst then "" else "\n") ++ title))
      o.copy
    if name = "-" then
      let succeeded ← attempt shown body
      return (← headFiles p o titled false names) && succeeded
    else match ← files p .read name with
      | .error fault =>
        complain p ("cannot open " ++ quotedName name ++ " for reading: " ++ reason fault)
        let _ ← headFiles p o titled isFirst names
        return false
      | .ok feed =>
        let succeeded ← attempt shown (Program.feeding body.run feed)
        return (← headFiles p o titled false names) && succeeded
where
  attempt (shown : String) (body : Task Unit) : Task Bool := do
    match ← ExceptT.lift body.run with
    | .ok () => return true
    | .error (.plain text) =>
      complain p ("error reading " ++ quotedName shown ++ ": " ++ reason (.plain text))
      return false
    | .error fault => throw fault

/-- An option such as `-5` in the way in which it is written otherwise. -/
def modernized (args : List String) : List String :=
  match args with
  | [] => []
  | arg :: rest =>
    match arg.toList with
    | '-' :: cs =>
      let digits := cs.takeWhile Char.isDigit
      let after := String.ofList (cs.drop digits.length)
      if digits = [] then args
      else if after = "" || after = "l" then "-n" :: String.ofList digits :: rest
      else if after = "c" then "-c" :: String.ofList digits :: rest
      else args
    | _ => args

def headFlags : List Flag :=
  [⟨'c', "bytes", true⟩, ⟨'n', "lines", true⟩, ⟨'q', "quiet", false⟩, ⟨'q', "silent", false⟩,
   ⟨'v', "verbose", false⟩, ⟨'z', "zero-terminated", false⟩]

def head (p : Spawn) : Task Unit :=
  withArguments { p with args := p.name :: modernized p.args.tail } headFlags true 1 fun a => do
    let portion : Except String Portion := match a.last? ['c', 'n'] with
      | none => .ok ⟨false, false, 10⟩
      | some (letter, value) => Portion.ofValue (letter = 'c') value
    match portion with
    | .error text =>
      complain p text
      exit 1
    | .ok o =>
      let names := if a.operands = [] then ["-"] else a.operands
      let titled : Bool := match a.last? ['q', 'v'] with
        | none => names.length > 1
        | some (letter, _) => letter = 'v'
      exit (if ← headFiles p o titled true names then 0 else 1)

end Pipework.Host.Tool
