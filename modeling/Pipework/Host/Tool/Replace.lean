import Pipework.Host.Tool.Cat

/-!
# The tool `tr`

It replaces bytes of one set by those of another, deletes bytes, and keeps only the first of a run
of the same byte. A set lists bytes, ranges of bytes, classes, and bytes that are repeated.
-/

namespace Pipework.Host.Tool

inductive Member where
  | byte (b : UInt8)
  | range (low high : UInt8)
  | ofClass (name : String)
  /-- A byte so many times, or as often as needed. -/
  | repeated (b : UInt8) (count : Option Nat)
deriving DecidableEq, Repr

inductive SetFault where
  | reversed (low high : UInt8)
  | unknownClass (name : String)
  | badCount (text : String)
  | fillsFirst
  | misaligned
  | classInSecond
  | emptySecond
deriving DecidableEq, Repr

def SetFault.message : SetFault → String
  | .reversed low high =>
    "range-endpoints of '" ++ String.ofList [charOf low, '-', charOf high]
      ++ "' are in reverse collating sequence order"
  | .unknownClass name => "invalid character class " ++ quotedText name
  | .badCount text => "invalid repeat count " ++ quotedText text ++ " in [c*n] construct"
  | .fillsFirst => "the [c*] repeat construct may not appear in string1"
  | .misaligned => "misaligned [:upper:] and/or [:lower:] construct"
  | .classInSecond =>
    "when translating, the only character classes that may appear in\n"
      ++ "string2 are 'upper' and 'lower'"
  | .emptySecond => "when not truncating set1, string2 must be non-empty"

def isLower (b : UInt8) : Bool := 97 ≤ b && b ≤ 122
def isUpper (b : UInt8) : Bool := 65 ≤ b && b ≤ 90
def isDigit (b : UInt8) : Bool := 48 ≤ b && b ≤ 57
def isSpace (b : UInt8) : Bool := b = 32 || (9 ≤ b && b ≤ 13)
def isAlnum (b : UInt8) : Bool := isLower b || isUpper b || isDigit b
def isGraph (b : UInt8) : Bool := 32 < b && b < 127

def classes : List (String × (UInt8 → Bool)) :=
  [("alnum", isAlnum), ("alpha", fun b => isLower b || isUpper b),
   ("blank", fun b => b = 32 || b = 9), ("cntrl", fun b => b < 32 || b = 127), ("digit", isDigit),
   ("graph", isGraph), ("lower", isLower), ("print", isShowable),
   ("punct", fun b => isGraph b && !isAlnum b), ("space", isSpace), ("upper", isUpper),
   ("xdigit", fun b => isDigit b || (65 ≤ b && b ≤ 70) || (97 ≤ b && b ≤ 102))]

def allBytes : List UInt8 := (List.range 256).map UInt8.ofNat

abbrev Lettered := UInt8 × Bool

def letterBytes : List (UInt8 × UInt8) :=
  [(92, 92), (97, 7), (98, 8), (102, 12), (110, 10), (114, 13), (116, 9), (118, 11)]

/-- The bytes of a set with their backslashes resolved. An octal number takes as many digits as fit
a byte, at most three. -/
def lettered : (fuel : Nat) → Bytes → List Lettered
  | 0, _ | _, [] => []
  | _, [92] => [(92, true)]
  | fuel + 1, 92 :: b :: rest =>
    let isOctal (b : UInt8) : Bool := 48 ≤ b && b ≤ 55
    let value (ds : Bytes) : Nat := ds.foldl (fun n d => 8 * n + (d.toNat - 48)) 0
    let digits := ((b :: rest).takeWhile isOctal).take 3
    let digits := if value digits > 255 then digits.take 2 else digits
    if digits ≠ [] then
      (UInt8.ofNat (value digits), true) :: lettered fuel ((b :: rest).drop digits.length)
    else ((letterBytes.lookup b).getD b, true) :: lettered fuel rest
  | fuel + 1, b :: rest => (b, false) :: lettered fuel rest

def upTo (closing : List Lettered) : List Lettered → Option (List Lettered × List Lettered)
  | [] => none
  | b :: rest =>
    if closing.isPrefixOf (b :: rest) then some ([], (b :: rest).drop closing.length)
    else (upTo closing rest).map fun (inside, rest) => (b :: inside, rest)

def textOfBytes (bs : List Lettered) : String := String.ofList (bs.map fun b => charOf b.1)

def repeatCount (text : String) : Except SetFault (Option Nat) :=
  let cs := text.toList
  let base := if cs.head? = some '0' then 8 else 10
  if !cs.all fun c => c.isDigit && c.toNat - 48 < base then .error (.badCount text)
  else
    let n := cs.foldl (fun n c => base * n + (c.toNat - 48)) 0
    .ok (if n = 0 then none else some n)

def bracketed? (bs : List Lettered) : Except SetFault (Option (Member × List Lettered)) := do
  match bs with
  | (58, false) :: rest =>
    match upTo [(58, false), (93, false)] rest with
    | some (inside, rest) =>
      if (classes.lookup (textOfBytes inside)).isSome then
        return some (.ofClass (textOfBytes inside), rest)
      else throw (.unknownClass (textOfBytes inside))
    | none => return none
  | (61, false) :: b :: (61, false) :: (93, false) :: rest => return some (.byte b.1, rest)
  | b :: (42, false) :: rest =>
    match upTo [(93, false)] rest with
    | some (inside, rest) => return some (.repeated b.1 (← repeatCount (textOfBytes inside)), rest)
    | none => return none
  | _ => return none

def members : (fuel : Nat) → List Lettered → Except SetFault (List Member)
  | 0, _ | _, [] => .ok []
  | fuel + 1, b :: rest => do
    match ← if b = (91, false) then bracketed? rest else pure none with
    | some (member, rest) => return member :: (← members fuel rest)
    | none =>
      match rest with
      | (45, false) :: high :: rest =>
        if b.1 ≤ high.1 then return .range b.1 high.1 :: (← members fuel rest)
        else throw (.reversed b.1 high.1)
      | _ => return .byte b.1 :: (← members fuel rest)

def Member.ofText (text : String) : Except SetFault (List Member) :=
  let bytes := utf8 text
  let bs := lettered bytes.length bytes
  members bs.length bs

def Member.bytes (fill : Nat) : Member → Bytes
  | .byte b => [b]
  | .range low high => allBytes.filter fun b => low ≤ b && b ≤ high
  | .ofClass name => allBytes.filter ((classes.lookup name).getD fun _ => false)
  | .repeated b count => List.replicate (count.getD fill) b

def bytesOf (length : Nat) (ms : List Member) : Bytes :=
  let others := (ms.flatMap (Member.bytes 0)).length
  ms.flatMap (Member.bytes (length - others))

def casePositions (start : Nat) : List Member → List Nat
  | [] => []
  | m :: ms =>
    let more := casePositions (start + (m.bytes 0).length) ms
    match m with
    | .ofClass name => if name = "upper" || name = "lower" then start :: more else more
    | _ => more

structure TrOptions where
  complement : Bool
  delete : Bool
  squeeze : Bool
  truncate : Bool
deriving DecidableEq, Repr

/-- The filter that changes a byte as `change` says and then keeps only the first of a run of the
same byte of `squeezed`. -/
def trFilter (change : UInt8 → Option UInt8) (squeezed : Bytes) : Filter := fun last b => do
  let passed ← change b
  if last = some passed && squeezed.contains passed then none else some passed

/-- The byte that takes the place of `b`: the last of `source` counts, and the last of `target`
stands for all that are missing. -/
def replacement (source target : Bytes) (b : UInt8) : UInt8 :=
  match source.reverse.findIdx? (· = b) with
  | none => b
  | some i => (target[min (source.length - 1 - i) (target.length - 1)]?).getD b

namespace TrOptions

variable (o : TrOptions)

def source (ms : List Member) : Bytes :=
  let bytes := bytesOf 0 ms
  if o.complement then allBytes.filter fun b => !bytes.contains b else bytes

def replacing (first second : List Member) : Except SetFault Filter := do
  let source := o.source first
  let isCase (name : String) : Bool := name = "upper" || name = "lower"
  if second.any fun | .ofClass name => !isCase name | _ => false then throw .classInSecond
  let positions := casePositions 0 first
  if (casePositions 0 second).any fun i => !positions.contains i then throw .misaligned
  let target := bytesOf source.length second
  let source := if o.truncate then source.take target.length else source
  if source.length > target.length && target = [] then throw .emptySecond
  return trFilter (fun b => some (replacement source target b)) (if o.squeeze then target else [])

def filter (first : String) (second : Option String) : Except SetFault Filter := do
  let one ← Member.ofText first
  if one.any fun | .repeated _ none => true | _ => false then throw .fillsFirst
  let two ← (second.mapM Member.ofText : Except SetFault (Option (List Member)))
  let source := o.source one
  let without (b : UInt8) : Option UInt8 := if source.contains b then none else some b
  match two with
  | none => return if o.delete then trFilter without [] else trFilter some source
  | some two =>
    if o.delete then return trFilter without (bytesOf 0 two) else o.replacing one two

end TrOptions

def trFlags : List Flag :=
  [⟨'c', "complement", false⟩, ⟨'C', "", false⟩, ⟨'d', "delete", false⟩,
   ⟨'s', "squeeze-repeats", false⟩, ⟨'t', "truncate-set1", false⟩]

def warnOfBackslash (p : Spawn) (text : String) : Task Unit := do
  let bytes := utf8 text
  let slashes := (bytes.reverse.takeWhile (· = 92)).length
  if slashes % 2 = 1 then
    complain p "warning: an unescaped backslash at end of string is not portable"

def tr (p : Spawn) : Task Unit :=
  withArguments p trFlags false 1 fun a => do
    let o : TrOptions := ⟨a.has 'c' || a.has 'C', a.has 'd', a.has 's', a.has 't'⟩
    let least := if o.delete = o.squeeze then 2 else 1
    let most := if o.delete && !o.squeeze then 1 else 2
    let found := a.operands.length
    if found = 0 then seeHelp p "missing operand" 1
    else if found < least then
      seeHelp p ("missing operand after " ++ quotedText (a.operands.getLastD "")
        ++ "\nTwo strings must be given when "
        ++ if o.squeeze then "both deleting and squeezing repeats." else "translating.") 1
    else if most < found then
      seeHelp p ("extra operand " ++ quotedText (a.operands.getD most "")
        ++ if found = 2 then
            "\nOnly one string may be given when deleting without squeezing repeats."
          else "") 1
    else
      warnAll p a.operands
      match o.filter (a.operands.headD "") a.operands[1]? with
      | .ok filter => exit (if ← copy p filter "read error" then 0 else 1)
      | .error fault =>
        complain p fault.message
        exit 1
where
  warnAll (p : Spawn) : List String → Task Unit
    | [] => pure ()
    | text :: texts => do
      warnOfBackslash p text
      warnAll p texts

end Pipework.Host.Tool
