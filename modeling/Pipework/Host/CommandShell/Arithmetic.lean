import Pipework.Table

/-!
# Expressions of the command shell

Expressions compute with whole numbers of 64 bits, which wrap. Variables stand for the numbers that
their values spell, and can be assigned to.
-/

namespace Pipework.Host.CommandShell.Arithmetic

inductive Operator where
  | orBits
  | xorBits
  | andBits
  | equal
  | unequal
  | less
  | atMost
  | greater
  | atLeast
  | shiftLeft
  | shiftRight
  | add
  | subtract
  | multiply
  | divide
  | remainder
deriving DecidableEq, Repr

inductive Expr where
  | number (value : Int64)
  | variable (name : String)
  | negative (e : Expr)
  | complement (e : Expr)
  | not (e : Expr)
  | binary (op : Operator) (left right : Expr)
  | both (left right : Expr)
  | either (left right : Expr)
  | choice (condition yes no : Expr)
  | assign (name : String) (op : Option Operator) (e : Expr)
deriving DecidableEq, Repr

inductive Mistake where
  | expecting (what : String)
  | divisionByZero
  | illegalNumber (text : String)
deriving DecidableEq, Repr

def Mistake.message (text : String) : Mistake → String
  | .expecting what => "arithmetic expression: expecting " ++ what ++ ": \"" ++ text ++ "\""
  | .divisionByZero => "arithmetic expression: division by zero: \"" ++ text ++ "\""
  | .illegalNumber number => "Illegal number: " ++ number

def digitValue (c : Char) : Nat :=
  if c.isDigit then c.toNat - 48
  else if 'a' ≤ c && c ≤ 'f' then c.toNat - 87
  else if 'A' ≤ c && c ≤ 'F' then c.toNat - 55
  else 99

/-- The number that `cs` begins with, and the rest. What it starts with may show its base, unless
that is `decimal`. -/
def scanNumber (decimal : Bool) (cs : List Char) : Nat × List Char :=
  let startsHex (rest : List Char) : Bool := rest.head?.any fun c => digitValue c < 16
  let (base, body) := match cs with
    | '0' :: x :: rest =>
      if decimal then (10, cs)
      else if (x = 'x' || x = 'X') && startsHex rest then (16, rest) else (8, cs)
    | _ => (10, cs)
  let digits := body.takeWhile fun c => digitValue c < base
  (digits.foldl (fun n c => base * n + digitValue c) 0, body.drop digits.length)

def maxNumber : Nat := 9223372036854775807

def isBlank (c : Char) : Bool := c = ' ' || c = '\t' || c = '\n'

def numberOf? (decimal : Bool) (text : String) : Option Int64 :=
  let cs := text.toList.dropWhile isBlank
  let (negative, body) := match cs with
    | '-' :: rest => (true, rest)
    | '+' :: rest => (false, rest)
    | _ => (false, cs)
  let (value, rest) := scanNumber decimal body
  let fits := value ≤ if negative then maxNumber + 1 else maxNumber
  if body.head?.any Char.isDigit && rest.all isBlank && fits then
    some (Int64.ofInt (if negative then -value else value))
  else none

/-- The binary operators by level, the loosest first; of each level the longer ones first. -/
def levels : List (List (String × Operator)) :=
  [[("|", .orBits)], [("^", .xorBits)], [("&", .andBits)], [("==", .equal), ("!=", .unequal)],
   [("<=", .atMost), (">=", .atLeast), ("<", .less), (">", .greater)],
   [("<<", .shiftLeft), (">>", .shiftRight)], [("+", .add), ("-", .subtract)],
   [("*", .multiply), ("/", .divide), ("%", .remainder)]]

def assignments : List (String × Option Operator) :=
  [("<<=", some .shiftLeft), (">>=", some .shiftRight), ("+=", some .add), ("-=", some .subtract),
   ("*=", some .multiply), ("/=", some .divide), ("%=", some .remainder), ("&=", some .andBits),
   ("|=", some .orBits), ("^=", some .xorBits), ("=", none)]

def isNameStart (c : Char) : Bool := c.isAlpha || c = '_'

def isNamePart (c : Char) : Bool := c.isAlphanum || c = '_'

abbrev Parser := StateT (List Char) (Except Mistake)

def skipBlanks : Parser Unit := modify (·.dropWhile isBlank)

/-- Whether `text` could be the beginning of another operator in `cs`. -/
def isPart (text : String) (cs : List Char) : Bool :=
  let next := cs.drop text.length |>.head?
  if text = "|" then next = some '|' || next = some '='
  else if text = "&" then next = some '&' || next = some '='
  else if text = "<" then next = some '<'
  else if text = ">" then next = some '>'
  else if ["^", "+", "-", "*", "/", "%", "<<", ">>"].contains text then next = some '='
  else if text = "=" then next = some '='
  else false

def accept (text : String) : Parser Bool := do
  skipBlanks
  let cs ← get
  if text.toList.isPrefixOf cs && !isPart text cs then
    set (cs.drop text.length)
    return true
  else return false

def acceptAny {α : Type} : List (String × α) → Parser (Option α)
  | [] => pure none
  | (text, meaning) :: rest => do
    if ← accept text then return some meaning else acceptAny rest

mutual

def expr : (fuel : Nat) → Parser Expr
  | 0 => throw (.expecting "primary")
  | fuel + 1 => do
    skipBlanks
    let cs ← get
    let name := cs.takeWhile isNamePart
    if name.head?.any isNameStart then
      set (cs.drop name.length)
      match ← acceptAny assignments with
      | some op => return .assign (String.ofList name) op (← expr fuel)
      | none =>
        set cs
        conditional fuel
    else conditional fuel

def conditional : (fuel : Nat) → Parser Expr
  | 0 => throw (.expecting "primary")
  | fuel + 1 => do
    let condition ← disjunction fuel
    if ← accept "?" then
      let yes ← expr fuel
      if ← accept ":" then return .choice condition yes (← conditional fuel)
      else throw (.expecting "':'")
    else return condition

def disjunction : (fuel : Nat) → Parser Expr
  | 0 => throw (.expecting "primary")
  | fuel + 1 => do
    let left ← conjunction fuel
    if ← accept "||" then return .either left (← disjunction fuel) else return left

def conjunction : (fuel : Nat) → Parser Expr
  | 0 => throw (.expecting "primary")
  | fuel + 1 => do
    let left ← binary fuel levels
    if ← accept "&&" then return .both left (← conjunction fuel) else return left

def binary : (fuel : Nat) → List (List (String × Operator)) → Parser Expr
  | 0, _ => throw (.expecting "primary")
  | fuel + 1, [] => unary fuel
  | fuel + 1, level :: tighter => do further fuel level tighter (← binary fuel tighter)

/-- Reads what is joined to `left` by operators of a level. -/
def further : (fuel : Nat) → List (String × Operator) → List (List (String × Operator)) → Expr →
    Parser Expr
  | 0, _, _, _ => throw (.expecting "primary")
  | fuel + 1, level, tighter, left => do
    match ← acceptAny level with
    | some op => further fuel level tighter (.binary op left (← binary fuel tighter))
    | none => return left

def unary : (fuel : Nat) → Parser Expr
  | 0 => throw (.expecting "primary")
  | fuel + 1 => do
    skipBlanks
    match ← get with
    | '-' :: rest =>
      set rest
      return .negative (← unary fuel)
    | '+' :: rest =>
      set rest
      unary fuel
    | '!' :: rest =>
      set rest
      return .not (← unary fuel)
    | '~' :: rest =>
      set rest
      return .complement (← unary fuel)
    | '(' :: rest =>
      set rest
      let e ← expr fuel
      if ← accept ")" then return e else throw (.expecting "')'")
    | c :: cs =>
      if c.isDigit then
        let (found, rest) := scanNumber false (c :: cs)
        let value := Int64.ofNat (min found maxNumber)
        set rest
        return .number value
      else if isNameStart c then
        let name := (c :: cs).takeWhile isNamePart
        set ((c :: cs).drop name.length)
        return .variable (String.ofList name)
      else throw (.expecting "primary")
    | [] => throw (.expecting "primary")

end

def parse (text : String) : Except Mistake Expr := do
  let cs := text.toList
  if cs.all isBlank then return .number 0
  let (e, rest) ← (expr (20 * cs.length + 20)).run cs
  if rest.all isBlank then return e else throw (.expecting "EOF")

def ofBool (b : Bool) : Int64 := if b then 1 else 0

def Operator.apply (op : Operator) (a b : Int64) : Except Mistake Int64 :=
  match op with
  | .orBits => .ok (a ||| b)
  | .xorBits => .ok (a ^^^ b)
  | .andBits => .ok (a &&& b)
  | .equal => .ok (ofBool (a == b))
  | .unequal => .ok (ofBool (a != b))
  | .less => .ok (ofBool (a < b))
  | .atMost => .ok (ofBool (a ≤ b))
  | .greater => .ok (ofBool (b < a))
  | .atLeast => .ok (ofBool (b ≤ a))
  | .shiftLeft => .ok (a <<< b)
  | .shiftRight => .ok (a >>> b)
  | .add => .ok (a + b)
  | .subtract => .ok (a - b)
  | .multiply => .ok (a * b)
  | .divide => if b = 0 then .error .divisionByZero else .ok (a / b)
  | .remainder => if b = 0 then .error .divisionByZero else .ok (a % b)

def valueOf (vars : Table) (name : String) : Except Mistake Int64 :=
  match vars.find? name with
  | none | some "" => .ok 0
  | some text =>
    match numberOf? false text with
    | some value => .ok value
    | none => .error (.illegalNumber text)

def Expr.eval (vars : Table) : Expr → Except Mistake (Int64 × Table)
  | .number value => .ok (value, vars)
  | .variable name => do return (← valueOf vars name, vars)
  | .negative e => do
    let (value, vars) ← e.eval vars
    return (-value, vars)
  | .complement e => do
    let (value, vars) ← e.eval vars
    return (~~~value, vars)
  | .not e => do
    let (value, vars) ← e.eval vars
    return (ofBool (value == 0), vars)
  | .binary op left right => do
    let (a, vars) ← left.eval vars
    let (b, vars) ← right.eval vars
    return (← op.apply a b, vars)
  | .both left right => do
    let (a, vars) ← left.eval vars
    if a = 0 then return (0, vars)
    let (b, vars) ← right.eval vars
    return (ofBool (b != 0), vars)
  | .either left right => do
    let (a, vars) ← left.eval vars
    if a ≠ 0 then return (1, vars)
    let (b, vars) ← right.eval vars
    return (ofBool (b != 0), vars)
  | .choice condition yes no => do
    let (value, vars) ← condition.eval vars
    if value ≠ 0 then yes.eval vars else no.eval vars
  | .assign name op e => do
    let (value, vars) ← e.eval vars
    let value ← match op with
      | none => pure value
      | some op => op.apply (← valueOf vars name) value
    return (value, vars.insert name (toString value))

def evaluate (text : String) (vars : Table) : Except Mistake (Int64 × Table) := do
  (← parse text).eval vars

end Pipework.Host.CommandShell.Arithmetic
