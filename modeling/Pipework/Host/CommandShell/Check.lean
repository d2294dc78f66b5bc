import Pipework.Host.CommandShell.Arithmetic
import Pipework.Program

/-!
# Checks of the command shell

The arguments of `test` make a check: a text is compared with a text, a number with a number, or a
file is looked at, and checks are put together by `!`, `-a`, `-o` and parentheses. Whether an
argument is an operator depends on the arguments around it.
-/

namespace Pipework.Host.CommandShell

inductive Check where
  | constant (holds : Bool)
  | file (question : Char) (path : String)
  | texts (operator left right : String)
  | numbers (operator left right : String)
  | not (check : Check)
  | both (left right : Check)
  | either (left right : Check)
deriving DecidableEq, Repr

namespace Check

inductive Role where
  | unary
  | textual
  | numeric
  | bang
  | conjunction
  | disjunction
  | opening
  | closing
  | operand
deriving DecidableEq, Repr

def roleOf (arg : String) : Role :=
  if ["-r", "-w", "-x", "-e", "-f", "-d", "-c", "-b", "-p", "-u", "-g", "-k", "-s", "-t", "-z",
      "-n", "-h", "-L", "-O", "-G", "-S"].contains arg then .unary
  else if ["=", "!=", "<", ">"].contains arg then .textual
  else if ["-eq", "-ne", "-ge", "-gt", "-le", "-lt"].contains arg then .numeric
  else match arg with
    | "!" => .bang
    | "-a" => .conjunction
    | "-o" => .disjunction
    | "(" => .opening
    | ")" => .closing
    | _ => .operand

def Role.isBinary (r : Role) : Bool := r = .textual || r = .numeric

def role? (args : List String) : Option Role :=
  match args with
  | [] => none
  | [arg] =>
    match roleOf arg with
    | .unary | .opening => some .operand
    | role => some role
  | [arg, _] => some (roleOf arg)
  | arg :: next :: _ :: _ =>
    let role := roleOf arg
    if role = .unary && (roleOf next).isBinary then some .operand else some role

def numberOf (text : String) : Except String Int64 :=
  match Arithmetic.numberOf? true text with
  | some n => .ok n
  | none => .error ("Illegal number: " ++ text)

mutual

/-- Reads checks of which one has to hold. Gives the check and the arguments from the last one read
on. -/
def anyOf : (fuel : Nat) → List String → Except String (Check × List String)
  | 0, args => .ok (.constant false, args)
  | fuel + 1, args => do
    let (left, args) ← allOf fuel args
    if role? (args.drop 1) = some .disjunction then
      let (right, args) ← anyOf fuel (args.drop 2)
      return (.either left right, args)
    else return (left, args)

def allOf : (fuel : Nat) → List String → Except String (Check × List String)
  | 0, args => .ok (.constant false, args)
  | fuel + 1, args => do
    let (left, args) ← single fuel args
    if role? (args.drop 1) = some .conjunction then
      let (right, args) ← allOf fuel (args.drop 2)
      return (.both left right, args)
    else return (left, args)

def single : (fuel : Nat) → List String → Except String (Check × List String)
  | 0, args => .ok (.constant false, args)
  | fuel + 1, args =>
    if role? args = some .bang then do
      let (check, rest) ← single fuel (args.drop 1)
      return (.not check, if args.length = 1 then args else rest)
    else primary fuel args

def primary : (fuel : Nat) → List String → Except String (Check × List String)
  | 0, args => .ok (.constant false, args)
  | fuel + 1, args =>
    match role? args, args with
    | none, _ | _, [] => .ok (.constant false, args)
    | some .opening, _ :: rest => do
      if role? rest = some .closing then return (.constant false, rest)
      let (check, rest) ← anyOf fuel rest
      if role? (rest.drop 1) = some .closing then return (check, rest.drop 1)
      else throw "closing paren expected"
    | some .unary, op :: rest =>
      match rest with
      | [] => .error (op ++ ": argument expected")
      | arg :: _ =>
        match op with
        | "-z" => .ok (.constant (arg = ""), rest)
        | "-n" => .ok (.constant (arg ≠ ""), rest)
        | _ => .ok (.file (op.toList.getD 1 'e') arg, rest)
    | _, left :: rest =>
      match rest with
      | op :: operands =>
        if (roleOf op).isBinary then
          match operands with
          | [] => .error (op ++ ": argument expected")
          | right :: _ =>
            if roleOf op = .textual then .ok (.texts op left right, operands)
            else .ok (.numbers op left right, operands)
        else .ok (.constant (left ≠ ""), args)
      | [] => .ok (.constant (left ≠ ""), args)

end

def ofRest (args : List String) : Except String Check := do
  let (check, rest) ← anyOf (10 * args.length + 10) args
  match rest with
  | last :: _ :: _ => throw (last ++ ": unexpected operator")
  | _ => return check

/-- The check that the arguments of `test` ask for. Few arguments are taken apart first. -/
def ofArgs : (fuel : Nat) → List String → Except String Check
  | 0, _ | _, [] => .ok (.constant false)
  | fuel + 1, args =>
    let isComparison := args.length = 3 && (roleOf (args.getD 1 "")).isBinary
    if isComparison then
      match args with
      | [left, op, right] =>
        .ok (if roleOf op = .textual then .texts op left right else .numbers op left right)
      | _ => ofRest args
    else if args.length = 3 || args.length = 4 then
      if args.head? = some "(" && args.getLast? = some ")" then ofRest args.tail.dropLast
      else if args.head? = some "!" then do return .not (← ofArgs fuel args.tail)
      else ofRest args
    else ofRest args

def compare {α : Type} [BEq α] [LT α] [DecidableLT α] (op : String) (a b : α) : Bool :=
  match op with
  | "=" | "-eq" => a == b
  | "!=" | "-ne" => a != b
  | "<" | "-lt" => a < b
  | ">" | "-gt" => b < a
  | "-le" => !(decide (b < a))
  | _ => !(decide (a < b))

def askFile (question : Char) (path : String) : Program Bool := do
  let succeeds (request : FileRequest) : Program Bool := do
    return (← Program.perform (.files .host request)).isOk
  let isDirectory ← succeeds (.isDirectory path)
  match ← Program.perform (.files .host (.read path)) with
  | .error _ => return false
  | .ok feed =>
    let isDevice := path = "/dev/null" || feed.cycle ≠ []
    match question with
    | 'd' => return isDirectory
    | 'f' => return !isDirectory && !isDevice
    | 's' => return isDirectory || feed.ready ≠ []
    | 'c' => return isDevice
    | 'x' => return isDirectory || (← succeeds (.load path))
    | 'e' | 'r' | 'w' | 'O' | 'G' => return true
    | _ => return false

def holds (dir : String) : Check → Program (Except String Bool)
  | .constant b => pure (.ok b)
  | .file question path =>
    if path = "" then pure (.ok false)
    else do return .ok (← askFile question (Path.below dir path))
  | .texts op left right => pure (.ok (compare op left right))
  | .numbers op left right => pure do return compare op (← numberOf left) (← numberOf right)
  | .not check => do return (← check.holds dir).map (!·)
  | .both left right => do
    let a ← left.holds dir
    let b ← right.holds dir
    return do return (← a) && (← b)
  | .either left right => do
    let a ← left.holds dir
    let b ← right.holds dir
    return do return (← a) || (← b)

end Check

end Pipework.Host.CommandShell
