import Pipework.Host.Tool.Quotation

/-!
# Options of tools

Options are letters after a minus sign, several of which may stand together, or names after two of
them. Some take a value, which follows them. Two minus signs alone end the options.
-/

namespace Pipework.Host.Tool

structure Flag where
  letter : Char
  name : String
  takesValue : Bool
deriving DecidableEq, Repr

inductive Refused where
  | invalid (letter : Char)
  | lacksValue (letter : Char)
  | unrecognized (text : String)
  | nameLacksValue (name : String)
  | nameTakesNoValue (name : String)
deriving DecidableEq, Repr

def Refused.message : Refused → String
  | .invalid letter => "invalid option -- '" ++ String.ofList [letter] ++ "'"
  | .lacksValue letter => "option requires an argument -- '" ++ String.ofList [letter] ++ "'"
  | .unrecognized text => "unrecognized option '" ++ text ++ "'"
  | .nameLacksValue name => "option '--" ++ name ++ "' requires an argument"
  | .nameTakesNoValue name => "option '--" ++ name ++ "' doesn't allow an argument"

/-- The arguments of a tool: the letters of its options with their values, and what is left. -/
structure Arguments where
  options : List (Char × String)
  operands : List String
deriving DecidableEq, Repr

namespace Arguments

def has (a : Arguments) (letter : Char) : Bool := a.options.any fun o => o.1 = letter

def last? (a : Arguments) (letters : List Char) : Option (Char × String) :=
  (a.options.filter fun o => letters.contains o.1).getLast?

def letters (flags : List Flag) (next : List String) :
    List Char → Except Refused (List (Char × String) × List String)
  | [] => .ok ([], next)
  | c :: cs =>
    match flags.find? fun f => f.letter = c with
    | none => .error (.invalid c)
    | some f =>
      if !f.takesValue then do
        let (more, next) ← letters flags next cs
        return ((c, "") :: more, next)
      else if cs ≠ [] then .ok ([(c, String.ofList cs)], next)
      else match next with
        | value :: next => .ok ([(c, value)], next)
        | [] => .error (.lacksValue c)

/-- The option with the name `name`, or with the only name that starts so. -/
def named? (flags : List Flag) (name : List Char) : Option Flag :=
  match flags.find? fun f => f.name.toList = name with
  | some f => some f
  | none =>
    match flags.filter fun f => name.isPrefixOf f.name.toList with
    | [f] => some f
    | _ => none

def byName (flags : List Flag) (next : List String) (text : List Char) :
    Except Refused ((Char × String) × List String) :=
  let name := text.takeWhile (· ≠ '=')
  let value? := if name.length < text.length then some (text.drop (name.length + 1)) else none
  match if name = [] then none else named? flags name with
  | none => .error (.unrecognized ("--" ++ String.ofList text))
  | some f =>
    match f.takesValue, value? with
    | true, some value => .ok ((f.letter, String.ofList value), next)
    | false, none => .ok ((f.letter, ""), next)
    | false, some _ => .error (.nameTakesNoValue f.name)
    | true, none =>
      match next with
      | value :: next => .ok ((f.letter, value), next)
      | [] => .error (.nameLacksValue f.name)

/-- Reads at most `fuel` arguments. Options may stand after operands if they are `mixed`. -/
def read (flags : List Flag) (mixed : Bool) : (fuel : Nat) → List String → Except Refused Arguments
  | 0, args => .ok ⟨[], args⟩
  | _, [] => .ok ⟨[], []⟩
  | fuel + 1, arg :: args =>
    match arg.toList with
    | ['-', '-'] => .ok ⟨[], args⟩
    | '-' :: '-' :: text => do
      let (option, args) ← byName flags args text
      let more ← read flags mixed fuel args
      return { more with options := option :: more.options }
    | '-' :: c :: cs => do
      let (options, args) ← letters flags args (c :: cs)
      let more ← read flags mixed fuel args
      return { more with options := options ++ more.options }
    | _ =>
      if mixed then do
        let more ← read flags mixed fuel args
        return { more with operands := arg :: more.operands }
      else .ok ⟨[], arg :: args⟩

def ofList (flags : List Flag) (mixed : Bool) (args : List String) : Except Refused Arguments :=
  read flags mixed args.length args

end Arguments

end Pipework.Host.Tool
