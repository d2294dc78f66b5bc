import Pipework.Text.Quoted

/-!
# Mistakes in a script

Reading a script stops at its first mistake. The mistake says what kind it is, which piece of the
script it is about, and where that piece stands.
-/

namespace Pipework

inductive Mistake.Kind where
  | unresolvedVariable
  | badSubstitution
  | unterminatedLiteral
  | badRedirection
  | unsupportedDescriptor
  | unexpectedToken
  /-- A kind that no reading of a script gives. -/
  | other (number : Int)
deriving DecidableEq, Repr

structure Mistake where
  kind : Mistake.Kind
  name : String
  fragment : String
  offset : Nat
  line : Int
  col : Int
  file : String
  fileLine : Int
deriving DecidableEq, Repr

/-- Lines of the text that holds a script are counted in 64 bits, and the count wraps. -/
def wrapLine (n : Int) : Int := (Int64.ofInt n).toInt

namespace Mistake

/-- Kinds are given to the program by number, from 1 on. -/
def Kind.ofNumber : Int → Kind
  | 1 => .unresolvedVariable
  | 2 => .badSubstitution
  | 3 => .unterminatedLiteral
  | 4 => .badRedirection
  | 5 => .unsupportedDescriptor
  | 6 => .unexpectedToken
  | n => .other n

def Kind.describe : Kind → String
  | .unresolvedVariable => "unresolved variable"
  | .badSubstitution => "bad substitution"
  | .unterminatedLiteral => "unterminated literal"
  | .badRedirection => "bad redirection"
  | .unsupportedDescriptor => "unsupported file descriptor"
  | .unexpectedToken => "unexpected token"
  | .other _ => "syntax error"

def message (m : Mistake) : String :=
  (if m.file.isEmpty then ""
    else m.file ++ ":" ++ toString (wrapLine (m.fileLine + m.line - 1)) ++ ": ")
    ++ toString m.line ++ ":" ++ toString m.col ++ ": " ++ m.kind.describe
    ++ (if m.name.isEmpty then "" else " " ++ quoted m.name)
    ++ (if m.fragment.isEmpty then "" else " near " ++ quoted m.fragment)

end Mistake

end Pipework
