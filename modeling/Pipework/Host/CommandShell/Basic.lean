import Pipework.Text.Utf8

/-!
# The language of the host's command shell

A script is a list of units, which are read and run one after the other. A unit is a command:
simple commands are made of assignments, words and redirections, and all others are put together
from commands.
-/

namespace Pipework.Host.CommandShell

/-- What a parameter is replaced by. With `colon`, an empty value counts as no value. -/
inductive Form where
  | value
  | length
  | fallback (colon : Bool)
  | assigning (colon : Bool)
  | required (colon : Bool)
  | alternative (colon : Bool)
  | trimmed (front longest : Bool)
  | unknown
deriving DecidableEq, Repr

inductive Piece where
  | text (chars : List Char) (quoted : Bool)
  | parameter (name : String) (form : Form) (operand : List Char) (quoted : Bool)
  /-- The output of a script, whose lines are counted with those around it or by themselves. -/
  | output (script : List Char) (inLine quoted : Bool)
  | arithmetic (expression : List Char) (quoted : Bool)
deriving DecidableEq, Repr

abbrev Word := List Piece

inductive Direction where
  | input
  | output
  | append
  | copy
  | here
deriving DecidableEq, Repr

structure Redirection where
  fd : Nat
  direction : Direction
  target : Word
deriving DecidableEq, Repr

inductive Node where
  | nothing
  | simple (assignments : List (String × Word)) (words : List Word)
      (redirections : List Redirection) (line : Nat)
  /-- A command that cannot change the shell around it. -/
  | apart (body : Node)
  | redirected (body : Node) (redirections : List Redirection) (line : Nat)
  | piped (first second : Node)
  | negated (body : Node)
  | both (first second : Node)
  | either (first second : Node)
  | sequence (first second : Node)
  | background (body : Node)
  | choice (condition body other : Node)
  /-- Runs the body while the condition succeeds, or while it fails. -/
  | loop (whileFails : Bool) (condition body : Node)
  | each (name : String) (words : Option (List Word)) (body : Node) (line : Nat)
  | select (subject : Word) (arms : Node) (line : Nat)
  | arm (patterns : List Word) (body others : Node) (line : Nat)
  | define (name : String) (body : Node)
deriving DecidableEq, Repr

inductive Mistake where
  | unterminatedQuote
  | missingBrace
  | missingParentheses
  | unterminatedBackquote
  | badLoopVariable
  | badFunctionName
  | badNumber
  | unexpected (found : String) (expected : Option String)
deriving DecidableEq, Repr

def Mistake.message : Mistake → String
  | .unterminatedQuote => "Syntax error: Unterminated quoted string"
  | .missingBrace => "Syntax error: Missing '\x7d'"
  | .missingParentheses => "Syntax error: Missing '))'"
  | .unterminatedBackquote => "Syntax error: EOF in backquote substitution"
  | .badLoopVariable => "Syntax error: Bad for loop variable"
  | .badFunctionName => "Syntax error: Bad function name"
  | .badNumber => "Syntax error: Bad fd number"
  | .unexpected found none => "Syntax error: " ++ found ++ " unexpected"
  | .unexpected found (some expected) =>
    "Syntax error: " ++ found ++ " unexpected (expecting " ++ expected ++ ")"

structure Script where
  units : List Node
  /-- What is wrong after the units, and the line where it shows. -/
  mistake : Option (Mistake × Nat)
deriving DecidableEq, Repr

def isNameStart (c : Char) : Bool := c.isAlpha || c = '_'

def isNamePart (c : Char) : Bool := c.isAlphanum || c = '_'

def isName (text : List Char) : Bool := text.head?.any isNameStart && text.all isNamePart

end Pipework.Host.CommandShell
