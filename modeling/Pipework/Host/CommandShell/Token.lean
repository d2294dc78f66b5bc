import Pipework.Host.CommandShell.Word

/-!
# Tokens of the command shell

A script is cut into words, operators, redirections and ends of lines. The text that a redirection
finds in the lines below it is taken out of the script there. What cannot be read ends the tokens.
-/

namespace Pipework.Host.CommandShell

inductive Token where
  | word (word : Word)
  | operator (text : String)
  | newline
  | redirection (fd : Nat) (direction : Direction)
  | final
  | bad (mistake : Mistake)
deriving DecidableEq, Repr

structure Lexeme where
  token : Token
  line : Nat
deriving DecidableEq, Repr

def reserved : List String :=
  ["!", "case", "do", "done", "elif", "else", "esac", "fi", "for", "if", "in", "then", "until",
   "while", "\x7b", "\x7d"]

def Token.keyword? : Token → Option String
  | .word w =>
    match literal? w with
    | some cs => if reserved.contains (String.ofList cs) then some (String.ofList cs) else none
    | none => none
  | _ => none

def Token.shown (t : Token) : String :=
  match t with
  | .word _ =>
    match t.keyword? with
    | some keyword => "\"" ++ keyword ++ "\""
    | none => "word"
  | .operator text => "\"" ++ text ++ "\""
  | .newline => "newline"
  | .redirection _ _ => "redirection"
  | .final | .bad _ => "end of file"

def operators : List (List Char) :=
  [['&', '&'], ['|', '|'], [';', ';'], [';'], ['&'], ['|'], ['('], [')']]

inductive Arrow where
  | plain (direction : Direction)
  | below (indented : Bool)

/-- The redirection that `cs` begins with: its number, what it is, and the rest. -/
def arrow? (cs : List Char) : Option (Nat × Arrow × List Char) :=
  let digit := cs.takeWhile Char.isDigit
  let fd (default : Nat) : Nat :=
    match digit with
    | [d] => d.toNat - 48
    | _ => default
  if digit.length > 1 then none
  else match cs.drop digit.length with
    | '>' :: '&' :: rest => some (fd 1, .plain .copy, rest)
    | '>' :: '>' :: rest => some (fd 1, .plain .append, rest)
    | '>' :: '|' :: rest | '>' :: rest => some (fd 1, .plain .output, rest)
    | '<' :: '&' :: rest => some (fd 0, .plain .copy, rest)
    | '<' :: '<' :: '-' :: rest => some (fd 0, .below true, rest)
    | '<' :: '<' :: rest => some (fd 0, .below false, rest)
    | '<' :: '>' :: rest | '<' :: rest => some (fd 0, .plain .input, rest)
    | _ => none

def linesBelow (indented : Bool) (delimiter : List Char) : List (List Char) →
    List Char × List (List Char)
  | [] => ([], [])
  | line :: lines =>
    let line := if indented then line.dropWhile (· = '\t') else line
    if line = delimiter then ([], lines)
    else
      let (text, rest) := linesBelow indented delimiter lines
      (line ++ (if lines = [] then [] else ['\n']) ++ text, rest)

def linesOf (cs : List Char) : List (List Char) :=
  match cs with
  | [] => [[]]
  | '\n' :: rest => [] :: linesOf rest
  | c :: rest =>
    match linesOf rest with
    | [] => [[c]]
    | line :: lines => (c :: line) :: lines

/-- Reads the text that a redirection with the word `delimiter` finds below the line that `cs`
begins with, and takes it out. -/
def readBelow (indented : Bool) (delimiter : Word) (cs : List Char) :
    Except Mistake (Word × List Char) := do
  let (mark, isQuoted) := unquoted delimiter
  match linesOf cs with
  | [] => return ([], cs)
  | first :: lines =>
    let (text, rest) := linesBelow indented mark lines
    let word ← if isQuoted then pure [.text text true] else wholeWord .here text
    let below := rest.flatMap fun line => '\n' :: line
    return (word, first ++ below)

def linesBetween (cs rest : List Char) : Nat := cs.count '\n' - rest.count '\n'

def nextTokens (cs : List Char) : Except Mistake (List Token × List Char) := do
  match arrow? cs with
  | some (fd, .plain direction, rest) => return ([.redirection fd direction], rest)
  | some (fd, .below indented, rest) =>
    let rest := rest.dropWhile fun c => c = ' ' || c = '\t'
    if rest.head?.any isMeta || rest = [] then return ([.redirection fd .here], rest)
    let (delimiter, rest) ← readWord rest
    let (text, rest) ← readBelow indented delimiter rest
    return ([.redirection fd .here, .word text], rest)
  | none =>
    match operators.find? fun o => o.isPrefixOf cs with
    | some o => return ([.operator (String.ofList o)], cs.drop o.length)
    | none =>
      let (word, rest) ← readWord cs
      return ([.word word], rest)

def lex : (fuel line : Nat) → List Char → List Lexeme
  | 0, line, _ | _, line, [] => [⟨.final, line⟩]
  | fuel + 1, line, c :: cs =>
    if c = ' ' || c = '\t' then lex fuel line cs
    else if c = '\\' && cs.head? = some '\n' then lex fuel (line + 1) cs.tail
    else if c = '\n' then ⟨.newline, line + 1⟩ :: lex fuel (line + 1) cs
    else if c = '#' then lex fuel line (cs.dropWhile (· ≠ '\n'))
    else match nextTokens (c :: cs) with
      | .error mistake => [⟨.bad mistake, line + cs.count '\n'⟩]
      | .ok (tokens, rest) =>
        tokens.map (Lexeme.mk · line) ++ lex fuel (line + linesBetween (c :: cs) rest) rest

def tokens (line : Nat) (text : List Char) : List Lexeme := lex (text.length + 1) line text

end Pipework.Host.CommandShell
