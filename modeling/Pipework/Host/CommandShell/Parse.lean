import Pipework.Host.CommandShell.Token

/-!
# Reading scripts of the command shell

Commands are read by descent: a unit is a line of pipelines, a pipeline is made of commands, and a
command may hold lists of pipelines of its own. Each step of the descent is one level of `fuel`;
there are never more levels than a small multiple of the tokens.
-/

namespace Pipework.Host.CommandShell

/-- Reads from a list of tokens. A mistake is reported with the line where it shows. -/
abbrev Reading := StateT (List Lexeme) (Except (Mistake × Nat))

namespace Reading

def peek : Reading Lexeme := do return (← get).headD ⟨.final, 1⟩

def advance : Reading Unit := modify List.tail

def skipNewlines : Reading Unit := modify fun ls => ls.dropWhile fun l => l.token = .newline

def refuse {α : Type} (expected : Option String) : Reading α := do
  let lexeme ← peek
  match lexeme.token with
  | .bad mistake => throw (mistake, lexeme.line)
  | token => throw (.unexpected token.shown expected, lexeme.line)

def atKeyword (keyword : String) : Reading Bool := do
  return (← peek).token.keyword? = some keyword

def atOperator (text : String) : Reading Bool := do return (← peek).token = .operator text

def expectKeyword (keyword : String) : Reading Unit := do
  if ← atKeyword keyword then advance else refuse (some ("\"" ++ keyword ++ "\""))

def expectOperator (text : String) : Reading Unit := do
  if ← atOperator text then advance else refuse (some ("\"" ++ text ++ "\""))

end Reading

open Reading

def endsList (token : Token) : Bool :=
  match token with
  | .operator text => text = ")" || text = ";;"
  | .final | .bad _ => true
  | _ =>
    match token.keyword? with
    | some keyword =>
      ["do", "done", "elif", "else", "esac", "fi", "then", "\x7d"].contains keyword
    | none => false

def specialBuiltins : List String :=
  [".", ":", "break", "continue", "eval", "exec", "exit", "export", "readonly", "return", "set",
   "shift", "times", "trap", "unset"]

def sequenceOf (first second : Node) : Node :=
  match second with
  | .nothing => first
  | second => .sequence first second

def redirectionTarget (fd : Nat) (direction : Direction) : Reading Redirection := do
  match (← peek).token with
  | .word target =>
    advance
    return ⟨fd, direction, target⟩
  | _ => refuse none

def redirections : (fuel : Nat) → Reading (List Redirection)
  | 0 => pure []
  | fuel + 1 => do
    match (← peek).token with
    | .redirection fd direction =>
      advance
      let first ← redirectionTarget fd direction
      return first :: (← redirections fuel)
    | _ => return []

def wordsUpTo : (fuel : Nat) → Reading (List Word)
  | 0 => pure []
  | fuel + 1 => do
    match (← peek).token with
    | .word w =>
      advance
      return w :: (← wordsUpTo fuel)
    | _ => return []

structure Simple where
  assignments : List (String × Word)
  words : List Word
  redirections : List Redirection

def simpleParts : (fuel : Nat) → Simple → Reading Simple
  | 0, s => pure s
  | fuel + 1, s => do
    match (← peek).token with
    | .word w =>
      advance
      match if s.words = [] then assignment? w else none with
      | some assignment =>
        simpleParts fuel { s with assignments := s.assignments ++ [assignment] }
      | none => simpleParts fuel { s with words := s.words ++ [w] }
    | .redirection fd direction =>
      advance
      let r ← redirectionTarget fd direction
      simpleParts fuel { s with redirections := s.redirections ++ [r] }
    | _ => return s

/-- The name of the function that is defined where `s` is followed by a parenthesis. -/
def functionName? (s : Simple) : Option Word :=
  match s with
  | ⟨[], [w], []⟩ => some w
  | _ => none

def loopVariable : Reading String := do
  let lexeme ← peek
  match lexeme.token with
  | .word w =>
    match literal? w with
    | some cs =>
      if isName cs then
        advance
        return String.ofList cs
      else throw (.badLoopVariable, lexeme.line)
    | none => throw (.badLoopVariable, lexeme.line)
  | _ => throw (.badLoopVariable, lexeme.line)

def loopWords : Reading (Option (List Word)) := do
  skipNewlines
  if ← atKeyword "in" then
    advance
    let words ← wordsUpTo (← get).length
    match (← peek).token with
    | .newline | .operator ";" =>
      advance
      return some words
    | _ => refuse none
  else
    if ← atOperator ";" then advance
    return none

def armPatterns : (fuel : Nat) → Reading (List Word)
  | 0 => refuse none
  | fuel + 1 => do
    match (← peek).token with
    | .word w =>
      advance
      if ← atOperator "|" then
        advance
        return w :: (← armPatterns fuel)
      else
        expectOperator ")"
        return [w]
    | _ => refuse (some "\")\"")

mutual

/-- Reads a list of pipelines within a command; without `required` it may be empty. -/
def list : (fuel : Nat) → (required : Bool) → Reading Node
  | 0, _ => refuse none
  | fuel + 1, required => do
    skipNewlines
    let next := (← peek).token
    if next = .final || (!required && endsList next) then return .nothing
    let first ← alternatives fuel
    match (← peek).token with
    | .operator "&" =>
      advance
      return sequenceOf (.background first) (← list fuel false)
    | .operator ";" | .newline =>
      advance
      return sequenceOf first (← list fuel false)
    | _ => return first

def alternatives : (fuel : Nat) → Reading Node
  | 0 => refuse none
  | fuel + 1 => do furtherAlternatives fuel (← pipeline fuel)

def furtherAlternatives : (fuel : Nat) → Node → Reading Node
  | 0, _ => refuse none
  | fuel + 1, first => do
    if ← atOperator "&&" then
      advance
      skipNewlines
      furtherAlternatives fuel (.both first (← pipeline fuel))
    else if ← atOperator "||" then
      advance
      skipNewlines
      furtherAlternatives fuel (.either first (← pipeline fuel))
    else return first

def pipeline : (fuel : Nat) → Reading Node
  | 0 => refuse none
  | fuel + 1 => do
    if ← atKeyword "!" then
      advance
      return .negated (← stages fuel)
    else stages fuel

def stages : (fuel : Nat) → Reading Node
  | 0 => refuse none
  | fuel + 1 => do
    let first ← command fuel
    if ← atOperator "|" then
      advance
      skipNewlines
      return .piped first (← stages fuel)
    else return first

def command : (fuel : Nat) → Reading Node
  | 0 => refuse none
  | fuel + 1 => do
    let lexeme ← peek
    match lexeme.token with
    | .operator "(" =>
      advance
      let body ← list fuel true
      expectOperator ")"
      redirectedBy lexeme.line (.apart body)
    | .redirection _ _ => simpleCommand fuel
    | .word _ =>
      match lexeme.token.keyword? with
      | none => simpleCommand fuel
      | some "\x7b" =>
        advance
        let body ← list fuel true
        expectKeyword "\x7d"
        redirectedBy lexeme.line body
      | some "if" =>
        advance
        redirectedBy lexeme.line (← choice fuel)
      | some "while" =>
        advance
        redirectedBy lexeme.line (← loop fuel false)
      | some "until" =>
        advance
        redirectedBy lexeme.line (← loop fuel true)
      | some "for" =>
        advance
        let name ← loopVariable
        let words ← loopWords
        redirectedBy lexeme.line (.each name words (← loopBody fuel) lexeme.line)
      | some "case" =>
        advance
        match (← peek).token with
        | .word subject =>
          advance
          skipNewlines
          expectKeyword "in"
          redirectedBy lexeme.line (.select subject (← arms fuel lexeme.line) lexeme.line)
        | _ => refuse (some "word")
      | some _ => refuse none
    | _ => refuse none
where
  redirectedBy (line : Nat) (body : Node) : Reading Node := do
    match ← redirections (← get).length with
    | [] => return body
    | rs => return .redirected body rs line

def simpleCommand : (fuel : Nat) → Reading Node
  | 0 => refuse none
  | fuel + 1 => do
    let line := (← peek).line
    let s ← simpleParts (← get).length ⟨[], [], []⟩
    match if ← atOperator "(" then functionName? s else none with
    | none => return .simple s.assignments s.words s.redirections line
    | some w =>
      advance
      expectOperator ")"
      match literal? w with
      | some cs =>
        if isName cs && !specialBuiltins.contains (String.ofList cs) then
          skipNewlines
          return .define (String.ofList cs) (← command fuel)
        else throw (.badFunctionName, line)
      | none => throw (.badFunctionName, line)

def choice : (fuel : Nat) → Reading Node
  | 0 => refuse none
  | fuel + 1 => do
    let condition ← list fuel true
    expectKeyword "then"
    let body ← list fuel true
    if ← atKeyword "elif" then
      advance
      return .choice condition body (← choice fuel)
    else if ← atKeyword "else" then
      advance
      let other ← list fuel true
      expectKeyword "fi"
      return .choice condition body other
    else
      expectKeyword "fi"
      return .choice condition body .nothing

def loop : (fuel : Nat) → (whileFails : Bool) → Reading Node
  | 0, _ => refuse none
  | fuel + 1, whileFails => do
    let condition ← list fuel true
    return .loop whileFails condition (← loopBody fuel)

def loopBody : (fuel : Nat) → Reading Node
  | 0 => refuse none
  | fuel + 1 => do
    skipNewlines
    expectKeyword "do"
    let body ← list fuel true
    expectKeyword "done"
    return body

def arms : (fuel line : Nat) → Reading Node
  | 0, _ => refuse none
  | fuel + 1, line => do
    skipNewlines
    if ← atKeyword "esac" then
      advance
      return .nothing
    if ← atOperator "(" then advance
    let patterns ← armPatterns (← get).length
    let body ← list fuel false
    if ← atKeyword "esac" then
      advance
      return .arm patterns body .nothing line
    else
      expectOperator ";;"
      return .arm patterns body (← arms fuel line) line

end

def line : (fuel : Nat) → Reading Node
  | 0 => refuse none
  | fuel + 1 => do
    let first ← alternatives fuel
    match (← peek).token with
    | .operator "&" =>
      advance
      return sequenceOf (.background first) (← rest fuel)
    | .operator ";" =>
      advance
      return sequenceOf first (← rest fuel)
    | .newline | .final => return first
    | _ => refuse none
where
  rest (fuel : Nat) : Reading Node := do
    match (← peek).token with
    | .newline | .final => return .nothing
    | _ => line fuel

/-- Reads units up to the first mistake. -/
def units : (fuel : Nat) → List Lexeme → Script
  | 0, _ => ⟨[], none⟩
  | fuel + 1, lexemes =>
    let lexemes := lexemes.dropWhile fun l => l.token = .newline
    match lexemes.head?.map Lexeme.token with
    | none | some .final => ⟨[], none⟩
    | some _ =>
      match (line (8 * lexemes.length + 8)).run lexemes with
      | .error mistake => ⟨[], some mistake⟩
      | .ok (unit, lexemes) =>
        let more := units fuel lexemes
        { more with units := unit :: more.units }

def parse (line : Nat) (text : List Char) : Script :=
  let lexemes := tokens line text
  units lexemes.length lexemes

end Pipework.Host.CommandShell
