import Pipework.Host.CommandShell.Basic

/-!
# Reading words of the command shell

A word ends at the first character outside of quotes that separates words. Within it, quotes keep
characters from having a meaning, and a dollar sign or a backquote starts a substitution.
-/

namespace Pipework.Host.CommandShell

def backquote : Char := Char.ofNat 96

def isMeta (c : Char) : Bool := [' ', '\t', '\n', ';', '&', '|', '<', '>', '(', ')'].contains c

inductive Quote where
  | none
  | single
  | double
deriving DecidableEq, Repr

/-- The text up to the `closer` that closes `depth` open brackets, and the rest after it. The next
character means nothing if it is `escaped`. -/
def enclosed (opener closer : Char) (depth : Nat) (quote : Quote) (escaped : Bool)
    (taken : List Char) : List Char → Option (List Char × List Char)
  | [] => none
  | c :: cs =>
    let skip (quote : Quote) (escaped : Bool) : Option (List Char × List Char) :=
      enclosed opener closer depth quote escaped (c :: taken) cs
    if escaped then skip quote false
    else match quote with
    | .single => skip (if c = '\'' then .none else .single) false
    | .double => skip (if c = '"' then .none else .double) (c = '\\')
    | .none =>
      if c = closer then
        if depth = 0 then some (taken.reverse, cs)
        else enclosed opener closer (depth - 1) .none false (c :: taken) cs
      else if c = opener then enclosed opener closer (depth + 1) .none false (c :: taken) cs
      else if c = '\'' then skip .single false
      else if c = '"' then skip .double false
      else skip .none (c = '\\')

def parenthesized (cs : List Char) : Option (List Char × List Char) :=
  enclosed '(' ')' 0 .none false [] cs

def specials : List Char := ['?', '$', '#', '@', '*', '!', '-']

def parameterName (cs : List Char) : List Char :=
  match cs with
  | [] => []
  | c :: _ =>
    if isNameStart c then cs.takeWhile isNamePart
    else if c.isDigit then cs.takeWhile Char.isDigit
    else if specials.contains c then [c]
    else []

def formOf (cs : List Char) : Form × List Char :=
  match cs with
  | [] => (.value, [])
  | ':' :: '-' :: operand => (.fallback true, operand)
  | ':' :: '=' :: operand => (.assigning true, operand)
  | ':' :: '?' :: operand => (.required true, operand)
  | ':' :: '+' :: operand => (.alternative true, operand)
  | '-' :: operand => (.fallback false, operand)
  | '=' :: operand => (.assigning false, operand)
  | '?' :: operand => (.required false, operand)
  | '+' :: operand => (.alternative false, operand)
  | '%' :: '%' :: operand => (.trimmed false true, operand)
  | '%' :: operand => (.trimmed false false, operand)
  | '#' :: '#' :: operand => (.trimmed true true, operand)
  | '#' :: operand => (.trimmed true false, operand)
  | _ => (.unknown, cs)

def bracedParameter (quoted : Bool) (body : List Char) : Piece :=
  let counted := match body with
    | '#' :: rest => if rest ≠ [] && parameterName rest = rest then some rest else none
    | _ => none
  match counted with
  | some name => .parameter (String.ofList name) .length [] quoted
  | none =>
    let name := parameterName body
    let (form, operand) := formOf (body.drop name.length)
    .parameter (String.ofList name) (if name = [] then .unknown else form) operand quoted

def expression? (body : List Char) : Option (List Char) :=
  match body with
  | '(' :: inner =>
    match parenthesized inner with
    | some (expression, []) => some expression
    | _ => none
  | _ => none

def missingParenthesis : Mistake := .unexpected "end of file" (some "\")\"")

def dollar (quoted : Bool) (cs : List Char) : Except Mistake (Piece × List Char) :=
  match cs with
  | '(' :: rest =>
    match parenthesized rest with
    | some (body, rest) =>
      match expression? body with
      | some expression => .ok (.arithmetic expression quoted, rest)
      | none => .ok (.output body true quoted, rest)
    | none =>
      .error (if rest.head? = some '(' then .missingParentheses else missingParenthesis)
  | '\x7b' :: rest =>
    match enclosed '\x7b' '\x7d' 0 .none false [] rest with
    | some (body, rest) => .ok (bracedParameter quoted body, rest)
    | none => .error .missingBrace
  | c :: rest =>
    if isNameStart c then
      let name := cs.takeWhile isNamePart
      .ok (.parameter (String.ofList name) .value [] quoted, cs.drop name.length)
    else if c.isDigit || specials.contains c then
      .ok (.parameter (String.ofList [c]) .value [] quoted, rest)
    else .ok (.text ['$'] quoted, cs)
  | [] => .ok (.text ['$'] quoted, [])

def protectable : List Char := ['$', '"', '\\', backquote]

/-- The script up to the next backquote, and the rest after it. A backslash protects a dollar
sign, a backquote and a backslash. -/
def backquoted (taken : List Char) : List Char → Option (List Char × List Char)
  | [] => none
  | '\\' :: c :: cs =>
    if c = '$' || c = backquote || c = '\\' then backquoted (c :: taken) cs
    else backquoted (c :: '\\' :: taken) cs
  | c :: cs => if c = backquote then some (taken.reverse, cs) else backquoted (c :: taken) cs

inductive Setting where
  | bare
  | double
  | here
  /-- The operand of a parameter between double quotes: double quotes are taken away. -/
  | operand
deriving DecidableEq, Repr

/-- Reads pieces up to the end of the word. Nothing ends a word that is read `toEnd`. The word has
at most `fuel` pieces. -/
def pieces (toEnd : Bool) : (fuel : Nat) → Setting → List Char →
    Except Mistake (Word × List Char)
  | 0, _, _ => .error .unterminatedQuote
  | _, .double, [] => .error .unterminatedQuote
  | _, _, [] => .ok ([], [])
  | fuel + 1, setting, c :: cs => do
    let quoted := setting ≠ .bare
    if c = '$' then
      let (piece, rest) ← dollar quoted cs
      let (more, rest) ← pieces toEnd fuel setting rest
      return (piece :: more, rest)
    else if c = backquote then
      match backquoted [] cs with
      | none => throw .unterminatedBackquote
      | some (script, rest) =>
        let (more, rest) ← pieces toEnd fuel setting rest
        return (.output script false quoted :: more, rest)
    else if quoted then
      match c, cs with
      | '\\', '\n' :: rest => pieces toEnd fuel setting rest
      | '\\', e :: rest =>
        let isProtected :=
          if e = '\x7d' then setting = .operand
          else protectable.contains e && (e ≠ '"' || setting ≠ .here)
        let (more, rest) ← pieces toEnd fuel setting rest
        return (.text (if isProtected then [e] else ['\\', e]) true :: more, rest)
      | _, _ =>
        if c = '"' && setting = .double then pieces toEnd fuel .bare cs
        else if c = '"' && setting = .operand then pieces toEnd fuel setting cs
        else
          let (more, rest) ← pieces toEnd fuel setting cs
          return (.text [c] true :: more, rest)
    else
      match c, cs with
      | '\'', _ =>
        let body := cs.takeWhile (· ≠ '\'')
        if body.length = cs.length then throw .unterminatedQuote
        let (more, rest) ← pieces toEnd fuel .bare (cs.drop (body.length + 1))
        return (.text body true :: more, rest)
      | '"', _ =>
        let (more, rest) ← pieces toEnd fuel .double cs
        return (.text [] true :: more, rest)
      | '\\', '\n' :: rest => pieces toEnd fuel .bare rest
      | '\\', e :: rest =>
        let (more, rest) ← pieces toEnd fuel .bare rest
        return (.text [e] true :: more, rest)
      | _, _ =>
        if isMeta c && !toEnd then return ([], c :: cs)
        let (more, rest) ← pieces toEnd fuel .bare cs
        return (.text [c] false :: more, rest)

def readWord (cs : List Char) : Except Mistake (Word × List Char) :=
  pieces false (cs.length + 1) .bare cs

def wholeWord (setting : Setting) (cs : List Char) : Except Mistake Word := do
  return (← pieces true (cs.length + 1) setting cs).1

def literal? : Word → Option (List Char)
  | [] => some []
  | .text cs false :: rest => (literal? rest).map (cs ++ ·)
  | _ => none

def unquoted : Word → List Char × Bool
  | [] => ([], false)
  | .text cs quoted :: rest =>
    let (more, anyQuoted) := unquoted rest
    (cs ++ more, quoted || anyQuoted)
  | _ :: rest => unquoted rest

def leading : Word → List Char × Word
  | .text cs false :: rest =>
    let (more, rest) := leading rest
    (cs ++ more, rest)
  | word => ([], word)

def assignment? (word : Word) : Option (String × Word) :=
  let (chars, rest) := leading word
  let name := chars.takeWhile isNamePart
  match chars.drop name.length with
  | '=' :: value =>
    if isName name then some (String.ofList name, (value.map fun c => .text [c] false) ++ rest)
    else none
  | _ => none

end Pipework.Host.CommandShell
