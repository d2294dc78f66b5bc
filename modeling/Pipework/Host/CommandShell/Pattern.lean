/-!
# Patterns of the command shell

A pattern stands for texts: `*` for any text, `?` for any character, and characters between square
brackets for one of them. A character that is quoted stands for itself.
-/

namespace Pipework.Host.CommandShell

namespace Pattern

inductive Member where
  | range (first last : Char)
  | class (name : String)
deriving DecidableEq, Repr

inductive Item where
  | exactly (c : Char)
  | anyChar
  | anyText
  | bracket (negated : Bool) (members : List Member)
deriving DecidableEq, Repr

def isInClass (name : String) (c : Char) : Bool :=
  match name with
  | "alpha" => c.isAlpha
  | "digit" => c.isDigit
  | "alnum" => c.isAlphanum
  | "lower" => c.isLower
  | "upper" => c.isUpper
  | "space" => c = ' ' || ('\t' ≤ c && c ≤ '\x0d')
  | "blank" => c = ' ' || c = '\t'
  | "punct" => '!' ≤ c && c ≤ '~' && !c.isAlphanum
  | "xdigit" => c.isDigit || ('a' ≤ c && c ≤ 'f') || ('A' ≤ c && c ≤ 'F')
  | _ => false

def Member.admits (c : Char) : Member → Bool
  | .range first last => first ≤ c && c ≤ last
  | .class name => isInClass name c

def Item.admits (c : Char) : Item → Bool
  | .exactly d => c = d
  | .anyChar | .anyText => true
  | .bracket negated members => members.any (Member.admits c) != negated

end Pattern

abbrev Marked := Char × Bool

namespace Pattern

/-- The members of a bracket up to its end, and the rest; at most `fuel` of them. The first member
may be a closing bracket. -/
def members : (fuel : Nat) → (isFirst : Bool) → List Marked → Option (List Member × List Marked)
  | 0, _, _ | _, _, [] => none
  | fuel + 1, isFirst, (c, quoted) :: cs =>
    if c = ']' && !quoted && !isFirst then some ([], cs)
    else if c = '[' && !quoted && cs.head? = some (':', false) then
      let name := (cs.drop 1).takeWhile fun (d, _) => d ≠ ':'
      let (more, rest) := (members fuel false (cs.drop (name.length + 3))).getD ([], [])
      some (.class (String.ofList (name.map Prod.fst)) :: more, rest)
    else
      let (last, cs) := match cs with
        | ('-', false) :: (d, q) :: cs' => if d = ']' && !q then (c, cs) else (d, cs')
        | _ => (c, cs)
      (members fuel false cs).map fun (more, rest) => (.range c last :: more, rest)

/-- The items of a pattern of at most `fuel` characters. A bracket without an end stands for
itself. -/
def items : (fuel : Nat) → List Marked → List Item
  | 0, _ | _, [] => []
  | fuel + 1, (c, true) :: cs => .exactly c :: items fuel cs
  | fuel + 1, (c, false) :: cs =>
    if c = '*' then .anyText :: items fuel cs
    else if c = '?' then .anyChar :: items fuel cs
    else if c = '[' then
      let (negated, body) := match cs with
        | (d, false) :: body => if d = '!' || d = '^' then (true, body) else (false, cs)
        | _ => (false, cs)
      match members (body.length + 1) true body with
      | some (members, rest) => .bracket negated members :: items fuel rest
      | none => .exactly c :: items fuel cs
    else .exactly c :: items fuel cs

def suffixes : List Char → List (List Char)
  | [] => [[]]
  | c :: cs => (c :: cs) :: suffixes cs

def accepts : List Item → List Char → Bool
  | [], cs => cs = []
  | .anyText :: rest, cs => (suffixes cs).any (accepts rest)
  | item :: rest, c :: cs => item.admits c && accepts rest cs
  | _ :: _, [] => false

end Pattern

abbrev Pattern := List Marked

namespace Pattern

def matchesText (p : Pattern) (text : List Char) : Bool := accepts (items p.length p) text

def isActive (p : Pattern) : Bool :=
  (items p.length p).any fun
    | .exactly _ => false
    | _ => true

def trimFront (p : Pattern) (longest : Bool) (text : List Char) : List Char :=
  let lengths := List.range (text.length + 1)
  let lengths := if longest then lengths.reverse else lengths
  match lengths.find? fun n => p.matchesText (text.take n) with
  | some n => text.drop n
  | none => text

def trimBack (p : Pattern) (longest : Bool) (text : List Char) : List Char :=
  let lengths := List.range (text.length + 1)
  let lengths := if longest then lengths else lengths.reverse
  match lengths.find? fun n => p.matchesText (text.drop n) with
  | some n => text.take n
  | none => text

end Pattern

end Pipework.Host.CommandShell
