import Pipework.Text.Utf8

/-!
# Names in messages

Tools show the name of a file so that a shell could read it back: with quotes around it if need be,
and with escapes for the bytes that cannot be shown. Other texts are shown between single quotes,
with escapes of their own.
-/

namespace Pipework.Host.Tool

def isShowable (b : UInt8) : Bool := 32 ≤ b && b < 127

def escapeOf (b : UInt8) : String :=
  match if b < 7 then none else letters[b.toNat - 7]? with
  | some letter => String.ofList ['\\', letter]
  | none =>
    let digit (n : Nat) : Char := Char.ofNat (48 + n % 8)
    String.ofList ['\\', digit (b.toNat / 64), digit (b.toNat / 8), digit b.toNat]
where
  letters : List Char := ['a', 'b', 't', 'n', 'v', 'f', 'r']

def charOf (b : UInt8) : Char := Char.ofNat b.toNat

def isSpecial (c : Char) : Bool :=
  ['\\', '\'', '?', '!', '"', '$', '&', '(', ')', '*', ';', '<', '=', '>', '[', '^', Char.ofNat 96,
   '|'].contains c

def startsSpecially (name : List Char) : Bool :=
  match name with
  | [c] => c = '\x7b' || c = '\x7d' || c = '#' || c = '~'
  | c :: _ => c = '#' || c = '~'
  | [] => true

def needsQuotes (more : List Char) (name : String) : Bool :=
  startsSpecially name.toList || (utf8 name).any fun b =>
    !isShowable b || b = 32 || isSpecial (charOf b) || more.contains (charOf b)

/-- What stands between the first and the last single quote. A run of escapes is quoted in another
way, which is still `open` when the escapes end. -/
def quotedBody (isOpen : Bool) : Bytes → String
  | [] => ""
  | b :: rest =>
    if !isShowable b then (if isOpen then "" else "'$'") ++ escapeOf b ++ quotedBody true rest
    else if b = 39 then "'\\''" ++ quotedBody false rest
    else (if isOpen then "''" else "") ++ String.ofList [charOf b] ++ quotedBody false rest

def fitsDoubleQuotes (name : String) : Bool :=
  let isPlain (c : Char) : Bool := c = '\'' || c.isAlphanum || " %+,-./:]_@".toList.contains c
  match name.toList with
  | [] => false
  | c :: cs => (isPlain c || startsSpecially (c :: cs)) && cs.all isPlain

def quotedName (name : String) : String :=
  if name.toList.contains '\'' && fitsDoubleQuotes name then "\"" ++ name ++ "\""
  else "'" ++ quotedBody false (utf8 name) ++ "'"

def shownName (name : String) : String := if needsQuotes [':'] name then quotedName name else name

def quotedText (text : String) : String :=
  "'" ++ String.join ((utf8 text).map fun b =>
    if b = 39 then "\\'" else if b = 92 then "\\\\"
    else if isShowable b then String.ofList [charOf b] else escapeOf b) ++ "'"

end Pipework.Host.Tool
