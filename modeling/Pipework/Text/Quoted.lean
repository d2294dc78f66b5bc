import Pipework.Text.Printable

/-!
# Quoted text in messages

Names and fragments of a script are shown between double quotes. A character that would not show
is written as an escape: a letter for the common control characters, two hexadecimal digits for
the other ASCII ones, four or eight for the rest.
-/

namespace Pipework

namespace Quoted

def hexDigit (n : Nat) : Char := if n < 10 then Char.ofNat (48 + n) else Char.ofNat (87 + n)

def hex : (width : Nat) → (n : Nat) → List Char
  | 0, _ => []
  | width + 1, n => hex width (n / 16) ++ [hexDigit (n % 16)]

def letter? (c : Char) : Option Char :=
  match c.toNat with
  | 7 => some 'a'
  | 8 => some 'b'
  | 12 => some 'f'
  | 10 => some 'n'
  | 13 => some 'r'
  | 9 => some 't'
  | 11 => some 'v'
  | _ => none

def escape (c : Char) : List Char :=
  if c == '"' || c == '\\' then ['\\', c]
  else if isPrintable c then [c]
  else match letter? c with
  | some l => ['\\', l]
  | none =>
    let n := c.toNat
    if n < 0x80 then '\\' :: 'x' :: hex 2 n
    else if n < 0x10000 then '\\' :: 'u' :: hex 4 n
    else '\\' :: 'U' :: hex 8 n

end Quoted

def quoted (s : String) : String := String.ofList ('"' :: s.toList.flatMap Quoted.escape ++ ['"'])

end Pipework
