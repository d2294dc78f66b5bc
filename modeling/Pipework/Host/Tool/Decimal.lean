/-!
# Decimal numbers

A decimal number is a whole number times a power of ten. It is shown with a number of places, of
which the last is rounded to the nearest, and halfway to the even digit.
-/

namespace Pipework.Host

/-- The number `digits` times ten to the power `exponent`, or its negative. -/
structure Decimal where
  isNegative : Bool
  digits : Nat
  exponent : Int
deriving DecidableEq, Repr

namespace Decimal

def valueOf (digits : List Char) : Nat := digits.foldl (fun n d => 10 * n + (d.toNat - 48)) 0

def scanExponent (cs : List Char) : Int × List Char :=
  match cs with
  | c :: rest =>
    if c = 'e' || c = 'E' then
      let (isNegative, body) := match rest with
        | '-' :: body => (true, body)
        | '+' :: body => (false, body)
        | body => (false, body)
      let digits := body.takeWhile Char.isDigit
      if digits = [] then (0, cs)
      else (if isNegative then -(valueOf digits : Int) else valueOf digits, body.drop digits.length)
    else (0, cs)
  | [] => (0, [])

def scan? (cs : List Char) : Option (Decimal × List Char) :=
  let (isNegative, body) := match cs with
    | '-' :: body => (true, body)
    | '+' :: body => (false, body)
    | body => (false, body)
  let whole := body.takeWhile Char.isDigit
  let rest := body.drop whole.length
  let (places, rest) := match rest with
    | '.' :: more =>
      let places := more.takeWhile Char.isDigit
      (places, more.drop places.length)
    | _ => ([], rest)
  if whole = [] && places = [] then none
  else
    let (exponent, rest) := scanExponent rest
    some (⟨isNegative, valueOf (whole ++ places), exponent - places.length⟩, rest)

def divideRounded (n d : Nat) : Nat :=
  let q := n / d
  let twice := 2 * (n % d)
  if twice > d || (twice = d && q % 2 = 1) then q + 1 else q

/-- How many units of ten to the power `-places` the number has, rounded. -/
def scaled (x : Decimal) (places : Int) : Nat :=
  let shift := x.exponent + places
  if 0 ≤ shift then x.digits * Nat.pow 10 shift.toNat
  else divideRounded x.digits (Nat.pow 10 (-shift).toNat)

def withPoint (n places : Nat) : String :=
  let digits := (Nat.toDigits 10 n).length
  let cs := List.replicate (places + 1 - digits) '0' ++ Nat.toDigits 10 n
  let whole := cs.take (cs.length - places)
  String.ofList (whole ++ if places = 0 then [] else '.' :: cs.drop whole.length)

def fixed (x : Decimal) (places : Nat) : String := withPoint (x.scaled places) places

def leading (x : Decimal) (places : Nat) : Int :=
  if x.digits = 0 then 0
  else
    let power := x.exponent + (Nat.toDigits 10 x.digits).length - 1
    let digits := Nat.toDigits 10 (x.scaled (places - power))
    power + (digits.length : Int) - (places + 1)

def scientific (x : Decimal) (places : Nat) (mark : Char) : String :=
  let power := x.leading places
  let digits := Nat.toDigits 10 power.natAbs
  let shown := if digits.length < 2 then '0' :: digits else digits
  withPoint (x.scaled (places - power)) places
    ++ String.ofList (mark :: (if power < 0 then '-' else '+') :: shown)

def trimZeros (text : String) : String :=
  let cs := text.toList
  let front := cs.takeWhile fun c => c ≠ 'e' && c ≠ 'E'
  if front.contains '.' then
    let kept := (front.reverse.dropWhile (· = '0'))
    let kept := if kept.head? = some '.' then kept.tail else kept
    String.ofList (kept.reverse ++ cs.drop front.length)
  else text

def general (x : Decimal) (precision : Nat) (mark : Char) : String :=
  let precision := max precision 1
  let power := x.leading (precision - 1)
  trimZeros (if power < -4 || precision ≤ power then x.scientific (precision - 1) mark
    else x.fixed ((precision : Int) - 1 - power).toNat)

end Decimal

end Pipework.Host
