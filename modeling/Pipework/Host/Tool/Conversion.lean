import Pipework.Host.Tool.Format

/-!
# Using formats

A conversion shows its argument as a text or as a number. What is wrong with an argument does not
keep the rest of the format from being used; what is wrong with the format does.
-/

namespace Pipework.Host.Format

def pad (left : Bool) (width : Nat) (body : Bytes) : Bytes :=
  let missing := List.replicate (width - body.length) 32
  if left then body ++ missing else missing ++ body

def natural (cs : List Char) : Nat × List Char :=
  match cs with
  | '0' :: x :: rest =>
    let ds := rest.takeWhile isHex
    if (x = 'x' || x = 'X') && ds ≠ [] then (hex ds, rest.drop ds.length)
    else
      let ds := (x :: rest).takeWhile isOctal
      (ds.foldl (fun n d => 8 * n + (d.toNat - 48)) 0, (x :: rest).drop ds.length)
  | _ =>
    let ds := cs.takeWhile Char.isDigit
    (Decimal.valueOf ds, cs.drop ds.length)

def isBlank (c : Char) : Bool := c = ' ' || (9 ≤ c.toNat && c.toNat ≤ 13)

/-- The code that an argument gives of the byte after a quote. -/
def code? (d : Dialect) (arg : String) : Option (Nat × List Complaint) :=
  match utf8 arg with
  | quote :: b :: rest =>
    if quote = 39 || quote = 34 then
      some (b.toNat, if rest = [] || d = .shell then [] else [.ignored rest])
    else none
  | _ => none

def value (d : Dialect) (isSigned : Bool) (arg : String) : Int × List Complaint :=
  match code? d arg with
  | some (code, wrong) => (code, wrong)
  | none =>
    if arg = "" then (0, [])
    else
      let cs := arg.toList.dropWhile isBlank
      let (isNegative, body) := match cs with
        | '-' :: body => (true, body)
        | '+' :: body => (false, body)
        | body => (false, body)
      let (n, rest) := natural body
      let n : Int := if isNegative then -n else n
      let low : Int := if isSigned then -9223372036854775808 else -18446744073709551615
      let high : Int := if isSigned then 9223372036854775807 else 18446744073709551615
      if !body.head?.any Char.isDigit then (0, [.notNumeric arg])
      else if n < low then (if isSigned then low else high, [.outOfRange arg])
      else if high < n then (high, [.outOfRange arg])
      else (n, if rest = [] then [] else [.notAllNumeric arg])

def decimal (d : Dialect) (arg : String) : Decimal × List Complaint :=
  match code? d arg with
  | some (code, wrong) => (⟨false, code, 0⟩, wrong)
  | none =>
    match Decimal.scan? (arg.toList.dropWhile isBlank) with
    | some (x, rest) => (x, if rest = [] then [] else [.notAllNumeric arg])
    | none => (⟨false, 0, 0⟩, if arg = "" then [] else [.notNumeric arg])

namespace Conversion

variable (c : Conversion)

def has (flag : Char) : Bool := c.flags.contains flag

def number (width : Nat) (sign body : String) (fillsZeros : Bool) : Bytes :=
  let missing := width - (sign.length + body.length)
  if fillsZeros && c.has '0' && !c.has '-' then
    utf8 (sign ++ String.ofList (List.replicate missing '0') ++ body)
  else pad (c.has '-') width (utf8 (sign ++ body))

def sign (isNegative : Bool) : String :=
  if isNegative then "-" else if c.has '+' then "+" else if c.has ' ' then " " else ""

def wholeDigits (base n : Nat) (capital : Bool) (precision : Option Nat) : String :=
  if precision = some 0 && n = 0 then "" else digits base n (precision.getD 1) capital

def shown (d : Dialect) (width : Nat) (precision : Option Nat) (arg : String) :
    Bytes × List Complaint :=
  match c.kind with
  | .text =>
    let body := utf8 arg
    (pad (c.has '-') width (body.take (precision.getD body.length)), [])
  | .escaped | .quoted => (pad (c.has '-') width (utf8 arg), [])
  | .first => (pad (c.has '-') width (if arg = "" then [0] else (utf8 arg).take 1), [])
  | .signed =>
    let (n, wrong) := value d true arg
    (c.number width (c.sign (n < 0)) (wholeDigits 10 n.natAbs false precision) (precision = none),
      wrong)
  | .unsigned base capital =>
    let (n, wrong) := value d false arg
    let n := (n % 18446744073709551616).toNat
    let body := wholeDigits base n capital precision
    let mark := if !c.has '#' || n = 0 then ""
      else if base = 16 then if capital then "0X" else "0x"
      else if base = 8 then "0" else ""
    (c.number width mark body (precision = none), wrong)
  | .fixed =>
    let (x, wrong) := decimal d arg
    (c.number width (c.sign x.isNegative) (x.fixed (precision.getD 6)) true, wrong)
  | .scientific mark =>
    let (x, wrong) := decimal d arg
    (c.number width (c.sign x.isNegative) (x.scientific (precision.getD 6) mark) true, wrong)
  | .general mark =>
    let (x, wrong) := decimal d arg
    (c.number width (c.sign x.isNegative) (x.general (precision.getD 6) mark) true, wrong)

end Conversion

def Measure.value (m : Measure) (d : Dialect) (args : List String) :
    Option Int × List Complaint × List String :=
  match m with
  | .unset => (none, [], args)
  | .given n => (some n, [], args)
  | .asked =>
    let (n, wrong) := Format.value d true (args.headD "")
    (some n, wrong, args.tail)

/-- What one use of a format gives. -/
structure Pass where
  output : Bytes
  rest : List String
  stopped : Bool
  wrong : List Complaint

def inQuotes (arg : String) : String :=
  if Tool.needsQuotes [] arg then Tool.quotedName arg else arg

def convert (d : Dialect) (c : Conversion) (args : List String) : Pass :=
  let (width, wrongWidth, args) := c.width.value d args
  let (precision, wrongPrecision, args) := c.precision.value d args
  let isLeft := width.any (· < 0)
  let c := if isLeft then { c with flags := '-' :: c.flags } else c
  let precision := precision.bind fun n => if n < 0 then none else some n.toNat
  let width := (width.getD 0).natAbs
  let wrong := wrongWidth ++ wrongPrecision
  let arg := args.headD ""
  match c.kind with
  | .escaped =>
    match unescape d [] arg.length arg.toList with
    | (body, .whole) => ⟨pad (c.has '-') width body, args.tail, false, wrong⟩
    | (body, .stopped) => ⟨body, args.tail, true, wrong⟩
    | (body, .wrong c) => ⟨body, args.tail, true, wrong ++ [c]⟩
  | .quoted => ⟨if args = [] then [] else utf8 (inQuotes arg), args.tail, false, wrong⟩
  | _ =>
    let (body, more) := c.shown d width precision arg
    ⟨body, args.tail, false, wrong ++ more⟩

def pass (d : Dialect) : List Piece → List String → Pass
  | [], args => ⟨[], args, false, []⟩
  | piece :: ps, args =>
    let first : Pass := match piece with
      | .literal data => ⟨data, args, false, []⟩
      | .conversion c => convert d c args
      | .wrong c => ⟨[], args, true, [c]⟩
      | .stop => ⟨[], args, true, []⟩
    if first.stopped then first
    else
      let more := pass d ps first.rest
      { more with output := first.output ++ more.output, wrong := first.wrong ++ more.wrong }

def Piece.isConversion : Piece → Bool
  | .conversion _ => true
  | _ => false

/-- Uses the pieces as long as arguments are left, at most `fuel` times. -/
def passes (d : Dialect) (ps : List Piece) : (fuel : Nat) → List String → Pass
  | 0, args => ⟨[], args, true, []⟩
  | fuel + 1, args =>
    let first := pass d ps args
    if first.stopped || first.rest = [] || !ps.any Piece.isConversion then first
    else
      let more := passes d ps fuel first.rest
      { more with output := first.output ++ more.output, wrong := first.wrong ++ more.wrong }

def apply (d : Dialect) (format : String) (args : List String) : Pass :=
  passes d (ofString d format) (args.length + 1) args

end Pipework.Host.Format
