import Pipework.Host.Tool.Decimal
import Pipework.Host.Tool.Quotation

/-!
# Formats

A format is a text with escapes and conversions. Each conversion takes the next argument, and a
missing argument counts as an empty one. The format is used again as long as arguments are left.
-/

namespace Pipework.Host.Format

/-- Those who use formats differ in the escapes and the conversions that they know. -/
inductive Dialect where
  | tool
  | shell
deriving DecidableEq, Repr

inductive Measure where
  | unset
  | given (n : Nat)
  | asked
deriving DecidableEq, Repr

inductive Kind where
  | text
  | escaped
  | first
  | quoted
  | signed
  | unsigned (base : Nat) (capital : Bool)
  | fixed
  | scientific (mark : Char)
  | general (mark : Char)
deriving DecidableEq, Repr

structure Conversion where
  flags : List Char
  width : Measure
  precision : Measure
  kind : Kind
deriving DecidableEq, Repr

inductive Complaint where
  | notNumeric (arg : String)
  | notAllNumeric (arg : String)
  | outOfRange (arg : String)
  | ignored (rest : Bytes)
  | unknownConversion (text : String)
  | noConversion
  | noDigits
  | noCharacter (text : String)
deriving DecidableEq, Repr

def Complaint.isWarning : Complaint → Bool
  | .ignored _ => true
  | _ => false

def Complaint.isFinal : Complaint → Bool
  | .unknownConversion _ | .noConversion | .noDigits | .noCharacter _ => true
  | _ => false

def Complaint.message (d : Dialect) (c : Complaint) : Bytes :=
  let about (arg text : String) : Bytes :=
    utf8 ((if d = .tool then Tool.quotedText arg else arg) ++ ": " ++ text)
  match c with
  | .notNumeric arg =>
    about arg (if d = .tool then "expected a numeric value" else "expected numeric value")
  | .notAllNumeric arg =>
    about arg (if d = .tool then "value not completely converted" else "not completely converted")
  | .outOfRange arg => about arg "Numerical result out of range"
  | .ignored rest =>
    utf8 "warning: " ++ rest
      ++ utf8 ": character(s) following character constant have been ignored"
  | .unknownConversion text =>
    utf8 (text ++ if d = .tool then ": invalid conversion specification" else ": invalid directive")
  | .noConversion => utf8 "missing format character"
  | .noDigits => utf8 "missing hexadecimal number in escape"
  | .noCharacter text => utf8 ("invalid universal character name " ++ text)

inductive Piece where
  | literal (data : Bytes)
  | conversion (c : Conversion)
  | wrong (c : Complaint)
  | stop
deriving DecidableEq, Repr

def letterEscapes : List (Char × UInt8) :=
  [('a', 7), ('b', 8), ('e', 27), ('f', 12), ('n', 10), ('r', 13), ('t', 9), ('v', 11), ('\\', 92)]

def isHex (c : Char) : Bool := c.isDigit || ('a' ≤ c && c ≤ 'f') || ('A' ≤ c && c ≤ 'F')

def hex (digits : List Char) : Nat :=
  digits.foldl (fun n d => 16 * n + (if d.isDigit then d.toNat - 48 else d.toLower.toNat - 87)) 0

def isOctal (c : Char) : Bool := '0' ≤ c && c ≤ '7'

def octal (digits : List Char) : UInt8 :=
  UInt8.ofNat (digits.foldl (fun n d => 8 * n + (d.toNat - 48)) 0)

def digits (base n width : Nat) (capital : Bool) : String :=
  let cs := (Nat.toDigits base n).map fun c => if capital then c.toUpper else c
  String.ofList (List.replicate (width - cs.length) '0' ++ cs)

/-- The character with the number that `cs`, which follows `mark`, gives in `count` digits. Only
characters of one byte are known; the others stay escapes. -/
def numbered (mark : Char) (count : Nat) (cs : List Char) : Piece × List Char :=
  let found := (cs.takeWhile isHex).take count
  let code := hex found
  if found.length < count then (.wrong .noDigits, cs)
  else if 0xD800 ≤ code && code ≤ 0xDFFF then
    (.wrong (.noCharacter (String.ofList ('\\' :: mark :: found))), cs)
  else if code < 128 then (.literal [UInt8.ofNat code], cs.drop count)
  else
    let shown := if code < 0x10000 then "\\u" ++ digits 16 code 4 true
      else "\\U" ++ digits 16 code 8 true
    (.literal (utf8 shown), cs.drop count)

def escape (d : Dialect) (cs : List Char) : Piece × List Char :=
  match cs with
  | [] => (.literal [92], [])
  | c :: rest =>
    let octals := (cs.takeWhile isOctal).take 3
    match letterEscapes.lookup c with
    | some b => (.literal [b], rest)
    | none =>
      if octals ≠ [] then (.literal [octal octals], cs.drop octals.length)
      else match d, c with
        | .tool, 'c' => (.stop, rest)
        | .tool, '"' => (.literal [34], rest)
        | .tool, 'x' =>
          let hexes := (rest.takeWhile isHex).take 2
          if hexes = [] then (.wrong .noDigits, rest)
          else (.literal [UInt8.ofNat (hex hexes)], rest.drop hexes.length)
        | .tool, 'u' => numbered 'u' 4 rest
        | .tool, 'U' => numbered 'U' 8 rest
        | _, _ => (.literal (utf8 (String.ofList ['\\', c])), rest)

def measure (cs : List Char) : Measure × List Char :=
  match cs with
  | '*' :: rest => (.asked, rest)
  | _ =>
    let ds := cs.takeWhile Char.isDigit
    (if ds = [] then .unset else .given (Decimal.valueOf ds), cs.drop ds.length)

def kind? (d : Dialect) (letter : Char) : Option Kind :=
  match letter with
  | 's' => some .text
  | 'b' => some .escaped
  | 'c' => some .first
  | 'q' => if d = .tool then some .quoted else none
  | 'd' | 'i' => some .signed
  | 'u' => some (.unsigned 10 false)
  | 'o' => some (.unsigned 8 false)
  | 'x' => some (.unsigned 16 false)
  | 'X' => some (.unsigned 16 true)
  | 'f' | 'F' => some .fixed
  | 'e' | 'E' => some (.scientific letter)
  | 'g' => some (.general 'e')
  | 'G' => some (.general 'E')
  | _ => none

def conversion (d : Dialect) (cs : List Char) : Piece × List Char :=
  let isFlag (c : Char) : Bool :=
    ['-', '0', '+', ' ', '#'].contains c || (d = .tool && (c = '\'' || c = 'I'))
  let flags := cs.takeWhile isFlag
  let (width, rest) := measure (cs.drop flags.length)
  let (precision, rest) : Measure × List Char := match rest with
    | '.' :: more =>
      let (m, more) := measure more
      (if m = .unset then .given 0 else m, more)
    | _ => (.unset, rest)
  let rest := if d = .tool then rest.dropWhile ['h', 'j', 'l', 't', 'z', 'L'].contains else rest
  let isBare := rest.length = cs.length
  match rest with
  | [] =>
    (.wrong (if d = .shell then .noConversion
      else .unknownConversion (String.ofList ('%' :: cs))), [])
  | letter :: more =>
    if letter = '%' && isBare then (.literal [37], more)
    else
      let unknown : Piece :=
        .wrong (.unknownConversion (String.ofList ('%' :: cs.take (cs.length - more.length))))
      match kind? d letter with
      | none => (unknown, more)
      | some kind =>
        if d = .tool && !isBare && (kind = .escaped || kind = .quoted) then (unknown, more)
        else (.conversion ⟨flags, width, precision, kind⟩, more)

def pieces (d : Dialect) : (fuel : Nat) → List Char → List Piece
  | 0, _ | _, [] => []
  | fuel + 1, '\\' :: cs =>
    let (piece, rest) := escape d cs
    piece :: pieces d fuel rest
  | fuel + 1, '%' :: cs =>
    let (piece, rest) := conversion d cs
    piece :: pieces d fuel rest
  | fuel + 1, c :: cs => .literal (Utf8.encode [c]) :: pieces d fuel cs

def ofString (d : Dialect) (format : String) : List Piece := pieces d format.length format.toList

inductive Ending where
  | whole
  | stopped
  | wrong (c : Complaint)
deriving DecidableEq, Repr

/-- The letters of the escapes that `echo` does not know. -/
def unknownToEcho : List Char := ['"', 'u', 'U']

def unescape (d : Dialect) (unknown : List Char) : (fuel : Nat) → List Char → Bytes × Ending
  | 0, _ | _, [] => ([], .whole)
  | fuel + 1, '\\' :: cs =>
    let (piece, rest) : Piece × List Char := match cs with
      -- Here octal digits may follow a zero.
      | '0' :: more =>
        let ds := (more.takeWhile isOctal).take 3
        (.literal [octal ds], more.drop ds.length)
      | 'c' :: more => (.stop, more)
      | c :: more =>
        let isUnknown := unknown.contains c || (c = 'x' && unknown ≠ [] && !more.head?.any isHex)
        if isUnknown then (.literal (utf8 (String.ofList ['\\', c])), more) else escape d cs
      | [] => escape d cs
    match piece with
    | .literal data =>
      let (more, ending) := unescape d unknown fuel rest
      (data ++ more, ending)
    | .wrong c => ([], .wrong c)
    | .stop | .conversion _ => ([], .stopped)
  | fuel + 1, c :: cs =>
    let (more, ending) := unescape d unknown fuel cs
    (Utf8.encode [c] ++ more, ending)

end Pipework.Host.Format
