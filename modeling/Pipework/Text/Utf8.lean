/-!
# Bytes and characters

Output of a command is a string of bytes, text of a script is a string of characters. This module
holds the two directions between them. Reading is lenient: a byte that belongs to no well-formed
character is read as the replacement character, one for each such byte.
-/

namespace Pipework

abbrev Bytes := List UInt8

namespace Utf8

def encode (cs : List Char) : Bytes := cs.flatMap String.utf8EncodeChar

@[simp] theorem encode_nil : encode [] = [] := rfl

@[simp] theorem encode_cons (c : Char) (cs : List Char) :
    encode (c :: cs) = String.utf8EncodeChar c ++ encode cs := rfl

@[simp] theorem encode_append (cs ds : List Char) : encode (cs ++ ds) = encode cs ++ encode ds := by
  simp [encode]

def replacement : Char := '\uFFFD'

def isTail (b : UInt8) : Bool := b.toNat / 64 == 2

def bits (b : UInt8) : Nat := b.toNat % 64

/-- The character of number `value`, if it is one and could not be written with fewer bytes. -/
def scalar? (least value : Nat) : Option Char :=
  if least ≤ value ∧ value.isValidChar then some (Char.ofNat value) else none

/-- The character that starts with the byte `a` and goes on in `rest`, with the number of bytes
that it takes from `rest`. -/
def lead? (a : UInt8) (rest : Bytes) : Option (Char × Nat) :=
  let n := a.toNat
  if n < 0x80 then some (Char.ofNat n, 0)
  else match rest with
  | [] => none
  | b :: rest =>
    if n < 0xC0 || !isTail b then none
    else if n < 0xE0 then (scalar? 0x80 (n % 32 * 64 + bits b)).map (·, 1)
    else match rest with
    | [] => none
    | c :: rest =>
      if !isTail c then none
      else if n < 0xF0 then
        (scalar? 0x800 ((n % 16 * 64 + bits b) * 64 + bits c)).map (·, 2)
      else match rest with
      | [] => none
      | d :: _ =>
        if n < 0xF8 && isTail d then
          (scalar? 0x10000 (((n % 8 * 64 + bits b) * 64 + bits c) * 64 + bits d)).map (·, 3)
        else none

def decodeOnto (seen : List Char) : Bytes → List Char
  | [] => seen.reverse
  | a :: rest =>
    match lead? a rest with
    | some (c, n) => decodeOnto (c :: seen) (rest.drop n)
    | none => decodeOnto (replacement :: seen) rest
termination_by bs => bs.length
decreasing_by
  · simp only [List.length_drop, List.length_cons]; omega
  · simp

def decode (bs : Bytes) : List Char := decodeOnto [] bs

def isValid : Bytes → Bool
  | [] => true
  | a :: rest =>
    match lead? a rest with
    | some (_, n) => isValid (rest.drop n)
    | none => false
termination_by bs => bs.length
decreasing_by simp only [List.length_drop, List.length_cons]; omega

end Utf8

def utf8 (s : String) : Bytes := Utf8.encode s.toList

@[simp] theorem utf8_append (s t : String) : utf8 (s ++ t) = utf8 s ++ utf8 t := by
  simp [utf8]

def chomp (bs : Bytes) : Bytes := if bs.getLast? = some 10 then bs.dropLast else bs

/-- The text that a command's output `bs` stands for: one trailing newline is dropped, and each
byte that is no part of a character is replaced. -/
def capturedText (bs : Bytes) : String := String.ofList (Utf8.decode (chomp bs))

end Pipework
