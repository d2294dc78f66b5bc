import Pipework.Script.Mistake
import Pipework.Table

/-!
# Reading position

A cursor is what is left of a script, together with the place where it begins. Moving the cursor
takes characters off the front, so that whatever follows depends on the characters already passed
only through their number, the lines among them, and whether the current line is blank so far.
-/

namespace Pipework

def isBlank (c : Char) : Bool :=
  let n := c.toNat
  (9 ≤ n && n ≤ 13) || n == 0x20 || n == 0x85 || n == 0xA0 || n == 0x1680
    || (0x2000 ≤ n && n ≤ 0x200A) || n == 0x2028 || n == 0x2029 || n == 0x202F || n == 0x205F
    || n == 0x3000

structure Position where
  offset : Nat
  line : Nat
  col : Nat
  /-- Only spaces, tabs and returns come before it on its line. -/
  fresh : Bool
deriving DecidableEq, Repr

namespace Position

def start : Position := ⟨0, 1, 1, true⟩

def next (p : Position) (c : Char) : Position :=
  if c = '\n' then ⟨p.offset + 1, p.line + 1, 1, true⟩
  else ⟨p.offset + 1, p.line, p.col + 1, p.fresh && (c == ' ' || c == '\t' || c == '\r')⟩

/-- The place after `p` where no character stands. -/
def beyond (p : Position) : Position := { p with offset := p.offset + 1 }

@[simp] theorem offset_next (p : Position) (c : Char) : (p.next c).offset = p.offset + 1 := by
  unfold next; split <;> rfl

end Position

structure Cursor where
  pos : Position
  rest : List Char
deriving DecidableEq, Repr

namespace Cursor

abbrev left (c : Cursor) : Nat := c.rest.length

def at? (c : Cursor) (x : Char) : Bool := c.rest.head? == some x

/-- Moves on by one place. The end of the text does not stop it. -/
def advance (c : Cursor) : Cursor :=
  match c.rest with
  | [] => ⟨c.pos.beyond, []⟩
  | x :: rest => ⟨c.pos.next x, rest⟩

def skip : Nat → Cursor → Cursor
  | 0, c => c
  | n + 1, c => skip n c.advance

def span (p : Char → Bool) (c : Cursor) : List Char × Cursor :=
  let taken := c.rest.takeWhile p
  (taken, ⟨taken.foldl Position.next c.pos, c.rest.dropWhile p⟩)

def skipWhile (p : Char → Bool) (c : Cursor) : Cursor := (c.span p).2

theorem left_advance_le (c : Cursor) : c.advance.left ≤ c.left := by
  unfold advance; split <;> simp_all [left]

theorem left_advance_lt {c : Cursor} (h : c.rest ≠ []) : c.advance.left < c.left := by
  unfold advance; split <;> simp_all [left]

theorem rest_ne_nil_of_at {c : Cursor} {x : Char} (h : c.at? x = true) : c.rest ≠ [] := by
  intro hnil; simp [at?, hnil] at h

theorem left_skip_le (n : Nat) (c : Cursor) : (c.skip n).left ≤ c.left := by
  induction n generalizing c with
  | zero => simp [skip]
  | succ n ih => exact Nat.le_trans (ih _) (left_advance_le c)

theorem left_span_le (p : Char → Bool) (c : Cursor) : (c.span p).2.left ≤ c.left := by
  simpa [span] using (List.dropWhile_suffix p).length_le

theorem left_skipWhile_le (p : Char → Bool) (c : Cursor) : (c.skipWhile p).left ≤ c.left :=
  left_span_le p c

/-- Whether a comment begins here. It begins with two slashes, and these are the first thing on
their line, or a blank or the end of the script follows them. -/
def atComment (c : Cursor) : Bool :=
  match c.rest with
  | '/' :: '/' :: rest =>
    match rest with
    | [] => true
    | x :: _ => x.toNat == 0 || isBlank x || c.pos.fresh
  | _ => false

def skipComment (c : Cursor) : Cursor := c.skipWhile (· ≠ '\n')

theorem left_skipComment_lt {c : Cursor} (h : c.atComment = true) :
    c.skipComment.left < c.left := by
  unfold atComment at h
  split at h
  · next rest hrest =>
    have hdrop : c.skipComment.rest = rest.dropWhile (· ≠ '\n') := by
      simp [skipComment, skipWhile, span, hrest]
    have hle := (List.dropWhile_suffix (· ≠ '\n') : rest.dropWhile (· ≠ '\n') <:+ rest).length_le
    show c.skipComment.rest.length < c.rest.length
    rw [hdrop, hrest]
    simp only [List.length_cons]
    omega
  · simp at h

def skipBlanks (c : Cursor) : Cursor := c.skipWhile isBlank

def skipGap (c : Cursor) : Cursor :=
  let c' := c.skipBlanks
  if c'.atComment then skipGap c'.skipComment else c'
termination_by c.left
decreasing_by
  next h => exact Nat.lt_of_lt_of_le (left_skipComment_lt h) (left_skipWhile_le _ _)

theorem left_skipGap_le (c : Cursor) : c.skipGap.left ≤ c.left := by
  fun_induction skipGap c with
  | case1 c c' h ih =>
    have hComment := Nat.le_of_lt (left_skipComment_lt h)
    exact Nat.le_trans ih (Nat.le_trans hComment (left_skipWhile_le _ _))
  | case2 c c' h => exact left_skipWhile_le _ _

end Cursor

structure Setting where
  symbols : Table
  file : String
  line : Int

namespace Setting

def lineOf (s : Setting) (p : Position) : Int :=
  if 0 < s.line then wrapLine (s.line - 1 + p.line) else p.line

/-- A mistake about the characters from `start` up to the offset `stop`, at least one of them. -/
def mistake (s : Setting) (kind : Mistake.Kind) (start : Cursor) (stop : Nat)
    (name : List Char) : Mistake where
  kind := kind
  name := String.ofList name
  fragment := String.ofList (start.rest.take (max (stop - start.pos.offset) 1))
  offset := start.pos.offset
  line := start.pos.line
  col := start.pos.col
  file := s.file
  fileLine := s.line

end Setting

end Pipework
