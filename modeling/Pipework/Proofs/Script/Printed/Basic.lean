import Pipework.Proofs.Script.Pairing.Word
import Pipework.Proofs.Script.WellFormed

/-!
# Printed scripts

A script is printed on one line, with every text in a raw literal. What stands in a literal is never
looked at, so that any text can be printed, and the `#` around it need only be more than follow a quote
within it. This module prints scripts and reads the printed words.
-/

namespace Pipework

open Cursor Setting

/-- What printing leaves open: how many `#` stand around a text, and in which order the variables of a
command are set. -/
structure Spelling where
  fence : String → Nat
  fits : ∀ text, ¬('"' :: List.replicate (fence text) '#') <:+: text.toList
  arrange : Table → Table
  arrange_perm : ∀ t, (arrange t).Perm t

namespace Spelling

/-- No text is shorter than what closes it here. -/
def plain : Spelling where
  fence := String.length
  fits text h := by
    have hLength := h.length_le
    rw [List.length_cons, List.length_replicate, String.length_toList] at hLength
    exact Nat.not_succ_le_self _ hLength
  arrange := id
  arrange_perm _ := .refl _

variable (f : Spelling)

def hashes (text : String) : String := String.ofList (List.replicate (f.fence text) '#')

def literal (text : String) : String := "r" ++ f.hashes text ++ "\"" ++ text ++ "\"" ++ f.hashes text

def assignment (entry : String × String) : String := entry.1 ++ "=\"\"" ++ f.literal entry.2

def target : Target → String
  | .file path => f.literal path
  | .fd n => "&" ++ toString n
  | .null => nullDevice

def redirection (r : Redirection) : String := r.operator ++ f.target r.target

def items (c : Command) : List String :=
  (f.arrange c.env).map f.assignment ++ c.args.map f.literal ++ c.redirections.map f.redirection

def command (c : Command) : String := " ".intercalate (f.items c)

def pipeline (p : Pipeline) : String :=
  (if p.ignore then "ignore " else "") ++ " | ".intercalate (p.commands.map f.command)

def statement (st : Statement) : String := " || ".intercalate (st.alternatives.map f.pipeline)

def script (t : Script) : String := " ; ".intercalate (t.statements.map f.statement)

end Spelling

namespace Cursor

theorem rest_skip (n : Nat) (c : Cursor) : (c.skip n).rest = c.rest.drop n := by
  induction n generalizing c with
  | zero => rfl
  | succ n ih =>
    obtain ⟨pos, rest⟩ := c
    rw [skip, ih]
    cases rest with
    | nil => exact List.drop_nil
    | cons x rest => rfl

theorem rest_advance (c : Cursor) : c.advance.rest = c.rest.drop 1 := rest_skip 1 c

end Cursor

/-- Hashes that reach the closing quote of a text would have to pass it, so they all stand in the text. -/
theorem hashes_prefix {n : Nat} {text more : List Char}
    (h : List.replicate n '#' <+: text ++ '"' :: more) : List.replicate n '#' <+: text := by
  induction text generalizing n with
  | nil =>
    cases n with
    | zero => exact List.nil_prefix
    | succ n =>
      rw [List.replicate_succ, List.nil_append, List.cons_prefix_cons] at h
      exact absurd h.1 (by decide)
  | cons x text ih =>
    cases n with
    | zero => exact List.nil_prefix
    | succ n =>
      rw [List.replicate_succ, List.cons_append, List.cons_prefix_cons] at h
      rw [List.replicate_succ, List.cons_prefix_cons]
      exact ⟨h.1, ih h.2⟩

theorem take_hashes_iff {n : Nat} {l : List Char} :
    ((l.take n).length == n && (l.take n).all (· == '#')) = true ↔ List.replicate n '#' <+: l := by
  rw [List.prefix_iff_eq_take, List.length_replicate, @eq_comm _ (List.replicate n '#'),
    List.eq_replicate_iff]
  simp

namespace Cursor

theorem rawText_closed {fence : Nat} {text rest : List Char} {c : Cursor}
    (hFits : ¬('"' :: List.replicate fence '#') <:+: text)
    (h : c.rest = text ++ '"' :: (List.replicate fence '#' ++ rest)) :
    ∃ c', c'.rest = rest ∧ c.rawText fence = some (text, c') := by
  induction text generalizing c with
  | nil =>
    have hHashes := take_hashes_iff.mpr (List.prefix_append (List.replicate fence '#') rest)
    refine ⟨c.skip (1 + fence), ?_, ?_⟩
    · rw [rest_skip, h, List.nil_append, Nat.add_comm, List.drop_succ_cons]
      exact List.drop_left' List.length_replicate
    · rw [rawText_cons h, Bool.and_assoc, hHashes]
      rfl
  | cons x text ih =>
    have hOpen : ¬(x == '"' &&
        (((text ++ '"' :: (List.replicate fence '#' ++ rest)).take fence).length == fence &&
          ((text ++ '"' :: (List.replicate fence '#' ++ rest)).take fence).all (· == '#'))) = true := by
      intro hClose
      obtain ⟨hQuote, hHashes⟩ := Bool.and_eq_true_iff.mp hClose
      obtain rfl : x = '"' := by simpa using hQuote
      exact hFits (List.cons_prefix_cons.mpr ⟨rfl, hashes_prefix (take_hashes_iff.mp hHashes)⟩).isInfix
    have hInner : ¬('"' :: List.replicate fence '#') <:+: text := fun hIn => hFits (List.infix_cons hIn)
    obtain ⟨c', hRest, hText⟩ := ih hInner (by rw [rest_advance, h]; rfl : c.advance.rest = _)
    refine ⟨c', hRest, ?_⟩
    rw [rawText_cons (h.trans (List.cons_append ..)), Bool.and_assoc, if_neg hOpen, hText]
    rfl

theorem rawFence?_literal {fence : Nat} {more : List Char} {c : Cursor}
    (h : c.rest = 'r' :: (List.replicate fence '#' ++ '"' :: more)) : c.rawFence? = some fence := by
  have hHash : ∀ x ∈ List.replicate fence '#', (x == '#') = true := by
    intro x hx
    rw [List.eq_of_mem_replicate hx]
    rfl
  have hTake : (List.replicate fence '#' ++ '"' :: more).takeWhile (· == '#') = List.replicate fence '#' := by
    rw [List.takeWhile_append_of_pos hHash]
    exact List.append_nil _
  have hDrop : (List.replicate fence '#' ++ '"' :: more).dropWhile (· == '#') = '"' :: more := by
    rw [List.dropWhile_append_of_pos hHash]
    rfl
  simp [rawFence?, h, hTake, hDrop]

theorem rawFence?_none {c : Cursor} {x y : Char} {rest : List Char} (h : c.rest = x :: y :: rest)
    (hHash : y ≠ '#') (hQuote : y ≠ '"') : c.rawFence? = none := by
  simp [rawFence?, h, hHash, hQuote]

end Cursor

/-- What follows a written word is nothing, a space or a semicolon. -/
def Spaced (rest : List Char) : Prop := ∀ x ∈ rest.head?, x = ' ' ∨ x = ';'

/-- A word ends before `rest`. -/
def EndsWord (rest : List Char) : Prop := ∀ x ∈ rest.head?, (isBlank x || isOperator x) = true

theorem Spaced.endsWord {rest : List Char} (h : Spaced rest) : EndsWord rest := by
  intro x hx
  rcases h x hx with rfl | rfl <;> rfl

theorem Spaced.head_ne {rest : List Char} (h : Spaced rest) {y : Char} (hSpace : y ≠ ' ') (hSemicolon : y ≠ ';') :
    rest.head? ≠ some y := by
  intro hy
  rcases h y hy with rfl | rfl
  · exact hSpace rfl
  · exact hSemicolon rfl

theorem Spaced.at_eq_false {rest : List Char} (h : Spaced rest) {c : Cursor} (hRest : c.rest = rest) {y : Char}
    (hSpace : y ≠ ' ') (hSemicolon : y ≠ ';') : c.at? y = false := by
  subst hRest
  simpa [at?] using h.head_ne hSpace hSemicolon

def isPlain (x : Char) : Bool :=
  !(isBlank x || isOperator x || x == '"' || x == '\\' || x == '$')

theorem nameChar_cases {x : Char} (h : isNameChar x = true) :
    48 ≤ x.toNat ∧ x.toNat ≤ 57 ∨ 65 ≤ x.toNat ∧ x.toNat ≤ 90 ∨ x.toNat = 95 ∨
      97 ≤ x.toNat ∧ x.toNat ≤ 122 := by
  rcases Bool.or_eq_true_iff.mp h with hStart | hDigit
  · rcases Bool.or_eq_true_iff.mp hStart with hUnderscore | hLetter
    · rw [beq_iff_eq.mp hUnderscore]
      exact .inr (.inr (.inl rfl))
    · rcases Bool.or_eq_true_iff.mp hLetter with hUpper | hLower
      · obtain ⟨hLeast, hMost⟩ := of_decide_eq_true hUpper
        exact .inr (.inl ⟨UInt32.le_iff_toNat_le.mp hLeast, UInt32.le_iff_toNat_le.mp hMost⟩)
      · obtain ⟨hLeast, hMost⟩ := Bool.and_eq_true_iff.mp hLower
        exact .inr (.inr (.inr ⟨UInt32.le_iff_toNat_le.mp (of_decide_eq_true hLeast),
          UInt32.le_iff_toNat_le.mp (of_decide_eq_true hMost)⟩))
  · obtain ⟨hLeast, hMost⟩ := Bool.and_eq_true_iff.mp hDigit
    exact .inl ⟨UInt32.le_iff_toNat_le.mp (of_decide_eq_true hLeast),
      UInt32.le_iff_toNat_le.mp (of_decide_eq_true hMost)⟩

theorem nameChar_ne {x y : Char} (h : isNameChar x = true) (hy : isNameChar y = false) : x ≠ y := by
  rintro rfl
  rw [h] at hy
  cases hy

theorem isPlain_of_nameChar {x : Char} (h : isNameChar x = true) : isPlain x = true := by
  have hBlank : isBlank x = false := by
    have hRange := nameChar_cases h
    simp [isBlank]
    omega
  simp [isPlain, isOperator, hBlank, nameChar_ne h (y := '|') rfl, nameChar_ne h (y := ';') rfl,
    nameChar_ne h (y := '<') rfl, nameChar_ne h (y := '>') rfl, nameChar_ne h (y := '"') rfl,
    nameChar_ne h (y := '\\') rfl, nameChar_ne h (y := '$') rfl]

namespace Setting

variable (s : Setting)

theorem wordFrom_end (rawOk : Bool) {c : Cursor} (h : EndsWord c.rest) :
    s.wordFrom rawOk c = .ok (⟨[], none⟩, c) := by
  cases hRest : c.rest with
  | nil => exact wordFrom_nil hRest
  | cons x rest => rw [wordFrom_cons hRest, if_pos (h x (by rw [hRest]; rfl))]

theorem wordFrom_literal (f : Spelling) (text : String) {rest : List Char} {c : Cursor} (hEnd : EndsWord rest)
    (h : c.rest = (f.literal text).toList ++ rest) :
    ∃ c', c'.rest = rest ∧ s.wordFrom true c = .ok (⟨text.toList, some 0⟩, c') := by
  have hOpen : c.rest = 'r' :: (List.replicate (f.fence text) '#' ++ '"' ::
      (text.toList ++ '"' :: (List.replicate (f.fence text) '#' ++ rest))) := by
    rw [h]
    simp [Spelling.literal, Spelling.hashes]
  have hInner : (c.skip (2 + f.fence text)).rest =
      text.toList ++ '"' :: (List.replicate (f.fence text) '#' ++ rest) := by
    rw [rest_skip, hOpen, Nat.add_comm, List.drop_succ_cons, List.drop_append]
    simp
  obtain ⟨c', hRest, hText⟩ := rawText_closed (f.fits text) hInner
  have hPiece : s.piece true 'r' c = .ok (⟨text.toList, false, true⟩, c') := by
    simp only [piece, if_true, rawFence?_literal hOpen, raw, hText]
    rfl
  refine ⟨c', hRest, ?_⟩
  rw [wordFrom_cons hOpen, if_neg (by decide), hPiece]
  dsimp only [Except.bind]
  rw [s.wordFrom_end true (hRest ▸ hEnd)]
  simp [Except.map, Piece.before]

theorem wordFrom_plain (rawOk : Bool) {c : Cursor} {x : Char} {rest : List Char} (h : c.rest = x :: rest)
    (hx : isPlain x = true) (hRaw : rawOk = true → c.rawFence? = none) :
    s.wordFrom rawOk c =
      (s.wordFrom false c.advance).map fun (w, c') => (⟨x :: w.text, w.mark.map (· + 1)⟩, c') := by
  simp only [isPlain, Bool.not_eq_true', Bool.or_eq_false_iff] at hx
  obtain ⟨⟨⟨hEnd, hQuote⟩, hEscape⟩, hDollar⟩ := hx
  have hFence : (if rawOk then c.rawFence? else none) = none := by
    split
    · next hOk => exact hRaw hOk
    · rfl
  have hPiece : s.piece rawOk x c = .ok (⟨[x], true, false⟩, c.advance) := by
    simp [piece, hFence, hQuote, hEscape, hDollar]
  rw [wordFrom_cons h, if_neg (by simp [hEnd]), hPiece]
  rfl

theorem wordFrom_bare {bare rest : List Char} {c : Cursor} (hPlain : bare.all isPlain = true)
    (h : c.rest = bare ++ rest) :
    ∃ c', c'.rest = rest ∧ s.wordFrom false c =
      (s.wordFrom false c').map fun (w, e) => (⟨bare ++ w.text, w.mark.map (· + bare.length)⟩, e) := by
  induction bare generalizing c with
  | nil =>
    refine ⟨c, h, ?_⟩
    cases s.wordFrom false c with
    | error m => rfl
    | ok found => simp [Except.map]
  | cons x bare ih =>
    obtain ⟨hx, hBare⟩ := Bool.and_eq_true_iff.mp hPlain
    obtain ⟨c', hRest, hWord⟩ := ih hBare (by rw [rest_advance, h]; rfl : c.advance.rest = _)
    refine ⟨c', hRest, ?_⟩
    rw [s.wordFrom_plain false (h.trans (List.cons_append ..)) hx
      (fun hOk => absurd hOk Bool.false_ne_true), hWord]
    cases s.wordFrom false c' with
    | error m => rfl
    | ok found => simp [Except.map, Nat.add_assoc, Function.comp_def]

theorem word_bare {x : Char} {bare rest : List Char} {c : Cursor}
    (hPlain : (x :: bare).all isPlain = true) (hRaw : c.rawFence? = none) (h : c.rest = x :: bare ++ rest) :
    ∃ c', c'.rest = rest ∧ s.word c = (s.wordFrom false c').map fun (w, e) =>
      (⟨x :: bare ++ w.text, w.mark.map (· + (x :: bare).length)⟩, e) := by
  obtain ⟨hx, hBare⟩ := Bool.and_eq_true_iff.mp hPlain
  obtain ⟨c', hRest, hWord⟩ := s.wordFrom_bare hBare (by rw [rest_advance, h]; rfl : c.advance.rest = _)
  refine ⟨c', hRest, ?_⟩
  rw [word, s.wordFrom_plain true (h.trans (List.cons_append ..)) hx fun _ => hRaw, hWord]
  cases s.wordFrom false c' with
  | error m => rfl
  | ok found => simp [Except.map, Nat.add_assoc, Function.comp_def]

theorem word_spelled {x : Char} {bare rest : List Char} {c : Cursor}
    (hPlain : (x :: bare).all isPlain = true) (hRaw : c.rawFence? = none) (hEnd : EndsWord rest)
    (h : c.rest = x :: bare ++ rest) :
    ∃ c', c'.rest = rest ∧ s.word c = .ok (⟨x :: bare, none⟩, c') := by
  obtain ⟨c', hRest, hWord⟩ := s.word_bare hPlain hRaw h
  refine ⟨c', hRest, ?_⟩
  rw [hWord, s.wordFrom_end false (hRest ▸ hEnd)]
  simp [Except.map]

theorem wordFrom_quotes {c : Cursor} {rest : List Char} (h : c.rest = '"' :: '"' :: rest) :
    s.wordFrom false c = (s.wordFrom true (c.skip 2)).map fun (w, e) => (⟨w.text, some 0⟩, e) := by
  have hInner : c.advance.rest = '"' :: rest := by rw [rest_advance, h]; rfl
  have hPiece : s.piece false '"' c = .ok (⟨[], false, true⟩, c.skip 2) := by
    simp only [piece, Bool.false_eq_true, if_false, beq_self_eq_true, if_true, quotedText_cons hInner]
    rfl
  rw [wordFrom_cons h, if_neg (by decide), hPiece]
  rfl

theorem assignment?_name {name : String} (h : IsName name) (value : List Char) :
    (⟨name.toList ++ '=' :: value, none⟩ : Word).assignment? = some (name, String.ofList value) := by
  have hEq : ∀ x ∈ name.toList, (x ≠ '=' : Bool) = true := by
    intro x hx
    simpa using nameChar_ne (h.nameChar x hx) (y := '=') rfl
  have hTake : (name.toList ++ '=' :: value).takeWhile (· ≠ '=') = name.toList := by
    rw [List.takeWhile_append_of_pos hEq]
    simp
  have hDrop : (name.toList ++ '=' :: value).dropWhile (· ≠ '=') = '=' :: value := by
    rw [List.dropWhile_append_of_pos hEq]
    simp
  obtain ⟨first, rest, hName, hFirst, hRest⟩ := h
  rw [Word.assignment?, List.span_eq_takeWhile_dropWhile, hTake, hDrop, hName]
  simp [hFirst, hRest, ← hName]

/-- The quotes before the literal let it follow the `=`, and count as the part that is not bare. -/
theorem word_assignment (f : Spelling) {entry : String × String} (hName : IsName entry.1) {rest : List Char}
    {c : Cursor} (hEnd : EndsWord rest) (h : c.rest = (f.assignment entry).toList ++ rest) :
    ∃ c' w, c'.rest = rest ∧ s.word c = .ok (w, c') ∧ w.assignment? = some entry := by
  obtain ⟨name, value⟩ := entry
  have hSpelled := assignment?_name hName []
  have hChars := hName.nameChar
  obtain ⟨first, more, hFirst, hStart, hMore⟩ := hName
  dsimp only at hFirst hSpelled hChars
  have hText : c.rest = first :: (more ++ ['=']) ++ ('"' :: '"' :: ((f.literal value).toList ++ rest)) := by
    rw [h]
    simp [Spelling.assignment, hFirst]
  have hPlain : (first :: (more ++ ['='])).all isPlain = true := by
    have hName : (first :: more).all isPlain = true := by
      rw [List.all_eq_true, ← hFirst]
      intro z hz
      exact isPlain_of_nameChar (hChars z hz)
    rw [← List.cons_append, List.all_append, hName]
    rfl
  have hRaw : c.rawFence? = none := by
    cases more with
    | nil => exact rawFence?_none (by simpa using hText) (by decide) (by decide)
    | cons y more =>
      have hy : isNameChar y = true := List.all_eq_true.mp hMore y List.mem_cons_self
      exact rawFence?_none (by simpa using hText) (nameChar_ne hy rfl) (nameChar_ne hy rfl)
  obtain ⟨c₁, hRest₁, hWord₁⟩ := s.word_bare hPlain hRaw hText
  have hInner : (c₁.skip 2).rest = (f.literal value).toList ++ rest := by rw [rest_skip, hRest₁]; rfl
  obtain ⟨c₂, hRest₂, hWord₂⟩ := s.wordFrom_literal f value hEnd hInner
  refine ⟨c₂, ⟨(name.toList ++ ['=']) ++ value.toList, some (name.toList ++ ['=']).length⟩, hRest₂, ?_, ?_⟩
  · rw [hWord₁, s.wordFrom_quotes hRest₁, hWord₂, hFirst]
    simp [Except.map]
  · rw [Word.assignment?_append, hSpelled]
    simp

end Setting

end Pipework
