import Pipework.Script.Cursor

/-!
# Words

A word runs up to a blank or an operator. It mixes bare text, in which `$name`, `${name}` and `$$`
are replaced, double-quoted text, in which they are replaced too, and raw literals `r"..."` with
any number of `#` around the quotes, which are taken as they are. A raw literal is recognised only
at the start of a word and right after another literal.
-/

namespace Pipework

def isNameStart (c : Char) : Bool := c == '_' || c.isAlpha

def isNameChar (c : Char) : Bool := isNameStart c || c.isDigit

def isOperator (c : Char) : Bool := c == '|' || c == ';' || c == '<' || c == '>'

structure Word where
  text : List Char
  /-- Where in the text the first part begins that is not bare, if there is one. -/
  mark : Option Nat
deriving DecidableEq, Repr

namespace Word

def isBare (w : Word) : Bool := w.mark.isNone

def spells (w : Word) (s : String) : Bool := w.isBare && w.text == s.toList

def isNumber (w : Word) : Bool := w.isBare && w.text != [] && w.text.all Char.isDigit

/-- Name and value of the assignment that the word spells. Name and `=` must be bare. -/
def assignment? (w : Word) : Option (String × String) :=
  match w.text.span (· ≠ '=') with
  | (first :: name, _ :: value) =>
    let bare := match w.mark with
      | none => true
      | some m => name.length + 1 < m
    if bare && isNameStart first && name.all isNameChar then
      some (String.ofList (first :: name), String.ofList value)
    else none
  | _ => none

end Word

def digitsValue (ds : List Char) : Nat := ds.foldl (fun n d => 10 * n + (d.toNat - 48)) 0

/-- The descriptor that decimal digits name: their value, or the largest number of 64 bits where
the value is larger than that. -/
def descriptorOf (ds : List Char) : Nat := min (digitsValue ds) 0x7FFFFFFFFFFFFFFF

namespace Cursor

def name (c : Cursor) : List Char × Cursor :=
  match c.rest with
  | x :: _ => if isNameStart x then c.span isNameChar else ([], c)
  | [] => ([], c)

theorem left_name_le (c : Cursor) : c.name.2.left ≤ c.left := by
  unfold name
  split
  · split
    · exact left_span_le _ _
    · exact Nat.le_refl _
  · exact Nat.le_refl _

def rawFence? (c : Cursor) : Option Nat :=
  match c.rest with
  | x :: rest =>
    if (x == 'r' || x == 'b') && (rest.dropWhile (· == '#')).head? == some '"' then
      some (rest.takeWhile (· == '#')).length
    else none
  | [] => none

def rawText (fence : Nat) (c : Cursor) : Option (List Char × Cursor) :=
  match h : c.rest with
  | [] => none
  | x :: rest =>
    if x == '"' && (rest.take fence).length == fence && (rest.take fence).all (· == '#') then
      some ([], c.skip (1 + fence))
    else
      (rawText fence c.advance).map fun (text, c') => (x :: text, c')
termination_by c.left
decreasing_by exact left_advance_lt (by simp [h])

theorem left_rawText_le {fence : Nat} {c c' : Cursor} {text : List Char}
    (h : c.rawText fence = some (text, c')) : c'.left ≤ c.left := by
  fun_induction rawText fence c generalizing text with
  | case1 c hrest => simp at h
  | case2 c x rest hrest hclose =>
    simp only [Option.some.injEq, Prod.mk.injEq] at h
    exact h.2 ▸ left_skip_le _ _
  | case3 c x rest hrest hclose ih =>
    obtain ⟨⟨text', d⟩, hd, heq⟩ := Option.map_eq_some_iff.mp h
    simp only [Prod.mk.injEq] at heq
    exact Nat.le_trans (ih (heq.2 ▸ hd)) (left_advance_le c)

end Cursor

namespace Setting

open Cursor

def raw (s : Setting) (fence : Nat) (start : Cursor) : Except Mistake (List Char × Cursor) :=
  match (start.skip (2 + fence)).rawText fence with
  | some found => .ok found
  | none => .error (s.mistake .unterminatedLiteral start (start.pos.offset + start.left) [])

def resolve (s : Setting) (start stop : Cursor) (name : List Char) :
    Except Mistake (List Char × Cursor) :=
  match s.symbols.find? (String.ofList name) with
  | some value => .ok (value.toList, stop)
  | none => .error (s.mistake .unresolvedVariable start stop.pos.offset name)

/-- What the `$` that stands here is replaced by. A `$` that no name follows stays. -/
def dollar (s : Setting) (start : Cursor) : Except Mistake (List Char × Cursor) :=
  let c := start.advance
  if c.at? '$' then .ok (['$'], c.advance)
  else if c.at? '{' then
    let (name, stop) := c.advance.name
    if name != [] && stop.at? '}' then s.resolve start stop.advance name
    else .error (s.mistake .badSubstitution start (stop.pos.offset + 1) name)
  else
    let (name, stop) := c.name
    if name != [] then s.resolve start stop name else .ok (['$'], c)

theorem left_raw_lt {s : Setting} {fence : Nat} {c c' : Cursor} {text : List Char}
    (hne : c.rest ≠ []) (h : s.raw fence c = .ok (text, c')) : c'.left < c.left := by
  unfold raw at h
  split at h
  · next found hfound =>
    simp only [Except.ok.injEq] at h
    subst h
    have hskip : (c.skip (2 + fence)).left ≤ c.advance.left := by
      rw [Nat.add_comm]
      exact left_skip_le (fence + 1) c.advance
    exact Nat.lt_of_le_of_lt (left_rawText_le hfound)
      (Nat.lt_of_le_of_lt hskip (left_advance_lt hne))
  · simp at h

theorem resolve_eq_ok {s : Setting} {start stop c : Cursor} {name text : List Char}
    (h : s.resolve start stop name = .ok (text, c)) : c = stop := by
  unfold resolve at h
  split at h <;> simp_all

theorem left_dollar_lt {s : Setting} {c c' : Cursor} {text : List Char}
    (hne : c.rest ≠ []) (h : s.dollar c = .ok (text, c')) : c'.left < c.left := by
  refine Nat.lt_of_le_of_lt ?_ (left_advance_lt hne)
  unfold dollar at h
  simp only at h
  split at h
  · simp only [Except.ok.injEq, Prod.mk.injEq] at h
    exact h.2 ▸ left_advance_le _
  · split at h
    · split at h
      · rw [resolve_eq_ok h]
        exact Nat.le_trans (left_advance_le _) (Nat.le_trans (left_name_le _) (left_advance_le _))
      · simp at h
    · split at h
      · rw [resolve_eq_ok h]
        exact left_name_le _
      · simp only [Except.ok.injEq, Prod.mk.injEq] at h
        exact h.2 ▸ Nat.le_refl _

def quotedText (s : Setting) (start c : Cursor) : Except Mistake (List Char × Cursor) :=
  match _ : c.rest with
  | [] => .error (s.mistake .unterminatedLiteral start c.pos.offset [])
  | x :: rest =>
    if x == '"' then .ok ([], c.advance)
    else if x == '\\' && (rest.head? == some '$' || rest.head? == some '"') then
      match quotedText s start (c.skip 2) with
      | .ok (text, c') => .ok (rest.take 1 ++ text, c')
      | .error m => .error m
    else if x == '$' then
      match _ : s.dollar c with
      | .ok (value, c₁) =>
        match quotedText s start c₁ with
        | .ok (text, c') => .ok (value ++ text, c')
        | .error m => .error m
      | .error m => .error m
    else
      match quotedText s start c.advance with
      | .ok (text, c') => .ok (x :: text, c')
      | .error m => .error m
termination_by c.left
decreasing_by
  · exact Nat.lt_of_le_of_lt (left_skip_le 1 _) (left_advance_lt (by simp [*]))
  · exact left_dollar_lt (by simp [*]) ‹_›
  · exact left_advance_lt (by simp [*])

theorem left_quotedText_le {s : Setting} {start c c' : Cursor} {text : List Char}
    (h : s.quotedText start c = .ok (text, c')) : c'.left ≤ c.left := by
  fun_induction quotedText s start c generalizing text c' with
  | case1 c hrest => simp at h
  | case2 c x rest hrest hx =>
    simp only [Except.ok.injEq, Prod.mk.injEq] at h
    exact h.2 ▸ left_advance_le c
  | case3 c x rest hrest hx hesc text' d hd ih =>
    simp only [Except.ok.injEq, Prod.mk.injEq] at h
    exact h.2 ▸ Nat.le_trans (ih hd) (left_skip_le 2 c)
  | case5 c x rest hrest hx hesc hdollar value c₁ hval text' d hd ih =>
    simp only [Except.ok.injEq, Prod.mk.injEq] at h
    exact h.2 ▸ Nat.le_trans (ih hd) (Nat.le_of_lt (left_dollar_lt (by simp [hrest]) hval))
  | case8 c x rest hrest hx hesc hdollar text' d hd ih =>
    simp only [Except.ok.injEq, Prod.mk.injEq] at h
    exact h.2 ▸ Nat.le_trans (ih hd) (left_advance_le c)
  | _ => simp at h

structure Piece where
  text : List Char
  bare : Bool
  rawNext : Bool

/-- The part of a word that begins here with the character `x`; `rawOk` says whether it may be a
raw literal. -/
def piece (s : Setting) (rawOk : Bool) (x : Char) (c : Cursor) : Except Mistake (Piece × Cursor) :=
  match if rawOk then c.rawFence? else none with
  | some fence => (s.raw fence c).map fun (text, c') => (⟨text, false, true⟩, c')
  | none =>
    if x == '"' then (s.quotedText c c.advance).map fun (text, c') => (⟨text, false, true⟩, c')
    else if x == '\\' && (c.advance.at? '$' || c.advance.at? '"') then
      .ok (⟨c.advance.rest.take 1, false, false⟩, c.skip 2)
    else if x == '$' then (s.dollar c).map fun (text, c') => (⟨text, false, false⟩, c')
    else .ok (⟨[x], true, false⟩, c.advance)

theorem map_eq_ok {ε α β : Type} {f : α → β} {e : Except ε α} {b : β} (h : e.map f = .ok b) :
    ∃ a, e = .ok a ∧ f a = b := by
  cases e with
  | error m => simp [Except.map] at h
  | ok a => exact ⟨a, rfl, by simpa [Except.map] using h⟩

theorem left_piece_lt {s : Setting} {rawOk : Bool} {x : Char} {c c' : Cursor} {p : Piece}
    (hne : c.rest ≠ []) (h : s.piece rawOk x c = .ok (p, c')) : c'.left < c.left := by
  unfold piece at h
  split at h
  · obtain ⟨⟨text, d⟩, hd, heq⟩ := map_eq_ok h
    simp only [Prod.mk.injEq] at heq
    exact heq.2 ▸ left_raw_lt hne hd
  · split at h
    · obtain ⟨⟨text, d⟩, hd, heq⟩ := map_eq_ok h
      simp only [Prod.mk.injEq] at heq
      exact heq.2 ▸ Nat.lt_of_le_of_lt (left_quotedText_le hd) (left_advance_lt hne)
    · split at h
      · simp only [Except.ok.injEq, Prod.mk.injEq] at h
        exact h.2 ▸ Nat.lt_of_le_of_lt (left_skip_le 1 _) (left_advance_lt hne)
      · split at h
        · obtain ⟨⟨text, d⟩, hd, heq⟩ := map_eq_ok h
          simp only [Prod.mk.injEq] at heq
          exact heq.2 ▸ left_dollar_lt hne hd
        · simp only [Except.ok.injEq, Prod.mk.injEq] at h
          exact h.2 ▸ left_advance_lt hne

def Piece.before (p : Piece) (w : Word) : Word where
  text := p.text ++ w.text
  mark := if p.bare then w.mark.map (· + p.text.length) else some 0

def wordFrom (s : Setting) (rawOk : Bool) (c : Cursor) : Except Mistake (Word × Cursor) :=
  match _ : c.rest with
  | [] => .ok (⟨[], none⟩, c)
  | x :: _ =>
    if isBlank x || isOperator x then .ok (⟨[], none⟩, c)
    else match _ : s.piece rawOk x c with
      | .error m => .error m
      | .ok (p, c₁) =>
        match wordFrom s p.rawNext c₁ with
        | .ok (w, c') => .ok (p.before w, c')
        | .error m => .error m
termination_by c.left
decreasing_by exact left_piece_lt (by simp [*]) ‹_›

def word (s : Setting) (c : Cursor) : Except Mistake (Word × Cursor) := s.wordFrom true c

theorem left_wordFrom_le {s : Setting} {rawOk : Bool} {w : Word} {c c' : Cursor}
    (h : s.wordFrom rawOk c = .ok (w, c')) : c'.left ≤ c.left := by
  fun_induction wordFrom s rawOk c generalizing w c' with
  | case1 rawOk c hrest =>
    simp only [Except.ok.injEq, Prod.mk.injEq] at h
    exact h.2 ▸ Nat.le_refl _
  | case2 rawOk c x rest hrest hend =>
    simp only [Except.ok.injEq, Prod.mk.injEq] at h
    exact h.2 ▸ Nat.le_refl _
  | case4 rawOk c x rest hrest hend p c₁ hp w₁ d hd ih =>
    simp only [Except.ok.injEq, Prod.mk.injEq] at h
    exact h.2 ▸ Nat.le_trans (ih hd) (Nat.le_of_lt (left_piece_lt (by simp [hrest]) hp))
  | _ => simp at h

theorem left_word_lt {s : Setting} {w : Word} {c c' : Cursor} {x : Char} {rest : List Char}
    (hrest : c.rest = x :: rest) (hx : (isBlank x || isOperator x) = false)
    (h : s.word c = .ok (w, c')) : c'.left < c.left := by
  unfold word wordFrom at h
  split at h
  · simp_all
  · next y ys hy =>
    obtain rfl : y = x := by simp_all
    rw [if_neg (by simp [hx])] at h
    split at h
    · simp at h
    · next p c₁ hp =>
      split at h
      · next w₁ d hd =>
        simp only [Except.ok.injEq, Prod.mk.injEq] at h
        exact h.2 ▸ Nat.lt_of_le_of_lt (left_wordFrom_le hd) (left_piece_lt (by simp [hrest]) hp)
      · simp at h

end Setting

end Pipework
