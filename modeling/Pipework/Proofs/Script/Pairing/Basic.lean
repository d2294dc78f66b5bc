import Mathlib.Data.List.Forall2
import Pipework.Proofs.Script.Steps

/-!
# Two readings side by side

Many facts about reading compare two readings: of one text with two tables of values, of a text that
stands alone and one that stands further down, of a text and one that goes on. A pairing says how
the second reading differs from the first; that it follows the first step by step is shown once, for
all pairings. This module has the pairings and the cursors, and the others of this folder the words,
the commands and the scripts.
-/

namespace Pipework

open Cursor

/-- The place after `offset` more characters and `lines` more lines. -/
def Position.moved (p : Position) (offset lines : Nat) : Position :=
  { p with offset := p.offset + offset, line := p.line + lines }

@[simp] theorem Position.next_moved (p : Position) (offset lines : Nat) (c : Char) :
    (p.moved offset lines).next c = (p.next c).moved offset lines := by
  unfold next moved
  split <;> simp [Nat.add_right_comm]

theorem Position.foldl_next_moved (text : List Char) (p : Position) (offset lines : Nat) :
    text.foldl Position.next (p.moved offset lines) = (text.foldl Position.next p).moved offset lines := by
  induction text generalizing p with
  | nil => rfl
  | cons x text ih => rw [List.foldl_cons, next_moved, ih, List.foldl_cons]

/-- The text of the second reading has `offset` characters on `lines` lines before the first text,
and `tail` after it. Its values are `Similar`. Where the first reading fails with an `Excused`
mistake, the second one is free. -/
structure Pairing (s₁ s₂ : Setting) where
  offset : Nat
  lines : Nat
  tail : List Char
  Similar : List Char → List Char → Prop
  Excused : Mistake → Prop
  similar_refl : ∀ text, Similar text text
  similar_append : ∀ {a b c d}, Similar a b → Similar c d → Similar (a ++ c) (b ++ d)
  similar_nil : ∀ {a b}, Similar a b → (a = [] ↔ b = [])
  values : ∀ name, Option.Rel (fun v₁ v₂ => Similar v₁.toList v₂.toList)
      (s₁.symbols.find? name) (s₂.symbols.find? name) ∨
    s₁.symbols.find? name = none ∧
      ∀ m : Mistake, m.kind = .unresolvedVariable → m.name = name → Excused m
  stops : tail = [] ∨ tail.head? = some '\n' ∧ ∀ m, Excused m

/-- A text that stands alone and the same text within another, read with the same setting. -/
def Pairing.ofTexts (s : Setting) (offset lines : Nat) (tail : List Char)
    (hTail : tail = [] ∨ tail.head? = some '\n') : Pairing s s where
  offset := offset
  lines := lines
  tail := tail
  Similar := Eq
  Excused _ := tail ≠ []
  similar_refl _ := rfl
  similar_append hab hcd := by rw [hab, hcd]
  similar_nil h := by rw [h]
  values name := by
    refine .inl ?_
    cases s.symbols.find? name with
    | none => exact .none
    | some value => exact .some rfl
  stops := by
    by_cases hNil : tail = []
    · exact .inl hNil
    · exact .inr ⟨hTail.resolve_left hNil, fun _ => hNil⟩

def Table.Extends (t t' : Table) : Prop := ∀ name value, t.find? name = some value → t'.find? name = some value

theorem Table.Extends.refl (t : Table) : t.Extends t := fun _ _ h => h

/-- One text read at two places, the second time with a table that may have more values. -/
def Pairing.ofExtension {s₁ s₂ : Setting} (h : s₁.symbols.Extends s₂.symbols) : Pairing s₁ s₂ where
  offset := 0
  lines := 0
  tail := []
  Similar := Eq
  Excused m := m.kind = .unresolvedVariable ∧ s₂.symbols.find? m.name ≠ none
  similar_refl _ := rfl
  similar_append hab hcd := by rw [hab, hcd]
  similar_nil h := by rw [h]
  values name := by
    cases hFind : s₁.symbols.find? name with
    | some value =>
      rw [h name value hFind]
      exact .inl (.some rfl)
    | none =>
      cases hFind' : s₂.symbols.find? name with
      | none => exact .inl .none
      | some value =>
        refine .inr ⟨rfl, ?_⟩
        rintro m hKind rfl
        exact ⟨hKind, by simp [hFind']⟩
  stops := .inl rfl

namespace Pairing

variable {s₁ s₂ : Setting} (P : Pairing s₁ s₂)

/-- Where the second reading is when the first is at `c`. -/
def lift (c : Cursor) : Cursor := ⟨c.pos.moved P.offset P.lines, c.rest ++ P.tail⟩

def moved (m : Mistake) : Mistake :=
  { m with offset := m.offset + P.offset, line := m.line + P.lines, file := s₂.file, fileLine := s₂.line }

/-- The second text only ends the last line of the first one, and gives no name a value in addition. -/
def EndsLine : Prop :=
  P.tail = ['\n'] ∧ ∀ name, s₁.symbols.find? name = none → s₂.symbols.find? name = none

/-- How the second reading follows the first. Where a line end is all that it has in addition, it fails
whenever the first one does. -/
inductive Agree {α β : Type} (R : α → β → Prop) : Except Mistake α → Except Mistake β → Prop
  | ok {a : α} {b : β} (h : R a b) : Agree R (.ok a) (.ok b)
  | excused {m : Mistake} {r : Except Mistake β} (h : P.Excused m)
    (hFails : P.EndsLine → ∃ m', r = .error m') : Agree R (.error m) r
  | mistake {m : Mistake} (hFile : m.file = s₁.file) (hLine : m.fileLine = s₁.line) :
    Agree R (.error m) (.error (P.moved m))

variable {P} {α β γ δ : Type} {R : α → β → Prop} {Q : γ → δ → Prop}

theorem Agree.bind {e₁ : Except Mistake α} {e₂ : Except Mistake β} {f : α → Except Mistake γ}
    {g : β → Except Mistake δ} (h : P.Agree R e₁ e₂)
    (hfg : ∀ a b, e₁ = .ok a → R a b → P.Agree Q (f a) (g b)) : P.Agree Q (e₁.bind f) (e₂.bind g) := by
  cases h with
  | ok h => exact hfg _ _ rfl h
  | excused h hFails =>
    refine .excused h fun hEnds => ?_
    obtain ⟨m', rfl⟩ := hFails hEnds
    exact ⟨m', rfl⟩
  | mistake hFile hLine => exact .mistake hFile hLine

theorem Agree.map {e₁ : Except Mistake α} {e₂ : Except Mistake β} {f : α → γ} {g : β → δ}
    (h : P.Agree R e₁ e₂) (hfg : ∀ a b, e₁ = .ok a → R a b → Q (f a) (g b)) :
    P.Agree Q (e₁.map f) (e₂.map g) := by
  cases h with
  | ok h => exact .ok (hfg _ _ rfl h)
  | excused h hFails =>
    refine .excused h fun hEnds => ?_
    obtain ⟨m', rfl⟩ := hFails hEnds
    exact ⟨m', rfl⟩
  | mistake hFile hLine => exact .mistake hFile hLine

theorem Agree.imp {R' : α → β → Prop} {e₁ : Except Mistake α} {e₂ : Except Mistake β}
    (h : P.Agree R e₁ e₂) (hImp : ∀ a b, R a b → R' a b) : P.Agree R' e₁ e₂ := by
  cases h with
  | ok h => exact .ok (hImp _ _ h)
  | excused h hFails => exact .excused h hFails
  | mistake hFile hLine => exact .mistake hFile hLine

theorem Agree.ok_of_ok {a : α} {e₂ : Except Mistake β} (h : P.Agree R (.ok a) e₂) :
    ∃ b, e₂ = .ok b ∧ R a b := by
  cases h with
  | ok h => exact ⟨_, rfl, h⟩

theorem Agree.ok_of_endsLine {e₁ : Except Mistake α} {b : β} (hEnds : P.EndsLine)
    (h : P.Agree R e₁ (.ok b)) : ∃ a, e₁ = .ok a := by
  cases h with
  | ok h => exact ⟨_, rfl⟩
  | excused h hFails =>
    obtain ⟨m', hError⟩ := hFails hEnds
    cases hError

variable (P)

theorem agree_mistake (kind : Mistake.Kind) (start : Cursor) {stop stop' : Nat} (name : List Char)
    (hStop : stop' = stop + P.offset) :
    P.Agree R (.error (s₁.mistake kind start stop name))
      (.error (s₂.mistake kind (P.lift start) stop' name)) := by
  rcases P.stops with hNil | ⟨-, hExcused⟩
  · have hMoved : s₂.mistake kind (P.lift start) stop' name = P.moved (s₁.mistake kind start stop name) := by
      subst hStop
      simp [Setting.mistake, moved, lift, Position.moved, hNil, Nat.add_sub_add_right]
    rw [hMoved]
    exact .mistake rfl rfl
  · exact .excused (hExcused _) fun _ => ⟨_, rfl⟩

@[simp] theorem pos_lift (c : Cursor) : (P.lift c).pos = c.pos.moved P.offset P.lines := rfl

@[simp] theorem rest_lift (c : Cursor) : (P.lift c).rest = c.rest ++ P.tail := rfl

theorem advance_lift {c : Cursor} (h : c.rest ≠ []) : (P.lift c).advance = P.lift c.advance := by
  obtain ⟨pos, rest⟩ := c
  cases rest with
  | nil => exact absurd rfl h
  | cons x rest => simp [advance, lift]

/-- Only a line end tells the end of the first text from what follows in the second. -/
theorem at?_lift (c : Cursor) {x : Char} (hx : x ≠ '\n') : (P.lift c).at? x = c.at? x := by
  obtain ⟨pos, rest⟩ := c
  cases rest with
  | nil =>
    rcases P.stops with hNil | ⟨hHead, -⟩
    · simp [at?, lift, hNil]
    · simp [at?, lift, hHead, hx.symm]
  | cons y rest => rfl

theorem skip_lift {n : Nat} {c : Cursor} (h : n ≤ c.left) : (P.lift c).skip n = P.lift (c.skip n) := by
  induction n generalizing c with
  | zero => rfl
  | succ n ih =>
    obtain ⟨pos, rest⟩ := c
    cases rest with
    | nil => cases h
    | cons x rest =>
      have hAdvance : (P.lift ⟨pos, x :: rest⟩).advance = P.lift (advance ⟨pos, x :: rest⟩) :=
        P.advance_lift (by simp)
      rw [skip, hAdvance]
      exact ih (Nat.le_of_succ_le_succ h)

end Pairing

theorem takeWhile_append_stop {p : Char → Bool} {l tail : List Char}
    (h : l.dropWhile p ≠ [] ∨ ∀ x ∈ tail.head?, p x = false) :
    (l ++ tail).takeWhile p = l.takeWhile p ∧ (l ++ tail).dropWhile p = l.dropWhile p ++ tail := by
  induction l with
  | nil =>
    cases tail with
    | nil => exact ⟨rfl, rfl⟩
    | cons x tail =>
      have hx : p x = false := by simpa using h
      simp [hx]
  | cons y l ih =>
    by_cases hy : p y = true
    · simp only [List.dropWhile_cons_of_pos hy] at h
      simpa [hy] using ih h
    · simp [hy]

namespace Pairing

variable {s₁ s₂ : Setting} (P : Pairing s₁ s₂)

theorem span_lift {p : Char → Bool} {c : Cursor}
    (h : (c.span p).2.rest ≠ [] ∨ ∀ x ∈ P.tail.head?, p x = false) :
    (P.lift c).span p = ((c.span p).1, P.lift (c.span p).2) := by
  obtain ⟨hTake, hDrop⟩ := takeWhile_append_stop h
  simp only [span, rest_lift, pos_lift, hTake, hDrop, Position.foldl_next_moved]
  rfl

theorem skipWhile_lift {p : Char → Bool} {c : Cursor}
    (h : (c.skipWhile p).rest ≠ [] ∨ ∀ x ∈ P.tail.head?, p x = false) :
    (P.lift c).skipWhile p = P.lift (c.skipWhile p) := congrArg Prod.snd (P.span_lift h)

theorem skipWhile_lift_nil {p : Char → Bool} {c : Cursor} (hEnds : P.EndsLine) (hp : p '\n' = true)
    (h : (c.skipWhile p).rest = []) : ((P.lift c).skipWhile p).rest = [] := by
  have hDrop : c.rest.dropWhile p = [] := h
  show (c.rest ++ P.tail).dropWhile p = []
  rw [hEnds.1, List.dropWhile_append, hDrop]
  simp [hp]

theorem stops_head {p : Char → Bool} (hp : p '\n' = false) : ∀ x ∈ P.tail.head?, p x = false := by
  intro x hx
  rcases P.stops with hNil | ⟨hHead, -⟩
  · simp [hNil] at hx
  · rw [hHead] at hx
    cases hx
    exact hp

theorem name_lift (c : Cursor) : (P.lift c).name = (c.name.1, P.lift c.name.2) := by
  obtain ⟨pos, rest⟩ := c
  cases rest with
  | nil =>
    cases hTail : P.tail with
    | nil => simp [name, lift, hTail]
    | cons y tail =>
      have hy : isNameStart y = false := P.stops_head (p := isNameStart) (by decide) y (by simp [hTail])
      simp [name, lift, hTail, hy]
  | cons x rest =>
    by_cases hx : isNameStart x = true
    · have hSpan := P.span_lift (p := isNameChar) (c := ⟨pos, x :: rest⟩) (.inr (P.stops_head (by decide)))
      simpa [name, hx] using hSpan
    · simp [name, hx]

end Pairing

end Pipework
