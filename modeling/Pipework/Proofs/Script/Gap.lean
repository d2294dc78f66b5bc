import Mathlib.Data.List.Induction
import Pipework.Proofs.Script.Reach

/-!
# White space and comments

What stands between two parts of a script is told by the text alone: which slashes begin a comment, and
where the next character stands that counts. Moving past a gap gets to that character, whatever was
passed before.
-/

namespace Pipework

open Cursor

/-- A comment begins at `i`, since a blank or the end follows its slashes, or little comes before them on
their line. -/
structure CommentAt (text : List Char) (i : Nat) : Prop where
  slashes : ['/', '/'] <+: text.drop i
  apart : (∀ x ∈ text[i + 2]?, x.toNat = 0 ∨ isBlank x = true) ∨
    ∀ x ∈ (text.take i).reverse.takeWhile (· ≠ '\n'), x = ' ' ∨ x = '\t' ∨ x = '\r'

/-- From `i` up to `j` the text has white space and comments, each up to the end of its line. -/
inductive GapTo (text : List Char) : Nat → Nat → Prop
  | nil (i : Nat) : GapTo text i i
  | blank {i j : Nat} (h : ∃ x ∈ text[i]?, isBlank x = true) (hMore : GapTo text (i + 1) j) : GapTo text i j
  | comment {i j : Nat} (h : CommentAt text i)
    (hMore : GapTo text (i + ((text.drop i).takeWhile (· ≠ '\n')).length) j) : GapTo text i j

/-- The first character from `i` on that is neither white space nor in a comment stands at `j`. -/
structure FirstFrom (text : List Char) (i j : Nat) : Prop where
  gap : GapTo text i j
  solid : ∃ x ∈ text[j]?, isBlank x = false
  other : ¬CommentAt text j

theorem GapTo.trans {text : List Char} {i j k : Nat} (h : GapTo text i j) (hMore : GapTo text j k) :
    GapTo text i k := by
  induction h with
  | nil => exact hMore
  | blank h _ ih => exact .blank h (ih hMore)
  | comment h _ ih => exact .comment h (ih hMore)

theorem CommentAt.not_blank {text : List Char} {i : Nat} (h : CommentAt text i) :
    ¬∃ x ∈ text[i]?, isBlank x = true := by
  rintro ⟨x, hx, hBlank⟩
  obtain ⟨rest, hRest⟩ := h.slashes
  rw [← List.head?_drop, ← hRest] at hx
  cases hx
  cases hBlank

theorem FirstFrom.unique {text : List Char} {i j k : Nat} (h : FirstFrom text i j) (h' : FirstFrom text i k) :
    j = k := by
  have hSolid : ∀ {j}, FirstFrom text j j → ¬∃ x ∈ text[j]?, isBlank x = true := by
    rintro j ⟨-, ⟨x, hx, hNot⟩, -⟩ ⟨y, hy, hBlank⟩
    obtain rfl : x = y := Option.some.inj (hx.symm.trans hy)
    rw [hNot] at hBlank
    cases hBlank
  obtain ⟨hGap, hChar, hOther⟩ := h
  induction hGap with
  | nil i =>
    cases h'.gap with
    | nil => rfl
    | blank hBlank _ => exact absurd hBlank (hSolid ⟨.nil i, hChar, hOther⟩)
    | comment hComment _ => exact absurd hComment hOther
  | blank hBlank _ ih =>
    cases h'.gap with
    | nil => exact absurd hBlank (hSolid h')
    | blank _ hMore => exact ih ⟨hMore, h'.solid, h'.other⟩ hChar hOther
    | comment hComment _ => exact absurd hBlank hComment.not_blank
  | comment hComment _ ih =>
    cases h'.gap with
    | nil => exact absurd hComment h'.other
    | blank hBlank _ => exact absurd hBlank hComment.not_blank
    | comment _ hMore => exact ih ⟨hMore, h'.solid, h'.other⟩ hChar hOther

theorem Position.foldl_next_fresh (text : List Char) :
    (text.foldl Position.next .start).fresh =
      (text.reverse.takeWhile (· ≠ '\n')).all fun x => x == ' ' || x == '\t' || x == '\r' := by
  induction text using List.reverseRecOn with
  | nil => rfl
  | append_singleton text x ih =>
    rw [List.foldl_append, List.foldl_cons, List.foldl_nil, List.reverse_append, List.reverse_singleton,
      List.singleton_append]
    by_cases hx : x = '\n'
    · simp [next, hx]
    · rw [List.takeWhile_cons_of_pos (by simpa using hx), List.all_cons, ← ih, next, if_neg hx]
      exact Bool.and_comm _ _

namespace Cursor

/-- What is left past a gap begins neither with a blank nor with a comment. -/
theorem exists_skipGap_eq (c : Cursor) : ∃ d : Cursor, c.skipGap = d.skipBlanks ∧ d.skipBlanks.atComment = false := by
  fun_induction skipGap c with
  | case1 c c' hComment ih => exact ih
  | case2 c c' hComment => exact ⟨c, rfl, by simpa using hComment⟩

theorem skipGap_skipGap (c : Cursor) : c.skipGap.skipGap = c.skipGap := by
  obtain ⟨d, hGap, hComment⟩ := c.exists_skipGap_eq
  have hBlanks : d.skipBlanks.skipBlanks = d.skipBlanks := skipWhile_skipWhile _ _
  rw [hGap, skipGap_of_other (hBlanks.symm ▸ hComment), hBlanks]

theorem atComment_iff {c : Cursor} : c.atComment = true ↔ ∃ rest, c.rest = '/' :: '/' :: rest ∧
    ((∀ x ∈ rest.head?, x.toNat = 0 ∨ isBlank x = true) ∨ c.pos.fresh = true) := by
  constructor
  · intro h
    unfold atComment at h
    split at h
    · next rest hRest =>
      refine ⟨rest, hRest, ?_⟩
      cases rest with
      | nil => exact .inl (by rintro _ ⟨⟩)
      | cons x rest => simpa using h
    · cases h
  · rintro ⟨rest, hRest, h⟩
    cases rest with
    | nil => simp [atComment, hRest]
    | cons x rest => simpa [atComment, hRest] using h

namespace On

variable {text : List Char} {c : Cursor} (h : c.On text)

include h

theorem getElem?_eq : text[c.pos.offset]? = c.rest.head? := by
  rw [h.rest_eq, List.head?_drop]

theorem atComment_iff : c.atComment = true ↔ CommentAt text c.pos.offset := by
  have hFresh : c.pos.fresh = true ↔ ∀ x ∈ (text.take c.pos.offset).reverse.takeWhile (· ≠ '\n'),
      x = ' ' ∨ x = '\t' ∨ x = '\r' := by
    rw [h.pos_eq, Position.foldl_next_fresh, ← h.pos_eq, List.all_eq_true]
    simp only [Bool.or_eq_true, beq_iff_eq, or_assoc]
  have hNext : ∀ rest, c.rest = '/' :: '/' :: rest → text[c.pos.offset + 2]? = rest.head? := by
    intro rest hRest
    rw [← List.getElem?_drop, ← h.rest_eq, hRest, List.head?_eq_getElem?]
    rfl
  rw [Cursor.atComment_iff, hFresh]
  constructor
  · rintro ⟨rest, hRest, hApart⟩
    refine ⟨?_, ?_⟩
    · rw [← h.rest_eq, hRest]
      exact ⟨rest, rfl⟩
    · rwa [hNext rest hRest]
  · rintro ⟨⟨rest, hSlashes⟩, hApart⟩
    have hRest : c.rest = '/' :: '/' :: rest := by rw [h.rest_eq, ← hSlashes]; rfl
    exact ⟨rest, hRest, hNext rest hRest ▸ hApart⟩

theorem gap_skipBlanks : GapTo text c.pos.offset c.skipBlanks.pos.offset := by
  obtain ⟨rest, hRest⟩ : ∃ rest, c.rest = rest := ⟨c.rest, rfl⟩
  induction rest generalizing c with
  | nil =>
    rw [skipBlanks, skipWhile_nil hRest]
    exact .nil _
  | cons x rest ih =>
    cases hx : isBlank x with
    | false =>
      rw [skipBlanks, skipWhile_of_neg hRest hx]
      exact .nil _
    | true =>
      have hAdvance := advance_cons hRest
      have hMore := ih (h.reach (reaches_advance_cons hRest)) (by rw [hAdvance])
      rw [skipBlanks, skipWhile_of_pos hRest hx]
      refine .blank ⟨x, by rw [h.getElem?_eq, hRest]; rfl, hx⟩ ?_
      rwa [hAdvance, Position.offset_next, ← hAdvance] at hMore

theorem gap_skipComment (hComment : c.atComment = true) :
    GapTo text c.pos.offset c.skipComment.pos.offset := by
  refine .comment (h.atComment_iff.mp hComment) ?_
  rw [← h.rest_eq, skipComment, skipWhile, span, Position.foldl_next_offset]
  exact .nil _

theorem gap_skipGap : GapTo text c.pos.offset c.skipGap.pos.offset := by
  fun_induction skipGap c with
  | case1 c c' hComment ih =>
    have hBlanks : c'.On text := h.reach (reaches_skipWhile _ c)
    exact h.gap_skipBlanks.trans
      ((hBlanks.gap_skipComment hComment).trans (ih (hBlanks.reach (reaches_skipWhile _ c'))))
  | case2 c c' hComment => exact h.gap_skipBlanks

theorem firstFrom (hne : c.skipGap.rest ≠ []) : FirstFrom text c.pos.offset c.skipGap.pos.offset := by
  have hGap : c.skipGap.On text := h.reach (reaches_skipGap c)
  obtain ⟨d, hSame, hComment⟩ := c.exists_skipGap_eq
  obtain ⟨x, rest, hRest⟩ := List.exists_cons_of_ne_nil hne
  refine ⟨h.gap_skipGap, ⟨x, ?_, ?_⟩, ?_⟩
  · rw [hGap.getElem?_eq, hRest]
    rfl
  · rw [hSame] at hRest
    exact Setting.head_skipBlanks hRest
  · rw [← hGap.atComment_iff, hSame, hComment]
    exact Bool.false_ne_true

end On

end Cursor

end Pipework
