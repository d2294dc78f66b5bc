import Mathlib.Logic.Relation
import Pipework.Proofs.Script.Located

/-!
# The rounds of reading

Reading goes round loops, one within the other: over statements, alternatives, the commands of a
pipeline, the parts of a command, the parts of a word, the characters of a literal, the comments of a
gap, and the characters of a kind. A round of a loop leaves the loop, fails, or goes on with a next
round. Here this is said apart from the functions that read, and shown to be what they do: a loop ends
as its rounds do, one after the other.
-/

namespace Pipework

open Cursor Setting

/-- A loop of the reading before one of its rounds, with where the cursor stands. A `span` is over characters
of a kind, and a `gap` over comments. -/
inductive Loop where
  | span (p : Char → Bool) (c : Cursor)
  | gap (c : Cursor)
  | raw (start : Cursor) (fence : Nat) (c : Cursor)
  | quoted (start c : Cursor)
  | word (rawOk : Bool) (c : Cursor)
  | command (first : Bool) (d : Draft) (c : Cursor)
  | pipeline (p : Pipeline) (c : Cursor)
  | alternatives (alts : List Pipeline) (c : Cursor)
  | statements (c : Cursor)

inductive Loop.Round where
  | leaves (c : Cursor)
  | fails (m : Mistake)
  | again (l : Loop)

def Cursor.toEnd (c : Cursor) : Cursor := ⟨c.rest.foldl Position.next c.pos, []⟩

def Loop.Round.after {α : Type} (e : Except Mistake α) (next : α → Round) : Round :=
  match e with
  | .error m => .fails m
  | .ok a => next a

namespace Loop

def cursor : Loop → Cursor
  | span _ c | gap c | raw _ _ c | quoted _ c | word _ c => c
  | command _ _ c | pipeline _ c | alternatives _ c | statements c => c

/-- How many loops can be within one of this kind. -/
def rank : Loop → Nat
  | span .. => 0
  | gap _ | raw .. | quoted .. => 1
  | word .. => 2
  | command .. => 3
  | pipeline .. => 4
  | alternatives .. => 5
  | statements _ => 6

/-- Where the reading of the loop and all its further rounds leaves off. -/
def ending (s : Setting) : Loop → Except Mistake Cursor
  | span p c => .ok (c.skipWhile p)
  | gap c => .ok c.skipGap
  | raw start fence c =>
    match c.rawText fence with
    | some (_, c') => .ok c'
    | none => .error (s.mistake .unterminatedLiteral start (start.pos.offset + start.left) [])
  | quoted start c => (s.quotedText start c).map Prod.snd
  | word rawOk c => (s.wordFrom rawOk c).map Prod.snd
  | command first d c => (s.commandFrom first d c).map Prod.snd
  | pipeline p c => (s.pipelineFrom p c).map Prod.snd
  | alternatives alts c => (s.alternativesFrom alts c).map Prod.snd
  | statements c => (s.statements c).map fun _ => c.toEnd

def round (s : Setting) : Loop → Round
  | span p c =>
    match c.rest with
    | [] => .leaves c
    | x :: _ => if p x then .again (span p c.advance) else .leaves c
  | gap c =>
    if c.skipBlanks.atComment then .again (gap c.skipBlanks.skipComment) else .leaves c.skipBlanks
  | raw start fence c =>
    match c.rest with
    | [] => .fails (s.mistake .unterminatedLiteral start (start.pos.offset + start.left) [])
    | x :: rest =>
      if x == '"' && (rest.take fence).length == fence && (rest.take fence).all (· == '#') then
        .leaves (c.skip (1 + fence))
      else .again (raw start fence c.advance)
  | quoted start c =>
    match c.rest with
    | [] => .fails (s.mistake .unterminatedLiteral start c.pos.offset [])
    | x :: rest =>
      if x == '"' then .leaves c.advance
      else if x == '\\' && (rest.head? == some '$' || rest.head? == some '"') then
        .again (quoted start (c.skip 2))
      else if x == '$' then .after (s.dollar c) fun (_, c') => .again (quoted start c')
      else .again (quoted start c.advance)
  | word rawOk c =>
    match c.rest with
    | [] => .leaves c
    | x :: _ =>
      if isBlank x || isOperator x then .leaves c
      else .after (s.piece rawOk x c) fun (p, c') => .again (word p.rawNext c')
  | command first d c =>
    if endsCommand c.skipBlanks then .leaves c.skipBlanks
    else .after (s.commandPart first d c.skipBlanks) fun (d', c') => .again (command first d' c')
  | pipeline p c =>
    .after (s.command (p.commands == []) c) fun (found, c') =>
      if c'.at? '|' && !c'.advance.at? '|' then .again (pipeline (extended p found) c'.advance)
      else .leaves c'
  | alternatives alts c =>
    .after (s.pipeline c) fun (found, c') =>
      if atFallback c' then
        if alts ++ found.toList == [] then
          .fails (s.mistake .unexpectedToken c' (c'.pos.offset + 2) [])
        else .again (alternatives (alts ++ found.toList) (c'.skip 2))
      else .leaves c'
  | statements c =>
    if c.skipGap.rest = [] then .leaves c.skipGap
    else .after (s.statement c.skipGap) fun (_, c') => .again (statements c')

/-- Where the loop ends if it does so within `n` rounds. -/
def within (s : Setting) : Nat → Loop → Option (Except Mistake Cursor)
  | 0, _ => none
  | n + 1, l =>
    match l.round s with
    | .leaves c => some (.ok c)
    | .fails m => some (.error m)
    | .again l' => within s n l'

variable {s : Setting} {l l' : Loop} {c : Cursor}

def Round.ending (s : Setting) : Round → Except Mistake Cursor
  | leaves c => .ok c
  | fails m => .error m
  | again l => l.ending s

theorem Round.ending_after {α : Type} (e : Except Mistake α) (next : α → Round) :
    (after e next).ending s = e.bind fun a => (next a).ending s := by
  cases e <;> rfl

theorem toEnd_of_reaches {c c' : Cursor} (h : c.Reaches c') : c.toEnd = c'.toEnd := by
  obtain ⟨taken, hRest, hPos⟩ := h
  rw [toEnd, toEnd, hRest, hPos, List.foldl_append]

theorem toEnd_of_nil {c : Cursor} (h : c.rest = []) : c.toEnd = c := by
  obtain ⟨pos, rest⟩ := c
  cases h
  rfl

theorem map_bind {α β γ : Type} (e : Except Mistake α) (f : α → Except Mistake β) (g : β → γ) :
    (e.bind f).map g = e.bind fun a => (f a).map g := by
  cases e <;> rfl

theorem map_map {α β γ : Type} (e : Except Mistake α) (f : α → β) (g : β → γ) :
    (e.map f).map g = e.map (g ∘ f) := by
  cases e <;> rfl

theorem ending_eq (s : Setting) (l : Loop) : l.ending s = (l.round s).ending s := by
  cases l with
  | span p c =>
    cases hRest : c.rest with
    | nil => simp only [ending, round, hRest, skipWhile_nil hRest, Round.ending]
    | cons x rest =>
      simp only [round, hRest]
      split
      · next hx => exact congrArg _ (skipWhile_of_pos hRest hx)
      · next hx => exact congrArg _ (skipWhile_of_neg hRest (by simpa using hx))
  | gap c =>
    rw [round]
    split
    · next h => exact congrArg _ (skipGap_of_comment h)
    · next h => exact congrArg _ (skipGap_of_other (by simpa using h))
  | raw start fence c =>
    cases hRest : c.rest with
    | nil => simp only [ending, round, rawText_nil hRest, hRest, Round.ending]
    | cons x rest =>
      have hMore : (raw start fence c.advance).ending s = match c.advance.rawText fence with
          | some (_, c') => .ok c'
          | none => .error (s.mistake .unterminatedLiteral start (start.pos.offset + start.left) []) := rfl
      rw [ending, rawText_cons hRest, round, hRest]
      dsimp only
      by_cases hClose :
          (x == '"' && (rest.take fence).length == fence && (rest.take fence).all (· == '#')) = true
      · rw [if_pos hClose, if_pos hClose]
        rfl
      · rw [if_neg hClose, if_neg hClose, Round.ending, hMore]
        cases c.advance.rawText fence <;> rfl
  | quoted start c =>
    cases hRest : c.rest with
    | nil => simp only [ending, round, quotedText_nil hRest, hRest, Round.ending, Except.map]
    | cons x rest =>
      simp only [ending, round, quotedText_cons hRest, hRest]
      split
      · rfl
      · split
        · rw [map_map]
          rfl
        · split
          · rw [map_bind, Round.ending_after]
            congr 1
            funext found
            rw [map_map]
            rfl
          · rw [map_map]
            rfl
  | word rawOk c =>
    cases hRest : c.rest with
    | nil => simp only [ending, round, wordFrom_nil hRest, hRest, Round.ending, Except.map]
    | cons x rest =>
      simp only [ending, round, wordFrom_cons hRest, hRest]
      split
      · rfl
      · rw [map_bind, Round.ending_after]
        congr 1
        funext found
        rw [map_map]
        rfl
  | command first d c =>
    rw [ending, commandFrom_eq, round]
    split
    · rfl
    · rw [map_bind, Round.ending_after]
      rfl
  | pipeline p c =>
    rw [ending, pipelineFrom_eq, round, map_bind, Round.ending_after]
    congr 1
    funext found
    dsimp only
    split <;> rfl
  | alternatives alts c =>
    rw [ending, alternativesFrom_eq, round, map_bind, Round.ending_after]
    congr 1
    funext found
    dsimp only
    split
    · split <;> rfl
    · rfl
  | statements c =>
    -- Statements leave off at the end of the text, wherever in it they begin.
    have hGap := toEnd_of_reaches (reaches_skipGap c)
    rw [ending, statements_eq, round]
    split
    · next hEnd =>
      rw [hGap, toEnd_of_nil hEnd]
      rfl
    · rw [map_bind, Round.ending_after]
      cases hOk : s.statement c.skipGap with
      | error m => rfl
      | ok found =>
        dsimp only [Except.bind, Round.ending, ending]
        rw [map_map, hGap, toEnd_of_reaches (reaches_statement hOk)]
        rfl

end Loop

end Pipework
