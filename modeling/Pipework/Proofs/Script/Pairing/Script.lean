import Pipework.Proofs.Script.Pairing.Command
import Pipework.Proofs.Script.Reach

/-!
# Paired scripts

The loops over commands, pipelines, alternatives and statements go round as often in both readings.
At the end of the first text the second reading sees a semicolon, or its own end, and so ends the
same parts. With nothing after the first text, the whole scripts agree; else the second script goes on
with what is read after the semicolon.
-/

namespace Pipework

open Cursor Setting

namespace Pairing

variable {s₁ s₂ : Setting} (P : Pairing s₁ s₂)

/-- Past the blanks, the first reading may be at its end and the second then is past the blanks at
the start of its tail. -/
structure Stands (c e : Cursor) : Prop where
  within : c.rest ≠ [] → e = P.lift c
  ended : c.rest = [] → e = (P.lift c).skipBlanks

/-- Where a part of a script begins, the blanks before it may be passed or not. -/
def Meets (c e : Cursor) : Prop := e = P.lift c ∨ P.Stands c e

/-- What follows the first text closes the statement that the text leaves open. -/
def Closes : Prop := P.tail = [] ∨ ∃ more, P.tail = '\n' :: ';' :: more

theorem skipBlanks_lift_skipBlanks (c : Cursor) :
    (P.lift c.skipBlanks).skipBlanks = (P.lift c).skipBlanks := by
  obtain ⟨pos, rest⟩ := c
  induction rest generalizing pos with
  | nil => rfl
  | cons x rest ih =>
    by_cases hx : isBlank x = true
    · have hFirst : skipBlanks ⟨pos, x :: rest⟩ = skipBlanks ⟨pos.next x, rest⟩ := skipWhile_of_pos rfl hx
      have hSecond : (P.lift ⟨pos, x :: rest⟩).skipBlanks = (P.lift ⟨pos.next x, rest⟩).skipBlanks := by
        rw [skipBlanks, skipWhile_of_pos (P.rest_lift_cons rfl) hx, P.advance_lift (by simp)]
        rfl
      rw [hFirst, hSecond, ih]
    · have hFirst : skipBlanks ⟨pos, x :: rest⟩ = ⟨pos, x :: rest⟩ :=
        skipWhile_of_neg rfl (by simpa using hx)
      rw [hFirst]

theorem stands_skipBlanks {c e : Cursor} (h : P.Meets c e) : P.Stands c.skipBlanks e.skipBlanks := by
  have hLift : P.Stands c.skipBlanks (P.lift c).skipBlanks :=
    ⟨fun hne => P.skipBlanks_lift (.inl hne), fun _ => (P.skipBlanks_lift_skipBlanks c).symm⟩
  rcases h with rfl | h
  · exact hLift
  · by_cases hNil : c.rest = []
    · rw [h.ended hNil, skipBlanks, skipBlanks, skipBlanks, skipWhile_skipWhile]
      exact hLift
    · rw [h.within hNil]
      exact hLift

theorem endsCommand_lift {c : Cursor} (h : c.rest ≠ [] ∨ P.tail = []) :
    endsCommand (P.lift c) = endsCommand c := by
  have hRest : ((P.lift c).rest == []) = (c.rest == []) := by
    rcases h with hne | hTail
    · cases hRest : c.rest with
      | nil => exact absurd hRest hne
      | cons x rest => simp [hRest]
    · simp [hTail]
  simp only [endsCommand, hRest, P.at?_lift c (by decide : '|' ≠ '\n'), P.at?_lift c (by decide : ';' ≠ '\n')]

theorem bars_lift (f : Bool → Bool) (c : Cursor) :
    ((P.lift c).at? '|' && f ((P.lift c).advance.at? '|')) = (c.at? '|' && f (c.advance.at? '|')) := by
  rw [P.at?_lift c (by decide)]
  cases hBar : c.at? '|' with
  | false => rfl
  | true => rw [P.advance_lift (rest_ne_nil_of_at hBar), P.at?_lift _ (by decide)]

variable {P} (hCloses : P.Closes)

include hCloses

/-- Either both readings see the same, or the first is at its end and the second at a semicolon. -/
theorem Stands.cases {c e : Cursor} (h : P.Stands c e) :
    (c.rest ≠ [] ∨ P.tail = []) ∧ e = P.lift c ∨ c.rest = [] ∧ P.tail ≠ [] ∧ e.at? ';' = true := by
  by_cases hNil : c.rest = []
  · have hEnd := h.ended hNil
    rcases hCloses with hTail | ⟨more, hTail⟩
    · rw [skipBlanks, skipWhile_nil (by simp [hNil, hTail])] at hEnd
      exact .inl ⟨.inr hTail, hEnd⟩
    · have hRest : (P.lift c).rest = '\n' :: ';' :: more := by simp [hNil, hTail]
      have hNext : (P.lift c).advance.rest = ';' :: more := by
        unfold advance
        rw [hRest]
      rw [skipBlanks, skipWhile_of_pos hRest (by decide), skipWhile_of_neg hNext (by decide)] at hEnd
      refine .inr ⟨hNil, by simp [hTail], ?_⟩
      simp [hEnd, at?, hNext]
  · exact .inl ⟨.inl hNil, h.within hNil⟩

theorem Stands.endsCommand {c e : Cursor} (h : P.Stands c e) : endsCommand e = endsCommand c := by
  rcases h.cases hCloses with ⟨hSame, rfl⟩ | ⟨hNil, -, hSemicolon⟩
  · exact P.endsCommand_lift hSame
  · simp [Setting.endsCommand, hNil, hSemicolon]

theorem Stands.at_bar {c e : Cursor} (h : P.Stands c e) : e.at? '|' = c.at? '|' := by
  rcases h.cases hCloses with ⟨-, rfl⟩ | ⟨hNil, -, hSemicolon⟩
  · exact P.at?_lift c (by decide)
  · obtain ⟨rest, hRest⟩ := exists_cons_of_at hSemicolon
    simp [at?, hNil, hRest]

theorem Stands.atComment {c e : Cursor} (h : P.Stands c e) : e.atComment = c.atComment := by
  rcases h.cases hCloses with ⟨-, rfl⟩ | ⟨hNil, -, hSemicolon⟩
  · exact P.atComment_lift c
  · rw [atComment_of_semicolon hSemicolon, Cursor.atComment, hNil]

theorem stands_skipGap {c e : Cursor} (h : P.Meets c e) : P.Stands c.skipGap e.skipGap := by
  have hStands := P.stands_skipBlanks h
  have hSame := hStands.atComment hCloses
  cases hComment : c.skipBlanks.atComment with
  | true =>
    have hne : c.skipBlanks.rest ≠ [] := by
      intro hNil
      simp [Cursor.atComment, hNil] at hComment
    have hLess := left_comment_lt hComment
    rw [skipGap_of_comment hComment, skipGap_of_comment (hSame.trans hComment), hStands.within hne,
      P.skipComment_lift]
    exact stands_skipGap (.inl rfl)
  | false =>
    rw [skipGap_of_other hComment, skipGap_of_other (hSame.trans hComment)]
    exact hStands
termination_by c.left

omit hCloses

theorem Stands.eq_lift {c e : Cursor} (h : P.Stands c e) (hTail : P.tail = []) : e = P.lift c := by
  by_cases hNil : c.rest = []
  · rw [h.ended hNil, skipBlanks, skipWhile_nil (by simp [hNil, hTail])]
  · exact h.within hNil

theorem Meets.eq_lift {c e : Cursor} (h : P.Meets c e) (hTail : P.tail = []) : e = P.lift c :=
  h.elim id (Stands.eq_lift · hTail)

include hCloses

theorem commandFrom_agree (first : Bool) {d₁ d₂ : Draft} (hd : d₁.Alike P.Similar d₂) {c e : Cursor}
    (h : P.Meets c e) :
    P.Agree (fun a b => a.1.Alike P.Similar b.1 ∧ P.Stands a.2 b.2)
      (s₁.commandFrom first d₁ c) (s₂.commandFrom first d₂ e) := by
  have hStands := P.stands_skipBlanks h
  rw [commandFrom_eq, commandFrom_eq, hStands.endsCommand hCloses]
  split
  · exact .ok ⟨hd, hStands⟩
  · next hEnd =>
    have hne : c.skipBlanks.rest ≠ [] := by
      intro hNil
      simp [Setting.endsCommand, hNil] at hEnd
    rw [hStands.within hne]
    refine (P.commandPart_agree first hd c.skipBlanks).bind ?_
    rintro ⟨d₁', c₁⟩ ⟨d₂', c₂⟩ hOk ⟨hDraft, rfl⟩
    have hLess := left_part_lt hEnd hOk
    exact commandFrom_agree first hDraft (.inl rfl)
termination_by c.left

theorem command_agree (first : Bool) {c e : Cursor} (h : P.Meets c e) :
    P.Agree (fun a b => Option.Rel (fun x y => x.1.Alike P.Similar y.1 ∧ x.2 = y.2) a.1 b.1 ∧
      P.Stands a.2 b.2) (s₁.command first c) (s₂.command first e) := by
  rw [command_eq, command_eq]
  have hEmpty : Draft.empty.Alike P.Similar Draft.empty := ⟨⟨.nil, .nil, .nil⟩, rfl⟩
  refine (commandFrom_agree hCloses first hEmpty h).bind ?_
  rintro ⟨d₁, c₁⟩ ⟨d₂, c₂⟩ - ⟨hDraft, hStands⟩
  dsimp only at hDraft hStands ⊢
  have hStarted : d₁.isStarted = d₂.isStarted := by
    unfold Draft.isStarted
    rw [hDraft.ignore, bne, bne, forall₂_beq_nil hDraft.command.env, bne, bne,
      forall₂_beq_nil hDraft.command.redirections]
  rw [bne, bne, forall₂_beq_nil hDraft.command.args, hStarted]
  split
  · exact .ok ⟨.some ⟨hDraft.command, hDraft.ignore⟩, hStands⟩
  · split
    · rcases P.stops with hTail | ⟨-, hExcused⟩
      · rw [h.eq_lift hTail, hStands.eq_lift hTail]
        exact P.agree_mistake _ _ _ rfl
      · exact .excused (hExcused _) fun _ => ⟨_, rfl⟩
    · exact .ok ⟨.none, hStands⟩

omit hCloses

variable (P)

structure PipelineAlike (p₁ p₂ : Pipeline) : Prop where
  commands : List.Forall₂ (Command.Alike P.Similar) p₁.commands p₂.commands
  ignore : p₁.ignore = p₂.ignore
  place : ∃ pos, (p₁.file = s₁.file ∧ p₁.line = s₁.lineOf pos) ∧
    p₂.file = s₂.file ∧ p₂.line = s₂.lineOf (pos.moved P.offset P.lines)

variable {P}

theorem extended_alike {p₁ p₂ : Pipeline} {found₁ found₂ : Option (Command × Bool)}
    (hp : P.PipelineAlike p₁ p₂)
    (h : Option.Rel (fun x y => x.1.Alike P.Similar y.1 ∧ x.2 = y.2) found₁ found₂) :
    P.PipelineAlike (extended p₁ found₁) (extended p₂ found₂) := by
  cases h with
  | none => exact hp
  | some h =>
    refine ⟨List.rel_append hp.commands (.cons h.1 .nil), ?_, hp.place⟩
    dsimp only [extended]
    rw [hp.ignore, h.2]

include hCloses

theorem pipelineFrom_agree {p₁ p₂ : Pipeline} (hp : P.PipelineAlike p₁ p₂) {c e : Cursor}
    (h : P.Meets c e) :
    P.Agree (fun a b => P.PipelineAlike a.1 b.1 ∧ P.Stands a.2 b.2)
      (s₁.pipelineFrom p₁ c) (s₂.pipelineFrom p₂ e) := by
  rw [pipelineFrom_eq, pipelineFrom_eq, forall₂_beq_nil hp.commands]
  refine (command_agree hCloses _ h).bind ?_
  rintro ⟨found₁, c₁⟩ ⟨found₂, c₂⟩ hOk ⟨hFound, hStands⟩
  have hExtended := extended_alike hp hFound
  dsimp only at hStands ⊢
  rw [hStands.at_bar hCloses]
  cases hBar : c₁.at? '|' with
  | false => exact .ok ⟨hExtended, hStands⟩
  | true =>
    have hne := rest_ne_nil_of_at hBar
    rw [hStands.within hne, P.advance_lift hne, P.at?_lift _ (by decide)]
    split
    · next hSingle =>
      have hLess := left_bar_lt hOk (by rw [hBar]; exact hSingle)
      exact pipelineFrom_agree hExtended (.inl rfl)
    · exact .ok ⟨hExtended, hStands.within hne ▸ hStands⟩
termination_by c.left

theorem pipeline_agree {c e : Cursor} (h : P.Meets c e) :
    P.Agree (fun a b => Option.Rel P.PipelineAlike a.1 b.1 ∧ P.Stands a.2 b.2)
      (s₁.pipeline c) (s₂.pipeline e) := by
  have hStands := stands_skipGap hCloses h
  rw [pipeline_eq, pipeline_eq]
  rcases hStands.cases hCloses with ⟨-, hLift⟩ | ⟨hNil, -, hSemicolon⟩
  · have hStart : P.PipelineAlike ⟨[], false, s₁.file, s₁.lineOf c.skipGap.pos⟩
        ⟨[], false, s₂.file, s₂.lineOf e.skipGap.pos⟩ :=
      ⟨.nil, rfl, c.skipGap.pos, ⟨rfl, rfl⟩, rfl, by rw [hLift]; rfl⟩
    refine (pipelineFrom_agree hCloses hStart (.inl hLift)).map ?_
    rintro ⟨p₁, c₁⟩ ⟨p₂, c₂⟩ - ⟨hPipeline, hCursor⟩
    refine ⟨?_, hCursor⟩
    dsimp only
    rw [forall₂_beq_nil hPipeline.commands]
    split
    · exact .none
    · exact .some hPipeline
  · -- At the end the two readings see different lines, but neither finds a command there.
    rw [pipelineFrom_of_end _ (.inl hNil), pipelineFrom_of_end _ (.inr hSemicolon)]
    exact .ok ⟨.none, hStands⟩

theorem Stands.atFallback {c e : Cursor} (h : P.Stands c e) : atFallback e = atFallback c := by
  unfold Setting.atFallback
  rw [h.at_bar hCloses]
  cases hBar : c.at? '|' with
  | false => rfl
  | true =>
    have hne := rest_ne_nil_of_at hBar
    rw [h.within hne, P.advance_lift hne, P.at?_lift _ (by decide)]

omit hCloses

theorem left_of_atFallback {c : Cursor} (h : atFallback c = true) : 2 ≤ c.left := by
  obtain ⟨hFirst, hSecond⟩ := Bool.and_eq_true_iff.mp h
  have hLess := left_advance_lt (rest_ne_nil_of_at hFirst)
  have hPos := List.length_pos_iff.mpr (rest_ne_nil_of_at hSecond)
  simp only [left] at hLess ⊢
  omega

theorem forall₂_toList {α β : Type} {R : α → β → Prop} {a : Option α} {b : Option β} (h : Option.Rel R a b) :
    List.Forall₂ R a.toList b.toList := by
  cases h with
  | none => exact .nil
  | some h => exact .cons h .nil

include hCloses

theorem alternativesFrom_agree {alts₁ alts₂ : List Pipeline} (hAlts : List.Forall₂ P.PipelineAlike alts₁ alts₂)
    {c e : Cursor} (h : P.Meets c e) :
    P.Agree (fun a b => List.Forall₂ P.PipelineAlike a.1 b.1 ∧ P.Stands a.2 b.2)
      (s₁.alternativesFrom alts₁ c) (s₂.alternativesFrom alts₂ e) := by
  rw [alternativesFrom_eq, alternativesFrom_eq]
  refine (pipeline_agree hCloses h).bind ?_
  rintro ⟨found₁, c₁⟩ ⟨found₂, c₂⟩ hOk ⟨hFound, hStands⟩
  have hMore := List.rel_append hAlts (forall₂_toList hFound)
  dsimp only at hStands hMore ⊢
  rw [hStands.atFallback hCloses, forall₂_beq_nil hMore]
  split
  · next hBars =>
    have hLess := left_bars_lt hOk hBars
    rw [hStands.within (rest_ne_nil_of_at (Bool.and_eq_true_iff.mp hBars).1),
      P.skip_lift (left_of_atFallback hBars)]
    split
    · exact P.agree_mistake _ _ _ (by simp [Position.moved, Nat.add_right_comm])
    · exact alternativesFrom_agree hMore (.inl rfl)
  · exact .ok ⟨hMore, hStands⟩
termination_by c.left

omit hCloses

variable (P)

def StatementAlike (st₁ st₂ : Statement) : Prop :=
  List.Forall₂ P.PipelineAlike st₁.alternatives st₂.alternatives

/-- Past the statement, the second reading may have used up the semicolon after the first text. -/
def Follows (c e : Cursor) : Prop :=
  e = P.lift c ∨ c.rest = [] ∧ P.tail ≠ [] ∧ e = (P.lift c).skipBlanks.advance

variable {P}

theorem ofAlternatives?_alike {alts₁ alts₂ : List Pipeline} (h : List.Forall₂ P.PipelineAlike alts₁ alts₂) :
    Option.Rel P.StatementAlike (ofAlternatives? alts₁) (ofAlternatives? alts₂) := by
  cases h with
  | nil => exact .none
  | cons hFirst hRest => exact .some (.cons hFirst hRest)

include hCloses

theorem statement_agree {c e : Cursor} (h : P.Meets c e) :
    P.Agree (fun a b => Option.Rel P.StatementAlike a.1 b.1 ∧ P.Follows a.2 b.2)
      (s₁.statement c) (s₂.statement e) := by
  rw [statement_eq, statement_eq]
  refine (alternativesFrom_agree hCloses .nil h).map ?_
  rintro ⟨alts₁, c₁⟩ ⟨alts₂, c₂⟩ hOk ⟨hAlts, hStands⟩
  refine ⟨ofAlternatives?_alike hAlts, ?_⟩
  dsimp only at hStands ⊢
  rcases hStands.cases hCloses with ⟨-, rfl⟩ | ⟨hNil, hTail, hSemicolon⟩
  · rw [P.at?_lift _ (by decide)]
    split
    · next hSemicolon => exact .inl (P.advance_lift (rest_ne_nil_of_at hSemicolon))
    · exact .inl rfl
  · have hEnd : c₁.at? ';' = false := by simp [at?, hNil]
    rw [hEnd, if_pos hSemicolon, hStands.ended hNil]
    exact .inr ⟨hNil, hTail, rfl⟩

theorem statements_agree {c e : Cursor} (hTail : P.tail = []) (h : P.Meets c e) :
    P.Agree (List.Forall₂ P.StatementAlike) (s₁.statements c) (s₂.statements e) := by
  have hLift := (stands_skipGap hCloses h).eq_lift hTail
  rw [statements_eq, statements_eq, hLift, rest_lift, hTail, List.append_nil]
  split
  · exact .ok .nil
  · next hEnd =>
    refine (statement_agree hCloses (.inl rfl)).bind ?_
    rintro ⟨found₁, c₁⟩ ⟨found₂, c₂⟩ hOk ⟨hFound, hFollows⟩
    have hLess := left_statements_lt hEnd hOk
    have hMeets : P.Meets c₁ c₂ := hFollows.elim .inl fun hAfter => absurd hTail hAfter.2.1
    refine (statements_agree hTail hMeets).map ?_
    intro more₁ more₂ _ hMore
    exact List.rel_append (forall₂_toList hFound) hMore
termination_by c.left

omit hCloses

theorem statement_of_semicolon {s : Setting} {c : Cursor} (h : c.at? ';' = true) :
    s.statement c = .ok (none, c.advance) := by
  have hBlanks : c.skipBlanks = c := skipBlanks_of_end (.inr h)
  have hGap : c.skipGap = c :=
    (skipGap_of_other (hBlanks.symm ▸ atComment_of_semicolon h)).trans hBlanks
  have hBars : atFallback c = false := by simp [Setting.atFallback, at_bar_of_end (.inr h)]
  rw [statement_eq, alternativesFrom_eq, pipeline_eq, hGap, pipelineFrom_of_end _ (.inr h)]
  simp only [Except.map, Except.bind, hBars, Bool.false_eq_true, if_false, h, if_true]
  rfl

include hCloses

theorem statements_continue {c e : Cursor} (hTail : P.tail ≠ []) (h : P.Meets c e) {sts₁ : List Statement}
    (hOk : s₁.statements c = .ok sts₁) :
    ∃ stop sts₂, c.Reaches stop ∧ stop.rest = [] ∧ List.Forall₂ P.StatementAlike sts₁ sts₂ ∧
      s₂.statements e = (s₂.statements (P.lift stop).skipBlanks.advance).map (sts₂ ++ ·) := by
  have hStands := stands_skipGap hCloses h
  have hReach := reaches_skipGap c
  rw [statements_eq] at hOk
  rw [statements_eq s₂]
  rcases hStands.cases hCloses with ⟨hSame, hLift⟩ | ⟨hNil, -, hSemicolon⟩
  · have hne : c.skipGap.rest ≠ [] := hSame.resolve_right hTail
    rw [if_neg hne] at hOk
    rw [hLift, if_neg (by simp [hne])]
    obtain ⟨⟨found₁, c₁⟩, hFirst, hOk⟩ := bind_eq_ok hOk
    obtain ⟨more₁, hMore, rfl⟩ := map_eq_ok hOk
    have hReach₁ := hReach.trans (reaches_statement hFirst)
    have hAgree := statement_agree hCloses (c := c.skipGap) (.inl rfl)
    rw [hFirst] at hAgree
    generalize s₂.statement (P.lift c.skipGap) = second at hAgree ⊢
    cases hAgree with
    | @ok _ b hAlike =>
      obtain ⟨found₂, c₂⟩ := b
      obtain ⟨hFound, hLift₁ | ⟨hNil₁, -, hAfter⟩⟩ := hAlike
      · have hLess := left_statements_lt hne hFirst
        obtain ⟨stop, more₂, hStop, hEnd, hAlike, hRest⟩ := statements_continue hTail (.inl hLift₁) hMore
        refine ⟨stop, found₂.toList ++ more₂, hReach₁.trans hStop, hEnd,
          List.rel_append (forall₂_toList hFound) hAlike, ?_⟩
        dsimp only [Except.bind]
        rw [hRest]
        cases s₂.statements (P.lift stop).skipBlanks.advance <;> simp [Except.map]
      · -- The statement used up the semicolon, and nothing of the first text is left.
        dsimp only at hAfter hNil₁ hFound ⊢
        rw [statements_nil hNil₁] at hMore
        cases hMore
        refine ⟨c₁, found₂.toList, hReach₁, hNil₁, ?_, by rw [hAfter]; rfl⟩
        simpa using forall₂_toList hFound
  · rw [if_pos hNil] at hOk
    cases hOk
    obtain ⟨rest, hRest⟩ := exists_cons_of_at hSemicolon
    refine ⟨c.skipGap, [], hReach, hNil, .nil, ?_⟩
    rw [if_neg (by simp [hRest]), statement_of_semicolon hSemicolon, hStands.ended hNil]
    rfl
termination_by c.left

omit hCloses

theorem skipHeader_lift {c e : Cursor} (h : e.skipBlanks = P.lift c.skipBlanks) :
    P.Agree (fun a b => b = P.lift a) (s₁.skipHeader c) (s₂.skipHeader e) := by
  unfold skipHeader
  dsimp only
  rw [h, P.at?_lift _ (by decide)]
  split
  · next hBar =>
    rw [P.advance_lift (rest_ne_nil_of_at hBar)]
    by_cases hClose : (c.skipBlanks.advance.skipWhile (· ≠ '|')).rest = []
    · rw [if_pos hClose]
      rcases P.stops with hTail | ⟨-, hExcused⟩
      · rw [P.skipWhile_lift (.inr (by simp [hTail])), if_pos (by rw [rest_lift, hClose, hTail]; rfl)]
        exact P.agree_mistake _ _ _ rfl
      · refine .excused (hExcused _) fun hEnds => ?_
        rw [if_pos (P.skipWhile_lift_nil hEnds (by decide) hClose)]
        exact ⟨_, rfl⟩
    · have hMore : (P.lift (c.skipBlanks.advance.skipWhile (· ≠ '|'))).rest ≠ [] :=
        fun hNil => hClose (List.append_eq_nil_iff.mp hNil).1
      rw [if_neg hClose, P.skipWhile_lift (.inl hClose), if_neg hMore, P.advance_lift hClose]
      exact .ok rfl
  · exact .ok rfl

include hCloses

theorem skipHeader_agree {c e : Cursor} (h : P.Meets c e) :
    P.Agree P.Meets (s₁.skipHeader c) (s₂.skipHeader e) := by
  have hStands := P.stands_skipBlanks h
  rcases hStands.cases hCloses with ⟨-, hLift⟩ | ⟨hNil, -, hSemicolon⟩
  · exact (skipHeader_lift hLift).imp fun _ _ hSame => .inl hSame
  · rw [s₁.skipHeader_of_other (at_bar_of_end (.inl hNil)),
      s₂.skipHeader_of_other (at_bar_of_end (.inr hSemicolon))]
    exact .ok (.inr hStands)

omit hCloses

theorem lift_start (P : Pairing s₁ s₂) (hOffset : P.offset = 0) (hLines : P.lines = 0)
    (hTail : P.tail = []) (c : Cursor) : P.lift c = c := by
  simp [lift, Position.moved, hOffset, hLines, hTail]

theorem parse_agree (hOffset : P.offset = 0) (hLines : P.lines = 0) (hTail : P.tail = []) (text : String) :
    P.Agree (fun t₁ t₂ => List.Forall₂ P.StatementAlike t₁.statements t₂.statements)
      (Script.parse s₁ text) (Script.parse s₂ text) := by
  have hStart : P.Meets ⟨.start, text.toList⟩ ⟨.start, text.toList⟩ :=
    .inl (P.lift_start hOffset hLines hTail _).symm
  rw [Script.parse_eq, Script.parse_eq]
  refine (skipHeader_agree (.inl hTail) hStart).bind ?_
  intro c₁ c₂ _ hMeets
  exact (statements_agree (.inl hTail) hTail hMeets).map fun _ _ _ hStatements => hStatements

end Pairing

def Pipeline.relined (f : Int → Int) (p : Pipeline) : Pipeline := { p with line := f p.line }

def Statement.relined (f : Int → Int) (st : Statement) : Statement :=
  ⟨st.first.relined f, st.fallbacks.map (Pipeline.relined f)⟩

def Script.relined (f : Int → Int) (t : Script) : Script := ⟨t.statements.map (Statement.relined f)⟩

theorem Script.relined_id (t : Script) : t.relined id = t := by
  have hStatement : Statement.relined id = id := by
    funext st
    have hPipeline : Pipeline.relined id = id := rfl
    rw [Statement.relined, hPipeline, List.map_id]
    rfl
  rw [relined, hStatement, List.map_id]

theorem eq_map_of_forall₂ {α β : Type} {R : α → β → Prop} {f : α → β} {l₁ : List α} {l₂ : List β}
    (h : List.Forall₂ R l₁ l₂) (hf : ∀ a b, R a b → b = f a) : l₂ = l₁.map f := by
  induction h with
  | nil => rfl
  | cons hHead _ ih => rw [hf _ _ hHead, ih, List.map_cons]

namespace Pairing

variable {s₁ s₂ : Setting} {P : Pairing s₁ s₂} (hSimilar : P.Similar = Eq)

include hSimilar

theorem PipelineAlike.commands_eq {p₁ p₂ : Pipeline} (h : P.PipelineAlike p₁ p₂) : p₁.commands = p₂.commands := by
  have hCommands := h.commands
  rw [hSimilar] at hCommands
  exact List.forall₂_eq_eq_eq ▸ hCommands.imp fun _ _ => Command.Alike.eq

variable (hFile : s₂.file = s₁.file) {f : Int → Int}
  (hf : ∀ pos, s₂.lineOf (pos.moved P.offset P.lines) = f (s₁.lineOf pos))

include hFile hf

theorem PipelineAlike.eq_relined {p₁ p₂ : Pipeline} (h : P.PipelineAlike p₁ p₂) : p₂ = p₁.relined f := by
  obtain ⟨pos, ⟨hFile₁, hLine₁⟩, hFile₂, hLine₂⟩ := h.place
  have hCommands := h.commands_eq hSimilar
  have hLine : p₂.line = f p₁.line := by rw [hLine₂, hLine₁, hf]
  obtain ⟨commands₁, ignore₁, file₁, line₁⟩ := p₁
  obtain ⟨commands₂, ignore₂, file₂, line₂⟩ := p₂
  have hIgnore : ignore₁ = ignore₂ := h.ignore
  simp only at hCommands hFile₁ hFile₂ hLine
  subst hCommands hIgnore hLine
  rw [hFile₁, hFile₂, hFile]
  rfl

theorem StatementAlike.eq_relined {st₁ st₂ : Statement} (h : P.StatementAlike st₁ st₂) :
    st₂ = st₁.relined f := by
  obtain ⟨first₁, fallbacks₁⟩ := st₁
  obtain ⟨first₂, fallbacks₂⟩ := st₂
  obtain ⟨hFirst, hFallbacks⟩ := List.forall₂_cons.mp h
  have hHead : first₂ = first₁.relined f := hFirst.eq_relined hSimilar hFile hf
  have hRest : fallbacks₂ = fallbacks₁.map (Pipeline.relined f) :=
    eq_map_of_forall₂ hFallbacks fun _ _ hPipeline => hPipeline.eq_relined hSimilar hFile hf
  rw [hHead, hRest]
  rfl

theorem parse_relined (hOffset : P.offset = 0) (hLines : P.lines = 0) (hTail : P.tail = []) (text : String) :
    P.Agree (fun t₁ t₂ => t₂ = t₁.relined f) (Script.parse s₁ text) (Script.parse s₂ text) := by
  refine (parse_agree hOffset hLines hTail text).imp ?_
  rintro ⟨sts₁⟩ ⟨sts₂⟩ hStatements
  have hAll := eq_map_of_forall₂ hStatements fun _ _ hStatement => hStatement.eq_relined hSimilar hFile hf
  exact congrArg Script.mk hAll

end Pairing

end Pipework
