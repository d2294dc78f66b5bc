import Mathlib.Data.List.TakeWhile
import Pipework.Proofs.Script.Sequence

/-!
# Lines that say nothing

A blank line and a line with only a comment can be put into a script below any of its lines, wherever
the line above leaves the reading: between statements, after bars, in the middle of a command. What is
read stays the same, and only what stands further down is on a later line. The comment may hold anything.

Two readings are compared, without the lines and with them. Above them they go the same way. Whether
the text above can be read at all is what a third reading tells, of that text alone.
-/

namespace Pipework

open Cursor Setting

/-- The line is blank, or holds only a comment. -/
def isSilent (line : List Char) : Bool :=
  !line.contains '\n' && (line.all isBlank ||
    ['/', '/'].isPrefixOf (line.dropWhile fun x => x == ' ' || x == '\t'))

def unlines (lines : List (List Char)) : List Char := lines.flatMap (· ++ ['\n'])

/-- The same pipeline, but `lines` lines further down if it begins below the first `above` lines. -/
def Pipeline.spread (above lines : Nat) (p : Pipeline) : Pipeline :=
  if (above : Int) < p.line then p.lowered lines else p

def Statement.spread (above lines : Nat) (st : Statement) : Statement :=
  ⟨st.first.spread above lines, st.fallbacks.map (Pipeline.spread above lines)⟩

def Script.spread (above lines : Nat) (t : Script) : Script :=
  ⟨t.statements.map (Statement.spread above lines)⟩

theorem isSilent_cases {line : List Char} (h : isSilent line = true) :
    (∀ x ∈ line, isBlank x = true) ∨
      ∃ indent text, line = indent ++ '/' :: '/' :: text ∧ (∀ x ∈ indent, x = ' ' ∨ x = '\t') ∧
        ∀ x ∈ text, x ≠ '\n' := by
  obtain ⟨hLine, hSilent⟩ := Bool.and_eq_true_iff.mp h
  have hNoEnd : '\n' ∉ line := by simpa using hLine
  rcases Bool.or_eq_true_iff.mp hSilent with hBlank | hSlashes
  · exact .inl (by simpa using hBlank)
  · obtain ⟨text, hText⟩ := List.isPrefixOf_iff_prefix.mp hSlashes
    have hSplit := List.takeWhile_append_dropWhile (p := fun x => x == ' ' || x == '\t') (l := line)
    rw [← hText] at hSplit
    refine .inr ⟨_, text, hSplit.symm, fun x hx => ?_, fun x hx heq => hNoEnd ?_⟩
    · simpa using List.mem_takeWhile_imp hx
    · rw [← hSplit, ← heq]
      simp [hx]

namespace Cursor

theorem skipBlanks_append {blanks : List Char} (h : ∀ x ∈ blanks, isBlank x = true) (pos : Position)
    (rest : List Char) :
    skipBlanks ⟨pos, blanks ++ rest⟩ = skipBlanks ⟨blanks.foldl Position.next pos, rest⟩ := by
  induction blanks generalizing pos with
  | nil => rfl
  | cons x blanks ih =>
    have hFirst : skipBlanks ⟨pos, x :: (blanks ++ rest)⟩ = skipBlanks ⟨pos.next x, blanks ++ rest⟩ :=
      skipWhile_of_pos rfl (h x List.mem_cons_self)
    rw [List.cons_append, hFirst, ih fun y hy => h y (List.mem_cons_of_mem x hy), List.foldl_cons]

theorem skipComment_append {text : List Char} (h : ∀ x ∈ text, x ≠ '\n') (pos : Position) (rest : List Char) :
    skipComment ⟨pos, text ++ '\n' :: rest⟩ = ⟨text.foldl Position.next pos, '\n' :: rest⟩ := by
  have hTake : (text ++ '\n' :: rest).takeWhile (· ≠ '\n') = text := by
    rw [List.takeWhile_append_of_pos (by simpa using h)]
    simp
  have hDrop : (text ++ '\n' :: rest).dropWhile (· ≠ '\n') = '\n' :: rest := by
    rw [List.dropWhile_append_of_pos (by simpa using h)]
    simp
  simp only [skipComment, skipWhile, span, hTake, hDrop]

theorem atComment_of_fresh {c : Cursor} {rest : List Char} (h : c.rest = '/' :: '/' :: rest)
    (hFresh : c.pos.fresh = true) : c.atComment = true := by
  unfold atComment
  rw [h]
  cases rest <;> simp [hFresh]

end Cursor

theorem Position.fresh_indent {indent : List Char} (h : ∀ x ∈ indent, x = ' ' ∨ x = '\t') {p : Position}
    (hFresh : p.fresh = true) : (indent.foldl Position.next p).fresh = true := by
  induction indent generalizing p with
  | nil => exact hFresh
  | cons x indent ih =>
    refine ih (fun y hy => h y (List.mem_cons_of_mem x hy)) ?_
    rcases h x List.mem_cons_self with rfl | rfl <;> simp [next, hFresh]

/-- What is read from a place does not depend on the blanks and the comments there. -/
structure PassesGaps {α : Type} (f : Cursor → α) : Prop where
  blanks : ∀ {c c'}, c.skipBlanks = c'.skipBlanks → f c = f c'
  comment : ∀ {c}, c.skipBlanks.atComment = true → f c = f c.skipBlanks.skipComment

namespace PassesGaps

theorem skipGap : PassesGaps Cursor.skipGap where
  blanks {c c'} h := by
    unfold Cursor.skipGap
    rw [h]
  comment h := skipGap_of_comment h

theorem commandFrom (s : Setting) (first : Bool) (d : Draft) : PassesGaps (s.commandFrom first d) where
  blanks h := by rw [commandFrom_eq, commandFrom_eq, h]
  comment {c} h := by
    have hEnds : endsCommand c.skipBlanks = false := by
      unfold atComment at h
      split at h
      · next rest hRest => simp [endsCommand, at?, hRest]
      · cases h
    rw [commandFrom_eq, hEnds, commandPart_eq, if_pos h]
    rfl

variable {α : Type} {f : Cursor → α} (hf : PassesGaps f)
include hf

theorem line_end (pos : Position) (rest : List Char) : f ⟨pos, '\n' :: rest⟩ = f ⟨pos.next '\n', rest⟩ :=
  hf.blanks (skipWhile_of_pos rfl (by decide))

theorem silent {line : List Char} (h : isSilent line = true) {pos : Position} (hFresh : pos.fresh = true)
    (rest : List Char) :
    f ⟨pos, line ++ '\n' :: rest⟩ = f ⟨(line.foldl Position.next pos).next '\n', rest⟩ := by
  rcases isSilent_cases h with hBlank | ⟨indent, text, rfl, hIndent, hText⟩
  · rw [hf.blanks (skipBlanks_append hBlank pos _), hf.line_end]
  · have hBlank : ∀ x ∈ indent, isBlank x = true := by
      intro x hx
      rcases hIndent x hx with rfl | rfl <;> decide
    have hSlashes : ∀ x ∈ '/' :: '/' :: text, x ≠ '\n' := by simpa using hText
    let c : Cursor := ⟨indent.foldl Position.next pos, '/' :: '/' :: text ++ '\n' :: rest⟩
    have hStay : c.skipBlanks = c := skipWhile_of_neg rfl (by decide)
    have hComment : c.skipBlanks.atComment = true := by
      rw [hStay]
      exact atComment_of_fresh rfl (Position.fresh_indent hIndent hFresh)
    rw [List.append_assoc, hf.blanks (skipBlanks_append hBlank pos _), hf.comment hComment, hStay,
      skipComment_append hSlashes, hf.line_end, List.foldl_append]

theorem lines {lines : List (List Char)} (h : ∀ line ∈ lines, isSilent line = true) {pos : Position}
    (hFresh : pos.fresh = true) (rest : List Char) :
    f ⟨pos, unlines lines ++ rest⟩ = f ⟨(unlines lines).foldl Position.next pos, rest⟩ := by
  induction lines generalizing pos with
  | nil => rfl
  | cons line lines ih =>
    have hLines : ∀ line ∈ lines, isSilent line = true := fun l hl => h l (List.mem_cons_of_mem line hl)
    have hText : unlines (line :: lines) = line ++ '\n' :: unlines lines := by
      simp [unlines]
    rw [hText, List.append_assoc, List.cons_append, hf.silent (h line List.mem_cons_self) hFresh,
      ih hLines rfl, List.foldl_append, List.foldl_cons]

end PassesGaps

theorem Position.foldl_next_unlines (lines : List (List Char)) (offset line : Nat) :
    (unlines lines).foldl Position.next (Position.start.moved offset line) =
      (Position.start.moved offset line).moved (unlines lines).length ((unlines lines).count '\n') := by
  induction lines generalizing offset line with
  | nil => rfl
  | cons first lines ih =>
    have hText : unlines (first :: lines) = (first ++ ['\n']) ++ unlines lines := by simp [unlines]
    rw [hText, List.foldl_append, List.foldl_append, List.foldl_cons, List.foldl_nil, next_newline, ih,
      foldl_next_offset, foldl_next_line]
    simp only [moved, start, List.length_append, List.count_append, List.count_singleton_self,
      List.length_singleton, Position.mk.injEq, and_self, and_true]
    omega

/-- A text and the same text with a line end and `more` after it. -/
def Setting.onward (s : Setting) (more : List Char) : Pairing s s :=
  .ofTexts s 0 0 ('\n' :: more) (.inr rfl)

def Setting.lowering (s : Setting) (gap : List Char) : Pairing s s :=
  .ofTexts s gap.length (gap.count '\n') [] (.inl rfl)

/-- What two readings give: results that `R` relates, or mistakes of one kind about one name. -/
inductive Matches {α β : Type} (R : α → β → Prop) : Except Mistake α → Except Mistake β → Prop
  | ok {a : α} {b : β} (h : R a b) : Matches R (.ok a) (.ok b)
  | error {m₁ m₂ : Mistake} (hKind : m₁.kind = m₂.kind) (hName : m₁.name = m₂.name) :
    Matches R (.error m₁) (.error m₂)

namespace Matches

variable {α β γ δ : Type} {R : α → β → Prop} {Q : γ → δ → Prop}

theorem bind {e₁ : Except Mistake α} {e₂ : Except Mistake β} {f : α → Except Mistake γ}
    {g : β → Except Mistake δ} (h : Matches R e₁ e₂)
    (hfg : ∀ a b, e₁ = .ok a → R a b → Matches Q (f a) (g b)) : Matches Q (e₁.bind f) (e₂.bind g) := by
  cases h with
  | ok h => exact hfg _ _ rfl h
  | error hKind hName => exact .error hKind hName

theorem map {e₁ : Except Mistake α} {e₂ : Except Mistake β} {f : α → γ} {g : β → δ}
    (h : Matches R e₁ e₂) (hfg : ∀ a b, R a b → Q (f a) (g b)) : Matches Q (e₁.map f) (e₂.map g) := by
  cases h with
  | ok h => exact .ok (hfg _ _ h)
  | error hKind hName => exact .error hKind hName

theorem of_ok {a : α} {e₂ : Except Mistake β} (h : Matches R (.ok a) e₂) : ∃ b, e₂ = .ok b ∧ R a b := by
  cases h with
  | ok h => exact ⟨_, rfl, h⟩

theorem of_lowering {s : Setting} {gap : List Char} {R' : α → β → Prop} {e₁ : Except Mistake α}
    {e₂ : Except Mistake β} (h : (s.lowering gap).Agree R' e₁ e₂)
    (hImp : ∀ a b, e₁ = .ok a → R' a b → R a b) : Matches R e₁ e₂ := by
  cases h with
  | ok h => exact .ok (hImp _ _ rfl h)
  | excused h => exact absurd rfl h
  | mistake => exact .error rfl rfl

end Matches

/-- The reading `r` succeeds, with something found and left off where `K` holds. -/
def Gives {α : Type} (r : Except Mistake (α × Cursor)) (K : α → Cursor → Prop) : Prop :=
  ∃ a c, r = .ok (a, c) ∧ K a c

namespace Gives

variable {α β : Type} {r : Except Mistake (α × Cursor)} {K : β → Cursor → Prop}

theorem of_ok {b : β} {c : Cursor} (h : Gives (.ok (b, c)) K) : K b c := by
  obtain ⟨_, _, ⟨⟩, hK⟩ := h
  exact hK

theorem of_bind {f : α × Cursor → Except Mistake (β × Cursor)} (h : Gives (r.bind f) K) :
    Gives r fun a c => Gives (f (a, c)) K := by
  obtain ⟨b, c, hOk, hK⟩ := h
  obtain ⟨⟨a, c₁⟩, hFirst, hOk⟩ := bind_eq_ok hOk
  exact ⟨a, c₁, hFirst, b, c, hOk, hK⟩

theorem of_map {f : α × Cursor → β × Cursor} (h : Gives (r.map f) K) :
    Gives r fun a c => K (f (a, c)).1 (f (a, c)).2 := by
  obtain ⟨b, c, hOk, hK⟩ := h
  obtain ⟨⟨a, c₁⟩, hFirst, heq⟩ := map_eq_ok hOk
  refine ⟨a, c₁, hFirst, ?_⟩
  dsimp only
  rw [heq]
  exact hK

end Gives

theorem Setting.Draft.Alike.eq {d₁ d₂ : Draft} (h : d₁.Alike Eq d₂) : d₁ = d₂ := by
  obtain ⟨command₁, ignore₁⟩ := d₁
  obtain ⟨command₂, ignore₂⟩ := d₂
  have hCommand : command₁ = command₂ := h.command.eq
  have hIgnore : ignore₁ = ignore₂ := h.ignore
  rw [hCommand, hIgnore]

theorem Pairing.draft_refl {s₁ s₂ : Setting} (P : Pairing s₁ s₂) (d : Draft) : d.Alike P.Similar d where
  command.args := List.forall₂_same.mpr fun _ _ => P.similar_refl _
  command.env := List.forall₂_same.mpr fun _ _ => ⟨rfl, P.similar_refl _⟩
  command.redirections := List.forall₂_same.mpr fun _ _ => .same _
  ignore := rfl

/-- Lines that say nothing, between a text and what follows it. -/
structure Insertion where
  /-- The text above the lines, up to its last line end. -/
  above : List Char
  lines : List (List Char)
  below : List Char
  silent : ∀ line ∈ lines, isSilent line = true

namespace Insertion

variable (I : Insertion)

def gap : List Char := unlines I.lines

def height : Nat := I.above.count '\n' + 1

def border : Cursor := ⟨Position.start.moved (I.above.length + 1) I.height, I.below⟩

/-- Where the readings without the lines and with them stand. As long as they are in the text above, the
reading of that text alone stands there too, and `Ok` holds of it. -/
inductive Beside (s : Setting) (Ok : Cursor → Prop) : Cursor → Cursor → Prop
  | above {c : Cursor} (hOn : c.On I.above) (hOk : Ok ((s.onward []).lift c)) :
    Beside s Ok ((s.onward I.below).lift c) ((s.onward (I.gap ++ I.below)).lift c)
  | below {c : Cursor} (hReach : I.border.Reaches c) : Beside s Ok c ((s.lowering I.gap).lift c)

variable {I} {s : Setting} {Ok Ok' : Cursor → Prop} {c c₁ c₂ : Cursor}

theorem Beside.imp (h : I.Beside s Ok c₁ c₂) (hImp : ∀ c, Ok c → Ok' c) : I.Beside s Ok' c₁ c₂ := by
  cases h with
  | above hOn hOk => exact .above hOn (hImp _ hOk)
  | below hReach => exact .below hReach

theorem Beside.sees {b : Cursor → Bool} (hb : ∀ (P : Pairing s s) c, b (P.lift c) = b c)
    (h : I.Beside s Ok c₁ c₂) : b c₂ = b c₁ ∧ I.Beside s (fun c => Ok c ∧ b c = b c₁) c₁ c₂ := by
  cases h with
  | above hOn hOk =>
    refine ⟨by rw [hb, hb], .above hOn ⟨hOk, ?_⟩⟩
    rw [hb, hb]
  | below hReach => exact ⟨hb _ _, .below hReach⟩

theorem Beside.move {f : Cursor → Cursor} {b : Cursor → Bool}
    (hb : ∀ (P : Pairing s s) c, b (P.lift c) = b c)
    (hf : ∀ (P : Pairing s s) c, b c = true → f (P.lift c) = P.lift (f c)) (hReach : ∀ c, b c = true → Reaches c (f c))
    (hAt : b c₁ = true) (h : I.Beside s (fun c => Ok (f c)) c₁ c₂) : I.Beside s Ok (f c₁) (f c₂) := by
  cases h with
  | @above c hOn hOk =>
    rw [hb] at hAt
    rw [hf _ c hAt] at hOk ⊢
    rw [hf _ c hAt]
    exact .above (hOn.reach (hReach c hAt)) hOk
  | below hBelow =>
    rw [hf _ _ hAt]
    exact .below (hBelow.trans (hReach _ hAt))

theorem Beside.line (h : I.Beside s Ok c₁ c₂) :
    c₂.pos.line = (if I.height < c₁.pos.line then c₁.pos.line + I.gap.count '\n' else c₁.pos.line) ∧
      I.Beside s (fun c => Ok c ∧ c.pos = c₁.pos) c₁ c₂ := by
  cases h with
  | @above c hOn hOk =>
    -- No place in the text above is below its last line.
    have hLine : c.pos.line ≤ I.height := by
      obtain ⟨taken, hTaken, -, hPos⟩ := hOn.split
      rw [hPos, Position.foldl_next_line, height, hTaken, List.count_append]
      simp only [Position.start]
      omega
    refine ⟨?_, .above hOn ⟨hOk, rfl⟩⟩
    exact (if_neg (Nat.not_lt.mpr hLine)).symm
  | below hReach =>
    refine ⟨?_, .below hReach⟩
    obtain ⟨taken, -, hPos⟩ := hReach
    rw [if_pos]
    · rfl
    · rw [hPos, Position.foldl_next_line]
      simp only [border, Position.moved, Position.start]
      omega

theorem passes_border {α : Type} {f : Cursor → α} (hf : PassesGaps f) (more : List Char)
    (hOn : c.On I.above) (hEnd : c.skipBlanks.rest = []) :
    f ((s.onward more).lift c) = f ⟨I.border.pos, more⟩ := by
  obtain ⟨taken, hTaken, hOffset, hPos⟩ := (hOn.reach (reaches_skipWhile isBlank c)).split
  have hAll : I.above = taken := by
    rw [hTaken]
    exact (congrArg _ hEnd).trans (List.append_nil taken)
  have hStart : f ((s.onward more).lift c) = f ((s.onward more).lift c.skipBlanks) :=
    hf.blanks ((s.onward more).skipBlanks_lift_skipBlanks c).symm
  have hLift : (s.onward more).lift c.skipBlanks = ⟨c.skipBlanks.pos, '\n' :: more⟩ := by
    rw [Pairing.lift, hEnd]
    rfl
  have hBorder : c.skipBlanks.pos.next '\n' = I.border.pos := by
    have hLine : c.skipBlanks.pos.line = 1 + taken.count '\n' := by
      rw [skipBlanks, hPos, Position.foldl_next_line]
      rfl
    rw [Position.next_newline, border, height, hAll, hLine, Nat.add_comm 1]
    exact congrArg (Position.start.moved · _) (congrArg (· + 1) hOffset)
  rw [hStart, hLift, hf.line_end, hBorder]

theorem passes_gap {α : Type} {f : Cursor → α} (hf : PassesGaps f) (hOn : c.On I.above)
    (hEnd : c.skipBlanks.rest = []) :
    f ((s.onward I.below).lift c) = f I.border ∧
      f ((s.onward (I.gap ++ I.below)).lift c) = f ((s.lowering I.gap).lift I.border) := by
  refine ⟨passes_border hf _ hOn hEnd, ?_⟩
  rw [passes_border hf _ hOn hEnd, gap, hf.lines I.silent rfl, border, Position.foldl_next_unlines]
  exact congrArg (fun rest => f ⟨_, rest⟩) (List.append_nil I.below).symm

theorem lift_skipBlanks (more : List Char) (h : c.skipBlanks.rest ≠ []) :
    ((s.onward more).lift c).skipBlanks = (s.onward more).lift c.skipBlanks :=
  (s.onward more).skipBlanks_lift (.inl h)

theorem skipGap_above {c : Cursor} (hOn : c.On I.above) (hOk : Ok ((s.onward []).lift c).skipGap) :
    I.Beside s Ok ((s.onward I.below).lift c).skipGap ((s.onward (I.gap ++ I.below)).lift c).skipGap := by
  by_cases hEnd : c.skipBlanks.rest = []
  · obtain ⟨hFirst, hSecond⟩ := passes_gap (s := s) PassesGaps.skipGap hOn hEnd
    rw [hFirst, hSecond]
    have hStands := Pairing.stands_skipGap (P := s.lowering I.gap) (.inl rfl) (c := I.border) (.inl rfl)
    rw [hStands.eq_lift rfl]
    exact .below (reaches_skipGap _)
  · have hAt (more : List Char) : ((s.onward more).lift c).skipBlanks.atComment = c.skipBlanks.atComment := by
      rw [lift_skipBlanks more hEnd, Pairing.atComment_lift]
    cases hComment : c.skipBlanks.atComment with
    | true =>
      have hGap (more : List Char) : ((s.onward more).lift c).skipGap =
          ((s.onward more).lift c.skipBlanks.skipComment).skipGap := by
        rw [skipGap_of_comment ((hAt more).trans hComment), lift_skipBlanks more hEnd,
          Pairing.skipComment_lift]
      have hLess := left_comment_lt hComment
      have hOn' : c.skipBlanks.skipComment.On I.above :=
        hOn.reach ((reaches_skipWhile isBlank c).trans (reaches_skipWhile _ _))
      rw [hGap] at hOk ⊢
      rw [hGap]
      exact skipGap_above hOn' hOk
    | false =>
      have hGap (more : List Char) : ((s.onward more).lift c).skipGap =
          (s.onward more).lift c.skipBlanks := by
        rw [skipGap_of_other ((hAt more).trans hComment), lift_skipBlanks more hEnd]
      rw [hGap] at hOk ⊢
      rw [hGap]
      exact .above (hOn.reach (reaches_skipWhile isBlank c)) hOk
termination_by c.left

theorem Beside.skipGap (h : I.Beside s (fun c => Ok c.skipGap) c₁ c₂) :
    I.Beside s Ok c₁.skipGap c₂.skipGap := by
  cases h with
  | above hOn hOk => exact skipGap_above hOn hOk
  | below hReach =>
    have hStands := Pairing.stands_skipGap (P := s.lowering I.gap) (.inl rfl) (c := c₁) (.inl rfl)
    rw [hStands.eq_lift rfl]
    exact .below (hReach.trans (reaches_skipGap _))

theorem ok_onward {α : Type} {e : Except Mistake α} {r : List Char → Except Mistake α}
    (lift : List Char → α → α)
    (hAgree : ∀ more, (s.onward more).Agree (fun a b => b = lift more a) e (r more)) {b : α}
    (h : r [] = .ok b) : ∃ a, e = .ok a ∧ b = lift [] a ∧ ∀ more, r more = .ok (lift more a) := by
  obtain ⟨a, rfl⟩ := (h ▸ hAgree []).ok_of_endsLine ⟨rfl, fun _ hNone => hNone⟩
  have hAll (more : List Char) : r more = .ok (lift more a) := by
    obtain ⟨b', hOk, rfl⟩ := (hAgree more).ok_of_ok
    exact hOk
  rw [hAll] at h
  cases h
  exact ⟨a, rfl, rfl, hAll⟩

theorem commandPart_onward {first : Bool} {d d' : Draft} {e : Cursor}
    (h : s.commandPart first d ((s.onward []).lift c) = .ok (d', e)) :
    ∃ c', s.commandPart first d c = .ok (d', c') ∧ e = (s.onward []).lift c' ∧
      ∀ more, s.commandPart first d ((s.onward more).lift c) = .ok (d', (s.onward more).lift c') := by
  obtain ⟨⟨d₁, c'⟩, hFirst, heq, hAll⟩ := ok_onward (fun more a => (a.1, (s.onward more).lift a.2))
    (fun more => ((s.onward more).commandPart_agree first ((s.onward more).draft_refl d) c).imp
      fun a b hAlike => Prod.ext hAlike.1.eq.symm hAlike.2) h
  cases heq
  exact ⟨c', hFirst, rfl, hAll⟩

theorem commandFrom_below (first : Bool) (d : Draft) {K : Draft → Cursor → Prop}
    (hReach : I.border.Reaches c) :
    Matches (fun a b => a.1 = b.1 ∧ I.Beside s (K a.1) a.2 b.2)
      (s.commandFrom first d c) (s.commandFrom first d ((s.lowering I.gap).lift c)) := by
  let P := s.lowering I.gap
  refine .of_lowering (Pairing.commandFrom_agree (P := P) (.inl rfl) first (P.draft_refl d) (.inl rfl)) ?_
  rintro ⟨d₁, c₁⟩ ⟨d₂, c₂⟩ hOk ⟨hDraft, hStands⟩
  refine ⟨hDraft.eq, ?_⟩
  dsimp only at hStands ⊢
  rw [hStands.eq_lift rfl]
  exact .below (hReach.trans (reaches_commandFrom hOk))

theorem commandFrom_above (first : Bool) (d : Draft) {K : Draft → Cursor → Prop} {c : Cursor}
    (hOn : c.On I.above) (hOk : Gives (s.commandFrom first d ((s.onward []).lift c)) K) :
    Matches (fun a b => a.1 = b.1 ∧ I.Beside s (K a.1) a.2 b.2)
      (s.commandFrom first d ((s.onward I.below).lift c))
      (s.commandFrom first d ((s.onward (I.gap ++ I.below)).lift c)) := by
  by_cases hEnd : c.skipBlanks.rest = []
  · -- The text above ends within the command, which both readings go on with below the lines.
    obtain ⟨hFirst, hSecond⟩ := passes_gap (s := s) (PassesGaps.commandFrom s first d) hOn hEnd
    rw [hFirst, hSecond]
    exact commandFrom_below first d (.refl _)
  · have hOn' : c.skipBlanks.On I.above := hOn.reach (reaches_skipWhile isBlank c)
    have hEq (more : List Char) : s.commandFrom first d ((s.onward more).lift c) =
        if endsCommand c.skipBlanks then .ok (d, (s.onward more).lift c.skipBlanks)
        else (s.commandPart first d ((s.onward more).lift c.skipBlanks)).bind fun part =>
          s.commandFrom first part.1 part.2 := by
      rw [commandFrom_eq, lift_skipBlanks more hEnd, Pairing.endsCommand_lift _ (.inl hEnd)]
    rw [hEq] at hOk ⊢
    rw [hEq]
    by_cases hEnds : endsCommand c.skipBlanks = true
    · rw [if_pos hEnds] at hOk ⊢
      rw [if_pos hEnds]
      exact .ok ⟨rfl, .above hOn' hOk.of_ok⟩
    · rw [if_neg hEnds] at hOk ⊢
      rw [if_neg hEnds]
      obtain ⟨d', e, hPart, hRest⟩ := hOk.of_bind
      obtain ⟨c', hHere, rfl, hAll⟩ := commandPart_onward hPart
      have hLess := left_part_lt hEnds hHere
      rw [hAll, hAll]
      exact commandFrom_above first d' (hOn'.reach (reaches_commandPart hHere)) hRest
termination_by c.left

theorem commandFrom_beside {first : Bool} {d : Draft} {K : Draft → Cursor → Prop}
    (h : I.Beside s (fun c => Gives (s.commandFrom first d c) K) c₁ c₂) :
    Matches (fun a b => a.1 = b.1 ∧ I.Beside s (K a.1) a.2 b.2)
      (s.commandFrom first d c₁) (s.commandFrom first d c₂) := by
  cases h with
  | above hOn hOk => exact commandFrom_above first d hOn hOk
  | below hReach => exact commandFrom_below first d hReach

theorem gives_command {first : Bool} {K : Option (Command × Bool) → Cursor → Prop}
    (h : Gives (s.command first c) K) :
    Gives (s.commandFrom first .empty c) fun d e =>
      K (if d.command.args != [] then some (d.command, d.ignore) else none) e := by
  rw [command_eq] at h
  obtain ⟨d, e, hOk, h⟩ := h.of_bind
  refine ⟨d, e, hOk, ?_⟩
  dsimp only at h ⊢
  split at h
  · next hArgs =>
    rw [if_pos hArgs]
    exact h.of_ok
  · next hArgs =>
    rw [if_neg hArgs]
    split at h
    · obtain ⟨_, _, ⟨⟩, _⟩ := h
    · exact h.of_ok

theorem command_beside {first : Bool} {K : Option (Command × Bool) → Cursor → Prop}
    (h : I.Beside s (fun c => Gives (s.command first c) K) c₁ c₂) :
    Matches (fun a b => a.1 = b.1 ∧ I.Beside s (K a.1) a.2 b.2)
      (s.command first c₁) (s.command first c₂) := by
  rw [command_eq, command_eq]
  refine (commandFrom_beside (h.imp fun _ => gives_command)).bind ?_
  rintro ⟨d, e₁⟩ ⟨_, e₂⟩ - ⟨rfl, hBeside⟩
  dsimp only at hBeside ⊢
  split
  · next hArgs =>
    rw [if_pos hArgs] at hBeside
    exact .ok ⟨rfl, hBeside⟩
  · next hArgs =>
    rw [if_neg hArgs] at hBeside
    split
    · -- The two mistakes are about different texts, since the command goes on over the lines.
      exact .error rfl rfl
    · exact .ok ⟨rfl, hBeside⟩

variable (I) in
def spread (p : Pipeline) : Pipeline := p.spread I.height (I.gap.count '\n')

theorem commands_spread (p : Pipeline) : (I.spread p).commands = p.commands := by
  unfold spread Pipeline.spread
  split <;> rfl

theorem extended_spread (p : Pipeline) (found : Option (Command × Bool)) :
    extended (I.spread p) found = I.spread (extended p found) := by
  cases found with
  | none => rfl
  | some found =>
    by_cases hBelow : (I.height : Int) < p.line
    · simp [spread, Pipeline.spread, Pipeline.lowered, extended, hBelow]
    · simp [spread, Pipeline.spread, extended, hBelow]

theorem pipelineFrom_beside {p : Pipeline} {K : Pipeline → Cursor → Prop} {c₁ c₂ : Cursor}
    (h : I.Beside s (fun c => Gives (s.pipelineFrom p c) K) c₁ c₂) :
    Matches (fun a b => b.1 = I.spread a.1 ∧ I.Beside s (K a.1) a.2 b.2)
      (s.pipelineFrom p c₁) (s.pipelineFrom (I.spread p) c₂) := by
  have hBars (P : Pairing s s) (c : Cursor) : ((P.lift c).at? '|' && !(P.lift c).advance.at? '|') =
      (c.at? '|' && !c.advance.at? '|') := P.bars_lift not c
  rw [pipelineFrom_eq, pipelineFrom_eq, commands_spread]
  refine (command_beside (h.imp fun c hOk => (pipelineFrom_eq s p c ▸ hOk).of_bind)).bind ?_
  rintro ⟨found, e₁⟩ ⟨_, e₂⟩ hOk ⟨rfl, hBeside⟩
  obtain ⟨hSame, hBeside⟩ := hBeside.sees (b := fun c => c.at? '|' && !c.advance.at? '|') hBars
  dsimp only at hSame hBeside ⊢
  rw [hSame, extended_spread]
  by_cases hBar : (e₁.at? '|' && !e₁.advance.at? '|') = true
  · have hLess := left_bar_lt hOk hBar
    simp only [hBar] at hBeside ⊢
    have hNext : I.Beside s (fun c => Gives (s.pipelineFrom (extended p found) c.advance) K) e₁ e₂ := by
      refine hBeside.imp ?_
      rintro c ⟨hGives, hAt⟩
      simpa only [hAt, if_true] using hGives
    have hAdvance (P : Pairing s s) (c : Cursor) (hAt : (c.at? '|' && !c.advance.at? '|') = true) :
        (P.lift c).advance = P.lift c.advance :=
      P.advance_lift (rest_ne_nil_of_at (Bool.and_eq_true_iff.mp hAt).1)
    exact pipelineFrom_beside (hNext.move (b := fun c => c.at? '|' && !c.advance.at? '|') hBars hAdvance
      (fun _ hAt => reaches_advance_at (Bool.and_eq_true_iff.mp hAt).1) hBar)
  · rw [if_neg hBar, if_neg hBar]
    refine .ok ⟨rfl, hBeside.imp ?_⟩
    rintro c ⟨hGives, hAt⟩
    rw [hAt, if_neg hBar] at hGives
    exact hGives.of_ok
termination_by c₁.left

theorem pipeline_beside (hLine : s.line = 0) {K : Option Pipeline → Cursor → Prop}
    (h : I.Beside s (fun c => Gives (s.pipeline c) K) c₁ c₂) :
    Matches (fun a b => b.1 = a.1.map I.spread ∧ I.Beside s (K a.1) a.2 b.2)
      (s.pipeline c₁) (s.pipeline c₂) := by
  have hGap : I.Beside s (fun c => Gives (s.pipelineFrom ⟨[], false, s.file, s.lineOf c.pos⟩ c)
      fun p e => K (if p.commands == [] then none else some p) e) c₁.skipGap c₂.skipGap :=
    Beside.skipGap (h.imp fun c hOk => (pipeline_eq s c ▸ hOk).of_map)
  obtain ⟨hLower, hGap⟩ := hGap.line
  have hSpread : (⟨[], false, s.file, s.lineOf c₂.skipGap.pos⟩ : Pipeline) =
      I.spread ⟨[], false, s.file, s.lineOf c₁.skipGap.pos⟩ := by
    by_cases hBelow : I.height < c₁.skipGap.pos.line
    · simp [lineOf, hLine, spread, Pipeline.spread, Pipeline.lowered, hLower, hBelow]
    · simp [lineOf, hLine, spread, Pipeline.spread, hLower, hBelow]
  rw [pipeline_eq, pipeline_eq, hSpread]
  have hSame : I.Beside s (fun c => Gives (s.pipelineFrom ⟨[], false, s.file, s.lineOf c₁.skipGap.pos⟩ c)
      fun p e => K (if p.commands == [] then none else some p) e) c₁.skipGap c₂.skipGap := by
    refine hGap.imp ?_
    rintro c ⟨hGives, hPos⟩
    rwa [hPos] at hGives
  refine (pipelineFrom_beside hSame).map ?_
  rintro ⟨p, e₁⟩ ⟨_, e₂⟩ ⟨rfl, hBeside⟩
  refine ⟨?_, hBeside⟩
  dsimp only
  rw [commands_spread]
  split <;> rfl

theorem alternativesFrom_beside (hLine : s.line = 0) (alts : List Pipeline)
    {K : List Pipeline → Cursor → Prop} {c₁ c₂ : Cursor}
    (h : I.Beside s (fun c => Gives (s.alternativesFrom alts c) K) c₁ c₂) :
    Matches (fun a b => b.1 = a.1.map I.spread ∧ I.Beside s (K a.1) a.2 b.2)
      (s.alternativesFrom alts c₁) (s.alternativesFrom (alts.map I.spread) c₂) := by
  have hBars (P : Pairing s s) (c : Cursor) : atFallback (P.lift c) = atFallback c := P.bars_lift id c
  rw [alternativesFrom_eq, alternativesFrom_eq]
  refine (pipeline_beside hLine (h.imp fun c hOk => (alternativesFrom_eq s alts c ▸ hOk).of_bind)).bind ?_
  rintro ⟨found, e₁⟩ ⟨_, e₂⟩ hOk ⟨rfl, hBeside⟩
  obtain ⟨hSame, hBeside⟩ := hBeside.sees hBars
  have hMore : alts.map I.spread ++ (found.map I.spread).toList = (alts ++ found.toList).map I.spread := by
    cases found <;> simp
  dsimp only at hBeside ⊢
  rw [hSame, hMore]
  generalize alts ++ found.toList = more at hBeside ⊢
  by_cases hFallback : atFallback e₁ = true
  · have hLess := left_bars_lt hOk hFallback
    rw [if_pos hFallback, if_pos hFallback]
    cases more with
    | nil => exact .error rfl rfl
    | cons first rest =>
      have hNext : I.Beside s (fun c => Gives (s.alternativesFrom (first :: rest) (c.skip 2)) K) e₁ e₂ := by
        refine hBeside.imp ?_
        rintro c ⟨hGives, hAt⟩
        rwa [hAt, if_pos hFallback] at hGives
      have hSkip (P : Pairing s s) (c : Cursor) (hAt : atFallback c = true) :
          (P.lift c).skip 2 = P.lift (c.skip 2) := P.skip_lift (Pairing.left_of_atFallback hAt)
      exact alternativesFrom_beside hLine _
        (hNext.move hBars hSkip (fun _ hAt => reaches_skip (room_of_fallback hAt)) hFallback)
  · rw [if_neg hFallback, if_neg hFallback]
    refine .ok ⟨rfl, hBeside.imp ?_⟩
    rintro c ⟨hGives, hAt⟩
    rw [hAt, if_neg hFallback] at hGives
    exact hGives.of_ok
termination_by c₁.left

variable (I) in
def spreadStatement (st : Statement) : Statement := st.spread I.height (I.gap.count '\n')

theorem ofAlternatives?_spread (alts : List Pipeline) :
    ofAlternatives? (alts.map I.spread) = (ofAlternatives? alts).map I.spreadStatement := by
  cases alts <;> rfl

theorem statement_beside (hLine : s.line = 0) {K : Option Statement → Cursor → Prop}
    (h : I.Beside s (fun c => Gives (s.statement c) K) c₁ c₂) :
    Matches (fun a b => b.1 = a.1.map I.spreadStatement ∧ I.Beside s (K a.1) a.2 b.2)
      (s.statement c₁) (s.statement c₂) := by
  have hSemicolon (P : Pairing s s) (c : Cursor) : (P.lift c).at? ';' = c.at? ';' := P.at?_lift c (by decide)
  rw [statement_eq, statement_eq]
  refine (alternativesFrom_beside hLine []
    (h.imp fun c hOk => (statement_eq s c ▸ hOk).of_map)).map ?_
  rintro ⟨alts, e₁⟩ ⟨_, e₂⟩ ⟨rfl, hBeside⟩
  obtain ⟨hSame, hBeside⟩ := hBeside.sees (b := fun c => c.at? ';') hSemicolon
  refine ⟨ofAlternatives?_spread alts, ?_⟩
  dsimp only at hSame hBeside ⊢
  rw [hSame]
  by_cases hAt : e₁.at? ';' = true
  · rw [if_pos hAt, if_pos hAt]
    have hAdvance (P : Pairing s s) (c : Cursor) (hc : c.at? ';' = true) :
        (P.lift c).advance = P.lift c.advance := P.advance_lift (rest_ne_nil_of_at hc)
    refine Beside.move (b := fun c => c.at? ';') hSemicolon hAdvance (fun _ hc => reaches_advance_at hc) hAt
      (hBeside.imp ?_)
    rintro c ⟨hK, hc⟩
    rwa [hc, if_pos hAt] at hK
  · rw [if_neg hAt, if_neg hAt]
    refine hBeside.imp ?_
    rintro c ⟨hK, hc⟩
    rwa [hc, if_neg hAt] at hK

theorem Beside.ended (h : I.Beside s Ok c₁ c₂) :
    (c₂.rest = [] ↔ c₁.rest = []) ∧ I.Beside s (fun c => Ok c ∧ c.rest ≠ []) c₁ c₂ := by
  have hne (more : List Char) (c : Cursor) : ((s.onward more).lift c).rest ≠ [] := by
    simp [Setting.onward, Pairing.ofTexts]
  cases h with
  | above hOn hOk => exact ⟨iff_of_false (hne _ _) (hne _ _), .above hOn ⟨hOk, hne _ _⟩⟩
  | below hReach => exact ⟨by simp [Setting.lowering, Pairing.ofTexts], .below hReach⟩

theorem statements_beside (hLine : s.line = 0) {c₁ c₂ : Cursor}
    (h : I.Beside s (fun c => ∃ sts, s.statements c = .ok sts) c₁ c₂) :
    Matches (fun a b => b = a.map I.spreadStatement) (s.statements c₁) (s.statements c₂) := by
  have hGap : I.Beside s (fun c => c.rest ≠ [] → Gives (s.statement c) fun _ e =>
      ∃ sts, s.statements e = .ok sts) c₁.skipGap c₂.skipGap := by
    refine Beside.skipGap (h.imp ?_)
    rintro c ⟨sts, hOk⟩ hne
    rw [statements_eq, if_neg hne] at hOk
    obtain ⟨⟨found, e⟩, hFirst, hOk⟩ := bind_eq_ok hOk
    obtain ⟨more, hMore, -⟩ := map_eq_ok hOk
    exact ⟨found, e, hFirst, more, hMore⟩
  obtain ⟨hEnded, hGap⟩ := hGap.ended
  rw [statements_eq, statements_eq]
  by_cases hEnd : c₁.skipGap.rest = []
  · rw [if_pos hEnd, if_pos (hEnded.mpr hEnd)]
    exact .ok rfl
  · rw [if_neg hEnd, if_neg (mt hEnded.mp hEnd)]
    refine (statement_beside hLine (hGap.imp fun c hOk => hOk.1 hOk.2)).bind ?_
    rintro ⟨found, e₁⟩ ⟨_, e₂⟩ hOk ⟨rfl, hBeside⟩
    have hLess := left_statements_lt hEnd hOk
    refine (statements_beside hLine hBeside).map ?_
    rintro more _ rfl
    cases found <;> simp
termination_by c₁.left

theorem skipHeader_onward (hMore : c.skipBlanks.rest ≠ []) {e : Cursor}
    (h : s.skipHeader ((s.onward []).lift c) = .ok e) :
    ∃ c', s.skipHeader c = .ok c' ∧ e = (s.onward []).lift c' ∧
      ∀ more, s.skipHeader ((s.onward more).lift c) = .ok ((s.onward more).lift c') :=
  ok_onward (fun more => (s.onward more).lift)
    (fun more => Pairing.skipHeader_lift (lift_skipBlanks more hMore)) h

end Insertion

/-- Lines that say nothing can be taken out of a script, below a line at the end of which it could end. The
pipelines that begin below them are then on earlier lines, and nothing else is different. -/
theorem Script.parse_erased (symbols : Table) (file : String) {pre : String} {lines : List String}
    (post : String) (hPre : ∃ x ∈ pre.toList, isBlank x = false) (hEnd : pre.toList.getLast? = some '\n')
    (hOk : ∃ t, Script.parse ⟨symbols, file, 0⟩ pre = .ok t)
    (hLines : ∀ line ∈ lines, isSilent line.toList = true) :
    let gap := String.join (lines.map (· ++ "\n"))
    Matches (fun t t' => t' = Script.spread (pre.toList.count '\n') (gap.toList.count '\n') t)
      (Script.parse ⟨symbols, file, 0⟩ (pre ++ post))
      (Script.parse ⟨symbols, file, 0⟩ (pre ++ gap ++ post)) := by
  intro gap
  obtain ⟨above, hAbove⟩ := List.getLast?_eq_some_iff.mp hEnd
  obtain ⟨t, hOk⟩ := hOk
  let s : Setting := ⟨symbols, file, 0⟩
  let I : Insertion := ⟨above, lines.map String.toList, post.toList, by simpa using hLines⟩
  have hGap : gap.toList = I.gap := by
    simp [gap, Insertion.gap, I, unlines, String.toList_join, List.flatMap_map]
  have hHeight : pre.toList.count '\n' = I.height := by
    simp [hAbove, Insertion.height, I]
  have hMore : (skipBlanks ⟨.start, above⟩).rest ≠ [] := by
    intro hNil
    obtain ⟨x, hx, hBlank⟩ := hPre
    rw [hAbove, List.mem_append, List.mem_singleton] at hx
    rcases hx with hx | rfl
    · rw [List.dropWhile_eq_nil_iff.mp hNil x hx] at hBlank
      cases hBlank
    · cases hBlank
  rw [Script.parse_eq, hAbove] at hOk
  obtain ⟨e, hHeader, hOk⟩ := bind_eq_ok hOk
  obtain ⟨sts, hStatements, -⟩ := map_eq_ok hOk
  obtain ⟨c, hFirst, rfl, hAll⟩ := Insertion.skipHeader_onward (s := s) hMore hHeader
  have hBeside : I.Beside s (fun c => ∃ sts, s.statements c = .ok sts) ((s.onward I.below).lift c)
      ((s.onward (I.gap ++ I.below)).lift c) := .above (reaches_skipHeader hFirst) ⟨sts, hStatements⟩
  have hParse (more : String) : Script.parse s (pre ++ more) =
      (s.statements ((s.onward more.toList).lift c)).map Script.mk := by
    have hText : (⟨.start, (pre ++ more).toList⟩ : Cursor) = (s.onward more.toList).lift ⟨.start, above⟩ := by
      rw [String.toList_append, hAbove, List.append_assoc]
      rfl
    rw [Script.parse_eq, hText, hAll]
    rfl
  rw [String.append_assoc, hParse, hParse, String.toList_append, hGap, hHeight]
  refine (Insertion.statements_beside rfl hBeside).map ?_
  rintro sts _ rfl
  rfl

/-- The lines stand in the middle of a command. -/
theorem Script.parse_erased_command :
    let s : Setting := ⟨[("v", "1")], "", 0⟩
    let x : Statement := ⟨⟨[⟨["x", "1"], [], [⟨1, .file "f", false⟩]⟩], false, "", 1⟩, []⟩
    let y (line : Int) : Statement := ⟨⟨[⟨["y"], [], []⟩], false, "", line⟩, []⟩
    Script.parse s ("x $v\n" ++ ">f; y") = .ok ⟨[x, y 2]⟩ ∧
      Script.parse s ("x $v\n" ++ " //\"$w ||\n \u2003\n" ++ ">f; y") = .ok ⟨[x, y 4]⟩ := by
  intro s x y
  have hFirst : Script.parse s ("x $v\n" ++ ">f; y") = .ok ⟨[x, y 2]⟩ := by decide +kernel
  have hAbove : ∃ t, Script.parse s "x $v\n" = .ok t := ⟨⟨[⟨⟨[⟨["x", "1"], [], []⟩], false, "", 1⟩, []⟩]⟩, by
    decide +kernel⟩
  have hLines : ∀ line ∈ [" //\"$w ||", " \u2003"], isSilent line.toList = true := by decide
  have hErased := Script.parse_erased _ _ ">f; y" ⟨'x', by decide, by decide⟩ (by decide) hAbove hLines
  rw [hFirst] at hErased
  obtain ⟨t, hSecond, rfl⟩ := hErased.of_ok
  have hText : String.join ([" //\"$w ||", " \u2003"].map (· ++ "\n")) = " //\"$w ||\n \u2003\n" := by decide
  rw [hText] at hSecond
  exact ⟨hFirst, hSecond.trans (by decide +kernel)⟩

end Pipework
