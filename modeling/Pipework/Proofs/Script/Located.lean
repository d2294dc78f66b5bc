import Mathlib.Data.List.Induction
import Pipework.Proofs.Script.Reach
import Pipework.Proofs.Script.WellFormed

/-!
# Where mistakes are

A mistake that ends the reading of a text is about characters that stand in it: the fragment is the
piece of the text at the offset, and line and column are those of its first character. What else a
mistake says depends on its kind. All of it is true wherever reading can fail, and so it is shown part
by part, for cursors that stand in the text.
-/

namespace Pipework

open Cursor

theorem Position.foldl_next_col (text : List Char) :
    (text.foldl Position.next .start).col = 1 + (text.reverse.takeWhile (· ≠ '\n')).length := by
  induction text using List.reverseRecOn with
  | nil => rfl
  | append_singleton text x ih =>
    rw [List.foldl_append, List.foldl_cons, List.foldl_nil, List.reverse_append, List.reverse_singleton,
      List.singleton_append]
    by_cases hx : x = '\n'
    · simp [next, hx]
    · rw [List.takeWhile_cons_of_pos (by simpa using hx), List.length_cons, ← Nat.add_assoc, ← ih, next,
        if_neg hx]

namespace Mistake

def Suits (s : Setting) (text : List Char) (m : Mistake) : Prop :=
  match m.kind with
  | .unresolvedVariable => IsName m.name ∧ s.symbols.find? m.name = none ∧
      (m.fragment.toList = '$' :: m.name.toList ∨ m.fragment.toList = '$' :: '{' :: m.name.toList ++ ['}'])
  | .badSubstitution => '$' :: '{' :: m.name.toList <+: m.fragment.toList
  | .unterminatedLiteral => (∃ x ∈ m.fragment.toList.head?, x ∈ ['"', 'r', 'b', '|']) ∧
      m.offset + m.fragment.length = text.length ∧ m.name = ""
  | _ => m.name = ""

/-- The mistake is one about a piece of `text`, read with the setting `s`. -/
structure PointsAt (s : Setting) (text : List Char) (m : Mistake) : Prop where
  file : m.file = s.file
  fileLine : m.fileLine = s.line
  offset_lt : m.offset < text.length
  fragment_ne_empty : m.fragment ≠ ""
  fragment : m.fragment.toList = (text.drop m.offset).take m.fragment.length
  line : m.line = 1 + ((text.take m.offset).count '\n' : Nat)
  col : m.col = 1 + (((text.take m.offset).reverse.takeWhile (· ≠ '\n')).length : Nat)
  suits : m.Suits s text

end Mistake

namespace Setting

variable {s : Setting} {text : List Char}

theorem toList_fragment (kind : Mistake.Kind) (start : Cursor) (stop : Nat) (name : List Char) :
    (s.mistake kind start stop name).fragment.toList = start.rest.take (max (stop - start.pos.offset) 1) :=
  String.toList_ofList

theorem mistake_pointsAt {kind : Mistake.Kind} {start : Cursor} {stop : Nat} {name : List Char}
    (hOn : start.On text) (hne : start.rest ≠ []) (hSuits : (s.mistake kind start stop name).Suits s text) :
    (s.mistake kind start stop name).PointsAt s text where
  file := rfl
  fileLine := rfl
  offset_lt := by
    have hLength := hOn.offset_add_left
    have hPos := List.length_pos_iff.mpr hne
    show start.pos.offset < text.length
    simp only [left] at hLength
    omega
  fragment_ne_empty := by
    intro hEmpty
    have hNil := congrArg String.toList hEmpty
    rw [toList_fragment, String.toList_empty, List.take_eq_nil_iff] at hNil
    exact hNil.elim (by omega) hne
  fragment := by
    rw [← String.length_toList, toList_fragment, List.length_take]
    show _ = (text.drop start.pos.offset).take _
    rw [← hOn.rest_eq, List.take_eq_take_iff]
    omega
  line := by
    have hLine := congrArg Position.line hOn.pos_eq
    rw [Position.foldl_next_line] at hLine
    exact congrArg Nat.cast hLine
  col := by
    have hCol := congrArg Position.col hOn.pos_eq
    rw [Position.foldl_next_col] at hCol
    exact congrArg Nat.cast hCol
  suits := hSuits

/-- If the reading fails, its mistake points at the text. -/
def Blames (s : Setting) (text : List Char) {α : Type} (e : Except Mistake α) : Prop :=
  ∀ m, e = .error m → m.PointsAt s text

namespace Blames

variable {α β : Type}

theorem ok (a : α) : s.Blames text (.ok a : Except Mistake α) := by
  intro m h
  cases h

theorem error {m : Mistake} (h : m.PointsAt s text) : s.Blames text (.error m : Except Mistake α) := by
  intro m' hm
  cases hm
  exact h

theorem bind {e : Except Mistake α} {f : α → Except Mistake β} (he : s.Blames text e)
    (hf : ∀ a, e = .ok a → s.Blames text (f a)) : s.Blames text (e.bind f) := by
  cases e with
  | error m => exact .error (he m rfl)
  | ok a => exact hf a rfl

theorem map {e : Except Mistake α} (f : α → β) (he : s.Blames text e) : s.Blames text (e.map f) := by
  cases e with
  | error m => exact .error (he m rfl)
  | ok a => exact .ok _

theorem plain {kind : Mistake.Kind} (hKind : kind = .badRedirection ∨ kind = .unsupportedDescriptor ∨
      kind = .unexpectedToken) {start : Cursor} (hOn : start.On text) (hne : start.rest ≠ []) (stop : Nat) :
    s.Blames text (.error (s.mistake kind start stop []) : Except Mistake α) := by
  refine .error (mistake_pointsAt hOn hne ?_)
  rcases hKind with rfl | rfl | rfl <;> rfl

theorem unterminated {start : Cursor} (hOn : start.On text) {x : Char} {rest : List Char}
    (hStart : start.rest = x :: rest) (hx : x ∈ ['"', 'r', 'b', '|']) {stop : Nat}
    (hStop : stop = text.length) :
    s.Blames text (.error (s.mistake .unterminatedLiteral start stop []) : Except Mistake α) := by
  have hLength := hOn.offset_add_left
  have hAll : (s.mistake .unterminatedLiteral start stop []).fragment.toList = start.rest := by
    rw [toList_fragment, List.take_of_length_le]
    show start.left ≤ _
    omega
  refine .error (mistake_pointsAt hOn (by simp [hStart]) ⟨⟨x, ?_, hx⟩, ?_, rfl⟩)
  · rw [hAll, hStart]
    rfl
  · rw [← String.length_toList, hAll]
    exact hLength

end Blames

open Blames

theorem name_taken (c : Cursor) : c.rest = c.name.1 ++ c.name.2.rest ∧
    c.name.2.pos = c.name.1.foldl Position.next c.pos := by
  unfold name
  split
  · split
    · exact ⟨List.takeWhile_append_dropWhile.symm, rfl⟩
    · exact ⟨rfl, rfl⟩
  · exact ⟨rfl, rfl⟩

theorem isName_name {c : Cursor} (h : c.name.1 ≠ []) : IsName (String.ofList c.name.1) := by
  unfold name at h ⊢
  split at h
  · next x rest hRest =>
    split at h
    · next hx =>
      have hName : (c.span isNameChar).1 = x :: rest.takeWhile isNameChar := by
        rw [span, hRest]
        exact List.takeWhile_cons_of_pos (by simp [isNameChar, hx])
      rw [if_pos hx, hName]
      exact ⟨x, rest.takeWhile isNameChar, String.toList_ofList, hx, List.all_takeWhile⟩
    · exact absurd rfl h
  · exact absurd rfl h

theorem raw_blames {c : Cursor} (hOn : c.On text) {fence : Nat}
    (hFence : c.rawFence? = some fence) : s.Blames text (s.raw fence c) := by
  unfold raw
  split
  · exact .ok _
  · unfold rawFence? at hFence
    split at hFence
    · next x rest hRest =>
      have hOpen := (Option.ite_none_right_eq_some.mp hFence).1
      have hx : x = 'r' ∨ x = 'b' := by simpa using (Bool.and_eq_true_iff.mp hOpen).1
      refine .unterminated hOn hRest ?_ hOn.offset_add_left
      rcases hx with rfl | rfl <;> decide
    · cases hFence

theorem resolve_blames {c : Cursor} (hOn : c.On text) {stop : Cursor} {name opening closing : List Char}
    (hName : IsName (String.ofList name))
    (hBraces : opening = ['$'] ∧ closing = [] ∨ opening = ['$', '{'] ∧ closing = ['}'])
    (hRest : c.rest = opening ++ name ++ closing ++ stop.rest)
    (hStop : stop.pos = (opening ++ name ++ closing).foldl Position.next c.pos) :
    s.Blames text (s.resolve c stop name) := by
  have hne : opening ++ name ++ closing ≠ [] := by
    rcases hBraces with ⟨rfl, -⟩ | ⟨rfl, -⟩ <;> simp
  have hFragment : (s.mistake .unresolvedVariable c stop.pos.offset name).fragment =
      String.ofList (opening ++ name ++ closing) := by
    have hPos := List.length_pos_iff.mpr hne
    rw [hStop, Position.foldl_next_offset]
    refine congrArg String.ofList ?_
    rw [hRest, Nat.add_sub_cancel_left, Nat.max_eq_left hPos, List.take_left]
  unfold resolve
  split
  · exact .ok _
  · next hNone =>
    refine .error (mistake_pointsAt hOn ?_ ⟨hName, hNone, ?_⟩)
    · rw [hRest]
      exact fun hNil => hne (List.append_eq_nil_iff.mp hNil).1
    · rw [hFragment]
      rcases hBraces with ⟨rfl, rfl⟩ | ⟨rfl, rfl⟩
      · exact .inl (by simp [mistake])
      · exact .inr (by simp [mistake])

theorem dollar_blames {c : Cursor} (hOn : c.On text) (hAt : c.at? '$' = true) :
    s.Blames text (s.dollar c) := by
  obtain ⟨rest, hRest⟩ := exists_cons_of_at hAt
  have hNext := advance_cons hRest
  unfold dollar
  dsimp only
  split
  · exact .ok _
  · split
    · next hBrace =>
      obtain ⟨more, hMore⟩ := exists_cons_of_at hBrace
      have hInner := advance_cons hMore
      obtain rfl : rest = '{' :: more := by simpa [hNext] using hMore
      obtain ⟨hTaken, hPos⟩ := name_taken c.advance.advance
      have hIsName := @isName_name c.advance.advance
      revert hTaken hPos hIsName
      generalize c.advance.advance.name = found
      obtain ⟨name, stop⟩ := found
      rw [hInner, hNext]
      dsimp only
      intro hTaken hPos hIsName
      split
      · next hClosed =>
        obtain ⟨hName, hClose⟩ := Bool.and_eq_true_iff.mp hClosed
        obtain ⟨tail, hTail⟩ := exists_cons_of_at hClose
        rw [advance_cons hTail]
        refine resolve_blames hOn (hIsName (by simpa using hName)) (.inr ⟨rfl, rfl⟩) ?_ ?_
        · rw [hRest, hTaken, hTail]
          simp
        · simp [hPos]
      · have hLong : stop.pos.offset + 1 - c.pos.offset = name.length + 3 := by
          rw [hPos, Position.foldl_next_offset, Position.offset_next, Position.offset_next]
          omega
        refine .error (mistake_pointsAt hOn (by simp [hRest]) ?_)
        show '$' :: '{' :: (String.ofList name).toList <+: _
        rw [toList_fragment, hLong, Nat.max_eq_left (by omega), hRest, hTaken]
        simp [List.take_append, List.take_of_length_le, List.prefix_append]
    · obtain ⟨hTaken, hPos⟩ := name_taken c.advance
      split
      · next hName =>
        refine resolve_blames hOn (isName_name (by simpa using hName)) (.inl ⟨rfl, rfl⟩) ?_ ?_
        · rw [List.append_nil, List.append_assoc, ← hTaken, hRest, hNext]
          rfl
        · rw [hPos, hNext]
          simp
      · exact .ok _

theorem quotedText_blames {c : Cursor} (hOn : c.On text) {start : Cursor} (hStart : start.On text)
    {more : List Char} (hQuote : start.rest = '"' :: more) : s.Blames text (s.quotedText start c) := by
  cases hRest : c.rest with
  | nil =>
    have hEnd : c.pos.offset = text.length := by
      have hLength := hOn.offset_add_left
      rwa [left, hRest] at hLength
    rw [quotedText_nil hRest]
    exact .unterminated hStart hQuote (by decide) hEnd
  | cons x rest =>
    have hne : c.rest ≠ [] := by simp [hRest]
    have hAdvance : c.advance.left < c.left := left_advance_lt hne
    rw [quotedText_cons hRest]
    split
    · exact .ok _
    · split
      · next hEscape =>
        have hSkip : (c.skip 2).left < c.left := Nat.lt_of_le_of_lt (left_skip_le 1 _) hAdvance
        exact (quotedText_blames (hOn.reach (reaches_skip (room_of_escape hRest hEscape))) hStart hQuote).map _
      · split
        · next hDollar =>
          have hAt : c.at? '$' = true := by simpa [at?, hRest] using hDollar
          refine (dollar_blames hOn hAt).bind ?_
          rintro ⟨value, c₁⟩ hOk
          have hLess : c₁.left < c.left := left_dollar_lt hne hOk
          exact (quotedText_blames (hOn.reach (reaches_dollar hne hOk)) hStart hQuote).map _
        · exact (quotedText_blames (hOn.reach (reaches_advance hne)) hStart hQuote).map _
termination_by c.left

theorem piece_blames {c : Cursor} (hOn : c.On text) (rawOk : Bool) {x : Char} {rest : List Char}
    (hRest : c.rest = x :: rest) : s.Blames text (s.piece rawOk x c) := by
  unfold piece
  split
  · next fence hFence =>
    cases rawOk with
    | true => exact (raw_blames hOn hFence).map _
    | false => cases hFence
  · split
    · next hQuote =>
      obtain rfl : x = '"' := by simpa using hQuote
      exact (quotedText_blames (hOn.reach (reaches_advance_cons hRest)) hOn hRest).map _
    · split
      · exact .ok _
      · split
        · next hDollar =>
          have hAt : c.at? '$' = true := by simpa [at?, hRest] using hDollar
          exact (dollar_blames hOn hAt).map _
        · exact .ok _

theorem wordFrom_blames {c : Cursor} (hOn : c.On text) (rawOk : Bool) :
    s.Blames text (s.wordFrom rawOk c) := by
  cases hRest : c.rest with
  | nil =>
    rw [wordFrom_nil hRest]
    exact .ok _
  | cons x rest =>
    rw [wordFrom_cons hRest]
    split
    · exact .ok _
    · refine (piece_blames hOn rawOk hRest).bind ?_
      rintro ⟨p, c₁⟩ hOk
      have hne : c.rest ≠ [] := by simp [hRest]
      have hLess : c₁.left < c.left := left_piece_lt hne hOk
      exact (wordFrom_blames (hOn.reach (reaches_piece hne hOk)) p.rawNext).map _
termination_by c.left

theorem target_blames {c : Cursor} (hOn : c.On text) {op : Cursor} (hOp : op.On text) (hne : op.rest ≠ []) :
    s.Blames text (s.target op c) := by
  have hBlanks : c.skipBlanks.On text := hOn.reach (reaches_skipWhile _ c)
  cases hRest : c.skipBlanks.rest with
  | nil =>
    rw [target_nil hRest]
    exact .plain (.inl rfl) hOp hne _
  | cons x rest =>
    rw [target_cons hRest]
    split
    · exact .plain (.inr (.inr rfl)) hBlanks (by simp [hRest]) _
    · split
      · exact .plain (.inl rfl) hOp hne _
      · refine (wordFrom_blames hBlanks true).bind ?_
        rintro ⟨w, c'⟩ -
        dsimp only
        split
        · exact .plain (.inl rfl) hOp hne _
        · exact .ok _

theorem redirectInput_blames {c : Cursor} (hOn : c.On text) (hne : c.rest ≠ []) :
    s.Blames text (s.redirectInput c) := by
  rw [redirectInput_eq]
  split
  · exact .plain (.inl rfl) hOn hne _
  · exact (target_blames (hOn.reach (reaches_advance hne)) hOn hne).map _

theorem redirectOutput_blames {c : Cursor} (hOn : c.On text) (fd : Nat) (both : Bool) (hne : c.rest ≠ []) :
    s.Blames text (s.redirectOutput fd both c) := by
  rw [redirectOutput_eq]
  split
  · dsimp only
    split
    · exact .plain (.inl rfl) hOn hne _
    · split
      · exact .ok _
      · exact .plain (.inr (.inl rfl)) hOn hne _
  · exact (target_blames (hOn.reach (reaches_afterOutput hne)) hOn hne).map _

theorem takeWord_blames {c : Cursor} (hOn : c.On text) (first : Bool) (d : Draft) {start : Cursor}
    (hStart : start.On text) (hne : start.rest ≠ []) (w : Word) :
    s.Blames text (s.takeWord first d start w c) := by
  unfold takeWord
  dsimp only
  split
  · next hBoth =>
    have hOut := rest_ne_nil_of_at (Bool.and_eq_true_iff.mp hBoth).1
    exact (redirectOutput_blames hOn 2 true hOut).map _
  · split
    · next hGreater =>
      have hOut := rest_ne_nil_of_at (Bool.and_eq_true_iff.mp hGreater).1
      split
      · exact (redirectOutput_blames hOn _ false hOut).map _
      · exact .plain (.inr (.inl rfl)) hStart hne _
    · split
      · next hLess =>
        have hIn := rest_ne_nil_of_at (Bool.and_eq_true_iff.mp hLess).1
        split
        · exact (redirectInput_blames hOn hIn).map _
        · exact .plain (.inr (.inl rfl)) hStart hne _
      · exact .ok _

theorem commandPart_blames {c : Cursor} (hOn : c.On text) (first : Bool) (d : Draft) (hne : c.rest ≠ []) :
    s.Blames text (s.commandPart first d c) := by
  rw [commandPart_eq]
  split
  · exact .ok _
  · split
    · exact (redirectInput_blames hOn hne).map _
    · split
      · exact (redirectOutput_blames hOn 1 false hne).map _
      · refine (wordFrom_blames hOn true).bind ?_
        rintro ⟨w, c'⟩ hOk
        exact takeWord_blames (hOn.reach (reaches_wordFrom hOk)) first d hOn hne w

theorem rest_ne_nil_of_not_ends {c : Cursor} (h : ¬endsCommand c = true) : c.rest ≠ [] := by
  intro hNil
  simp [endsCommand, hNil] at h

theorem commandFrom_blames {c : Cursor} (hOn : c.On text) (first : Bool) (d : Draft) :
    s.Blames text (s.commandFrom first d c) := by
  rw [commandFrom_eq]
  split
  · exact .ok _
  · next hEnd =>
    have hBlanks : c.skipBlanks.On text := hOn.reach (reaches_skipWhile _ c)
    refine (commandPart_blames hBlanks first d (rest_ne_nil_of_not_ends hEnd)).bind ?_
    rintro ⟨d', c'⟩ hOk
    have hLess := left_part_lt hEnd hOk
    exact commandFrom_blames (hBlanks.reach (reaches_commandPart hOk)) first d'
termination_by c.left

theorem command_blames {c : Cursor} (hOn : c.On text) (first : Bool) : s.Blames text (s.command first c) := by
  rw [command_eq]
  refine (commandFrom_blames hOn first .empty).bind ?_
  rintro ⟨d, c'⟩ hOk
  dsimp only
  split
  · exact .ok _
  · split
    · next hStarted =>
      refine .plain (.inr (.inr rfl)) hOn ?_ _
      -- A command that has been begun has passed a character at least.
      intro hNil
      have hBlanks : c.skipBlanks = c := skipWhile_nil hNil
      rw [commandFrom_eq, hBlanks, if_pos (by simp [endsCommand, hNil])] at hOk
      cases hOk
      cases hStarted
    · exact .ok _

theorem pipelineFrom_blames {c : Cursor} (hOn : c.On text) (p : Pipeline) :
    s.Blames text (s.pipelineFrom p c) := by
  rw [pipelineFrom_eq]
  refine (command_blames hOn _).bind ?_
  rintro ⟨found, c'⟩ hOk
  dsimp only
  split
  · next hBar =>
    have hLess := left_bar_lt hOk hBar
    have hNext := reaches_advance_at (Bool.and_eq_true_iff.mp hBar).1
    exact pipelineFrom_blames (hOn.reach ((reaches_command hOk).trans hNext)) _
  · exact .ok _
termination_by c.left

theorem pipeline_blames {c : Cursor} (hOn : c.On text) : s.Blames text (s.pipeline c) := by
  rw [pipeline_eq]
  exact (pipelineFrom_blames (hOn.reach (reaches_skipGap c)) _).map _

theorem alternativesFrom_blames {c : Cursor} (hOn : c.On text) (alts : List Pipeline) :
    s.Blames text (s.alternativesFrom alts c) := by
  rw [alternativesFrom_eq]
  refine (pipeline_blames hOn).bind ?_
  rintro ⟨found, c'⟩ hOk
  have hReach := hOn.reach (reaches_pipeline hOk)
  dsimp only
  split
  · next hBars =>
    have hLess := left_bars_lt hOk hBars
    split
    · exact .plain (.inr (.inr rfl)) hReach (rest_ne_nil_of_at (Bool.and_eq_true_iff.mp hBars).1) _
    · exact alternativesFrom_blames (hReach.reach (reaches_skip (room_of_fallback hBars))) _
  · exact .ok _
termination_by c.left

theorem statement_blames {c : Cursor} (hOn : c.On text) : s.Blames text (s.statement c) := by
  rw [statement_eq]
  exact (alternativesFrom_blames hOn []).map _

theorem statements_blames {c : Cursor} (hOn : c.On text) : s.Blames text (s.statements c) := by
  rw [statements_eq]
  split
  · exact .ok _
  · next hEnd =>
    have hGap : c.skipGap.On text := hOn.reach (reaches_skipGap c)
    refine (statement_blames hGap).bind ?_
    rintro ⟨found, c'⟩ hOk
    have hLess := left_statements_lt hEnd hOk
    exact (statements_blames (hGap.reach (reaches_statement hOk))).map _
termination_by c.left

theorem skipHeader_blames {c : Cursor} (hOn : c.On text) : s.Blames text (s.skipHeader c) := by
  unfold skipHeader
  dsimp only
  have hBlanks : c.skipBlanks.On text := hOn.reach (reaches_skipWhile _ c)
  split
  · next hBar =>
    obtain ⟨rest, hRest⟩ := exists_cons_of_at hBar
    split
    · next hNil =>
      have hClose := hBlanks.reach ((reaches_advance_at hBar).trans (reaches_skipWhile (· ≠ '|') _))
      have hEnd := hClose.offset_add_left
      rw [left, hNil] at hEnd
      exact .unterminated hBlanks hRest (by decide) hEnd
    · exact .ok _
  · exact .ok _

end Setting

theorem Script.parse_pointsAt (s : Setting) {text : String} {m : Mistake}
    (h : Script.parse s text = .error m) : m.PointsAt s text.toList := by
  have hStart : Cursor.On text.toList ⟨.start, text.toList⟩ := .refl _
  have hBlames : s.Blames text.toList (Script.parse s text) := by
    rw [Script.parse_eq]
    refine (Setting.skipHeader_blames hStart).bind ?_
    intro c hOk
    exact (Setting.statements_blames (hStart.reach (Setting.reaches_skipHeader hOk))).map _
  exact hBlames m h

/-- The variable stands within quotes that nothing closes, on the line below a comment. -/
theorem Script.parse_pointsAt_nested :
    let s : Setting := ⟨[("v", "1")], "f", 7⟩
    let text := "x $v // \"\n > \"a$\x7bn\x7d"
    let m : Mistake := ⟨.unresolvedVariable, "n", "$\x7bn\x7d", 15, 2, 6, "f", 7⟩
    Script.parse s text = .error m ∧ m.PointsAt s text.toList := by
  intro s text m
  have hParse : Script.parse s text = .error m := by decide +kernel
  exact ⟨hParse, Script.parse_pointsAt s hParse⟩

end Pipework
