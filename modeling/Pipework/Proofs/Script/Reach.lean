import Pipework.Proofs.Script.Steps

/-!
# Where reading gets to

Reading only moves forward, and the place that a cursor carries is always the one that the characters
passed so far make it. Both follow for a whole script from what each part does. So a cursor that
reading comes to stands on the text: what it has passed and what is left make the text up.

Nothing keeps a cursor from moving past the end. That there is a character wherever one is passed
follows from what has been seen before: the character itself, or those that open or close a literal.
-/

namespace Pipework

theorem Position.foldl_next_offset (text : List Char) (p : Position) :
    (text.foldl Position.next p).offset = p.offset + text.length := by
  induction text generalizing p with
  | nil => rfl
  | cons x text ih =>
    rw [List.foldl_cons, ih, offset_next, List.length_cons, Nat.add_right_comm, Nat.add_assoc]

theorem Position.foldl_next_line (text : List Char) (p : Position) :
    (text.foldl Position.next p).line = p.line + text.count '\n' := by
  induction text generalizing p with
  | nil => rfl
  | cons x text ih =>
    rw [List.foldl_cons, ih, List.count_cons]
    unfold next
    split
    · next hx => simp [hx, Nat.add_right_comm, Nat.add_assoc]
    · next hx => simp [hx]

namespace Cursor

/-- The cursor `c'` is `c` moved past some characters. -/
def Reaches (c c' : Cursor) : Prop :=
  ∃ taken, c.rest = taken ++ c'.rest ∧ c'.pos = taken.foldl Position.next c.pos

theorem Reaches.refl (c : Cursor) : c.Reaches c := ⟨[], rfl, rfl⟩

theorem Reaches.trans {c c₁ c₂ : Cursor} (h₁ : c.Reaches c₁) (h₂ : c₁.Reaches c₂) : c.Reaches c₂ := by
  obtain ⟨taken₁, hRest₁, hPos₁⟩ := h₁
  obtain ⟨taken₂, hRest₂, hPos₂⟩ := h₂
  refine ⟨taken₁ ++ taken₂, ?_, ?_⟩
  · rw [hRest₁, hRest₂, List.append_assoc]
  · rw [hPos₂, hPos₁, List.foldl_append]

theorem Reaches.left_le {c c' : Cursor} (h : c.Reaches c') : c'.left ≤ c.left := by
  obtain ⟨taken, hRest, -⟩ := h
  rw [left, left, hRest, List.length_append]
  exact Nat.le_add_left _ _

theorem reaches_advance {c : Cursor} (h : c.rest ≠ []) : c.Reaches c.advance := by
  obtain ⟨x, rest, hRest⟩ := List.exists_cons_of_ne_nil h
  exact ⟨[x], by simp [advance, hRest], by simp [advance, hRest]⟩

theorem reaches_advance_at {c : Cursor} {x : Char} (h : c.at? x = true) : c.Reaches c.advance :=
  reaches_advance (rest_ne_nil_of_at h)

theorem reaches_advance_cons {c : Cursor} {x : Char} {rest : List Char} (h : c.rest = x :: rest) :
    c.Reaches c.advance :=
  reaches_advance (h ▸ List.cons_ne_nil x rest)

theorem reaches_skip {n : Nat} {c : Cursor} (h : n ≤ c.left) : c.Reaches (c.skip n) := by
  induction n generalizing c with
  | zero => exact .refl c
  | succ n ih =>
    cases hRest : c.rest with
    | nil => simp [left, hRest] at h
    | cons x rest =>
      refine (reaches_advance_cons hRest).trans (ih ?_)
      rw [advance_cons hRest]
      simpa [left, hRest] using h

section Room

variable {c : Cursor} {x : Char} {rest : List Char}

theorem room_of_at (h : c.at? x = true) : 1 ≤ c.left := List.length_pos_iff.mpr (rest_ne_nil_of_at h)

theorem room_of_cons (h : c.rest = x :: rest) : 1 ≤ c.left := by simp [left, h]

theorem room_of_next (h : c.rest = x :: rest) {y : Char} (hNext : rest.head? = some y) : 2 ≤ c.left := by
  obtain ⟨more, rfl⟩ := List.head?_eq_some_iff.mp hNext
  simp [left, h]

theorem room_of_escape (h : c.rest = x :: rest)
    (hNext : (x == '\\' && (rest.head? == some '$' || rest.head? == some '"')) = true) : 2 ≤ c.left := by
  simp only [Bool.and_eq_true, Bool.or_eq_true, beq_iff_eq] at hNext
  rcases hNext.2 with hDollar | hQuote
  · exact room_of_next h hDollar
  · exact room_of_next h hQuote

theorem room_of_rawFence {fence : Nat} (h : c.rawFence? = some fence) : 2 + fence ≤ c.left := by
  unfold rawFence? at h
  split at h
  · next x rest hRest =>
    split at h
    · next hOpens =>
      cases h
      have hQuote : (rest.dropWhile (· == '#')).head? = some '"' := by simp_all
      obtain ⟨more, hMore⟩ := List.head?_eq_some_iff.mp hQuote
      have hAll := congrArg List.length (List.takeWhile_append_dropWhile (p := (· == '#')) (l := rest))
      simp only [List.length_append, hMore, List.length_cons] at hAll
      simp only [left, hRest, List.length_cons]
      omega
    · cases h
  · cases h

theorem room_of_closing {fence : Nat} (h : c.rest = x :: rest)
    (hClose : (x == '"' && (rest.take fence).length == fence && (rest.take fence).all (· == '#')) = true) :
    1 + fence ≤ c.left := by
  simp only [Bool.and_eq_true, beq_iff_eq, List.length_take] at hClose
  simp only [left, h, List.length_cons]
  omega

theorem room_of_fallback (h : Setting.atFallback c = true) : 2 ≤ c.left := by
  obtain ⟨hBar, hSecond⟩ := Bool.and_eq_true_iff.mp h
  obtain ⟨rest, hRest⟩ := exists_cons_of_at hBar
  rw [advance_cons hRest] at hSecond
  exact room_of_next hRest (beq_iff_eq.mp hSecond)

end Room

theorem reaches_span (p : Char → Bool) (c : Cursor) : c.Reaches (c.span p).2 :=
  ⟨c.rest.takeWhile p, List.takeWhile_append_dropWhile.symm, rfl⟩

theorem reaches_skipWhile (p : Char → Bool) (c : Cursor) : c.Reaches (c.skipWhile p) := reaches_span p c

theorem reaches_skipGap (c : Cursor) : c.Reaches c.skipGap := by
  fun_induction skipGap c with
  | case1 c c' hComment ih =>
    exact (reaches_skipWhile isBlank c).trans ((reaches_skipWhile _ c').trans ih)
  | case2 c c' hComment => exact reaches_skipWhile isBlank c

theorem reaches_name (c : Cursor) : c.Reaches c.name.2 := by
  unfold name
  split
  · split
    · exact reaches_span _ c
    · exact .refl c
  · exact .refl c

theorem reaches_rawText {fence : Nat} {c c' : Cursor} {text : List Char}
    (h : c.rawText fence = some (text, c')) : c.Reaches c' := by
  fun_induction rawText fence c generalizing text with
  | case1 c hRest => cases h
  | case2 c x rest hRest hClose =>
    cases h
    exact reaches_skip (room_of_closing hRest hClose)
  | case3 c x rest hRest hClose ih =>
    obtain ⟨⟨text', d⟩, hd, heq⟩ := Option.map_eq_some_iff.mp h
    cases heq
    exact (reaches_advance_cons hRest).trans (ih hd)

/-- The cursor stands on `text`, at the place that it says. -/
def On (text : List Char) (c : Cursor) : Prop := Reaches ⟨.start, text⟩ c

namespace On

variable {text : List Char} {c c' : Cursor}

theorem reach (h : c.On text) (hReach : c.Reaches c') : c'.On text := h.trans hReach

theorem split (h : c.On text) : ∃ taken, text = taken ++ c.rest ∧ c.pos.offset = taken.length ∧
    c.pos = taken.foldl Position.next .start := by
  obtain ⟨taken, hRest, hPos⟩ := h
  refine ⟨taken, hRest, ?_, hPos⟩
  rw [hPos, Position.foldl_next_offset]
  exact Nat.zero_add _

theorem rest_eq (h : c.On text) : c.rest = text.drop c.pos.offset := by
  obtain ⟨taken, rfl, hOffset, -⟩ := h.split
  rw [hOffset, List.drop_left]

theorem pos_eq (h : c.On text) : c.pos = (text.take c.pos.offset).foldl Position.next .start := by
  obtain ⟨taken, rfl, hOffset, hPos⟩ := h.split
  rw [hOffset, List.take_left]
  exact hPos

theorem offset_add_left (h : c.On text) : c.pos.offset + c.left = text.length := by
  obtain ⟨taken, rfl, hOffset, -⟩ := h.split
  rw [hOffset, List.length_append]

end On

end Cursor

namespace Setting

open Cursor

theorem reaches_raw {s : Setting} {fence : Nat} {c c' : Cursor} {text : List Char}
    (hFence : c.rawFence? = some fence) (h : s.raw fence c = .ok (text, c')) : c.Reaches c' := by
  unfold raw at h
  split at h
  · next found hFound =>
    cases h
    exact (reaches_skip (room_of_rawFence hFence)).trans (reaches_rawText hFound)
  · cases h

theorem reaches_dollar {s : Setting} {c c' : Cursor} {text : List Char} (hne : c.rest ≠ [])
    (h : s.dollar c = .ok (text, c')) : c.Reaches c' := by
  refine (reaches_advance hne).trans ?_
  unfold dollar at h
  dsimp only at h
  split at h
  · next hDollar =>
    cases h
    exact reaches_advance_at hDollar
  · split at h
    · next hOpen =>
      split at h
      · next hClose =>
        rw [resolve_eq_ok h]
        exact (reaches_advance_at hOpen).trans
          ((reaches_name _).trans (reaches_advance_at (Bool.and_eq_true_iff.mp hClose).2))
      · cases h
    · split at h
      · rw [resolve_eq_ok h]
        exact reaches_name _
      · cases h
        exact .refl _

theorem reaches_quotedText {s : Setting} {start c c' : Cursor} {text : List Char}
    (h : s.quotedText start c = .ok (text, c')) : c.Reaches c' := by
  fun_induction quotedText s start c generalizing text c' with
  | case2 c x rest hRest hx =>
    cases h
    exact reaches_advance_cons hRest
  | case3 c x rest hRest hx hEsc text' d hd ih =>
    cases h
    exact (reaches_skip (room_of_escape hRest hEsc)).trans (ih hd)
  | case5 c x rest hRest hx hEsc hDollar value c₁ hValue text' d hd ih =>
    cases h
    exact (reaches_dollar (hRest ▸ List.cons_ne_nil x rest) hValue).trans (ih hd)
  | case8 c x rest hRest hx hEsc hDollar text' d hd ih =>
    cases h
    exact (reaches_advance_cons hRest).trans (ih hd)
  | _ => cases h

theorem fence_of_ite {rawOk : Bool} {c : Cursor} {fence : Nat}
    (h : (if rawOk then c.rawFence? else none) = some fence) : c.rawFence? = some fence := by
  split at h
  · exact h
  · cases h

theorem room_of_escaping {x : Char} {c : Cursor} (hne : c.rest ≠ [])
    (h : (x == '\\' && (c.advance.at? '$' || c.advance.at? '"')) = true) : 2 ≤ c.left := by
  obtain ⟨y, rest, hRest⟩ := List.exists_cons_of_ne_nil hne
  rw [advance_cons hRest] at h
  rcases Bool.or_eq_true_iff.mp (Bool.and_eq_true_iff.mp h).2 with hDollar | hQuote
  · exact room_of_next hRest (beq_iff_eq.mp hDollar)
  · exact room_of_next hRest (beq_iff_eq.mp hQuote)

theorem reaches_piece {s : Setting} {rawOk : Bool} {x : Char} {c c' : Cursor} {p : Piece} (hne : c.rest ≠ [])
    (h : s.piece rawOk x c = .ok (p, c')) : c.Reaches c' := by
  unfold piece at h
  split at h
  · next fence hFence =>
    obtain ⟨⟨text, d⟩, hd, heq⟩ := map_eq_ok h
    cases heq
    exact reaches_raw (fence_of_ite hFence) hd
  · split at h
    · obtain ⟨⟨text, d⟩, hd, heq⟩ := map_eq_ok h
      cases heq
      exact (reaches_advance hne).trans (reaches_quotedText hd)
    · split at h
      · next hEscape =>
        cases h
        exact reaches_skip (room_of_escaping hne hEscape)
      · split at h
        · obtain ⟨⟨text, d⟩, hd, heq⟩ := map_eq_ok h
          cases heq
          exact reaches_dollar hne hd
        · cases h
          exact reaches_advance hne

theorem reaches_wordFrom {s : Setting} {rawOk : Bool} {w : Word} {c c' : Cursor}
    (h : s.wordFrom rawOk c = .ok (w, c')) : c.Reaches c' := by
  fun_induction wordFrom s rawOk c generalizing w c' with
  | case1 rawOk c hRest =>
    cases h
    exact .refl c
  | case2 rawOk c x rest hRest hEnd =>
    cases h
    exact .refl c
  | case4 rawOk c x rest hRest hEnd p c₁ hp w₁ d hd ih =>
    cases h
    exact (reaches_piece (hRest ▸ List.cons_ne_nil x rest) hp).trans (ih hd)
  | _ => cases h

theorem reaches_target {s : Setting} {op c c' : Cursor} {t : Target}
    (h : s.target op c = .ok (t, c')) : c.Reaches c' := by
  refine (reaches_skipWhile isBlank c).trans ?_
  cases hRest : c.skipBlanks.rest with
  | nil =>
    rw [target_nil hRest] at h
    cases h
  | cons x rest =>
    rw [target_cons hRest] at h
    split at h
    · cases h
    · split at h
      · cases h
      · obtain ⟨⟨w, d⟩, hw, h⟩ := bind_eq_ok h
        dsimp only at h
        split at h
        · cases h
        · cases h
          exact reaches_wordFrom hw

theorem reaches_redirectInput {s : Setting} {op c' : Cursor} {rs : List Redirection} (hne : op.rest ≠ [])
    (h : s.redirectInput op = .ok (rs, c')) : op.Reaches c' := by
  rw [redirectInput_eq] at h
  split at h
  · cases h
  · obtain ⟨⟨t, d⟩, ht, heq⟩ := map_eq_ok h
    cases heq
    exact (reaches_advance hne).trans (reaches_target ht)

theorem reaches_afterOutput {op : Cursor} (hne : op.rest ≠ []) : op.Reaches (afterOutput op) := by
  unfold afterOutput
  split
  · next hAppend => exact (reaches_advance hne).trans (reaches_advance_at hAppend)
  · exact reaches_advance hne

theorem reaches_redirectOutput {s : Setting} {fd : Nat} {both : Bool} {op c' : Cursor}
    {rs : List Redirection} (hne : op.rest ≠ []) (h : s.redirectOutput fd both op = .ok (rs, c')) :
    op.Reaches c' := by
  refine (reaches_afterOutput hne).trans ?_
  rw [redirectOutput_eq] at h
  split at h
  · next hAnd =>
    dsimp only at h
    split at h
    · cases h
    · split at h
      · cases h
        exact (reaches_advance_at hAnd).trans (reaches_span _ _)
      · cases h
  · obtain ⟨⟨t, d⟩, ht, heq⟩ := map_eq_ok h
    cases heq
    exact reaches_target ht

theorem reaches_takeWord {s : Setting} {first : Bool} {d d' : Draft} {start c c' : Cursor} {w : Word}
    (h : s.takeWord first d start w c = .ok (d', c')) : c.Reaches c' := by
  have hOperator {x : Char} {spelled : Bool} (hAt : (c.at? x && spelled) = true) : c.rest ≠ [] :=
    rest_ne_nil_of_at (Bool.and_eq_true_iff.mp hAt).1
  unfold takeWord at h
  dsimp only at h
  split at h
  · next hBoth =>
    obtain ⟨⟨rs, c₁⟩, hrs, heq⟩ := map_eq_ok h
    cases heq
    exact reaches_redirectOutput (hOperator hBoth) hrs
  · split at h
    · next hOut =>
      split at h
      · obtain ⟨⟨rs, c₁⟩, hrs, heq⟩ := map_eq_ok h
        cases heq
        exact reaches_redirectOutput (hOperator hOut) hrs
      · cases h
    · split at h
      · next hIn =>
        split at h
        · obtain ⟨⟨rs, c₁⟩, hrs, heq⟩ := map_eq_ok h
          cases heq
          exact reaches_redirectInput (hOperator hIn) hrs
        · cases h
      · cases h
        exact .refl c

theorem reaches_commandPart {s : Setting} {first : Bool} {d d' : Draft} {c c' : Cursor}
    (h : s.commandPart first d c = .ok (d', c')) : c.Reaches c' := by
  rw [commandPart_eq] at h
  split at h
  · cases h
    exact reaches_skipWhile _ c
  · split at h
    · next hIn =>
      obtain ⟨⟨rs, c₁⟩, hrs, heq⟩ := map_eq_ok h
      cases heq
      exact reaches_redirectInput (rest_ne_nil_of_at hIn) hrs
    · split at h
      · next hOut =>
        obtain ⟨⟨rs, c₁⟩, hrs, heq⟩ := map_eq_ok h
        cases heq
        exact reaches_redirectOutput (rest_ne_nil_of_at hOut) hrs
      · obtain ⟨⟨w, c₁⟩, hw, h⟩ := bind_eq_ok h
        exact (reaches_wordFrom hw).trans (reaches_takeWord h)

theorem reaches_commandFrom {s : Setting} {first : Bool} {d d' : Draft} {c c' : Cursor}
    (h : s.commandFrom first d c = .ok (d', c')) : c.Reaches c' := by
  fun_induction commandFrom s first d c with
  | case1 d c c₁ hEnd =>
    simp only [Except.ok.injEq, Prod.mk.injEq] at h
    exact h.2 ▸ reaches_skipWhile _ c
  | case2 d c c₁ hEnd m hp => cases h
  | case3 d c c₁ hEnd d₁ c₂ hp ih =>
    exact (reaches_skipWhile isBlank c).trans ((reaches_commandPart hp).trans (ih h))

theorem reaches_command {s : Setting} {first : Bool} {c c' : Cursor} {found : Option (Command × Bool)}
    (h : s.command first c = .ok (found, c')) : c.Reaches c' := by
  rw [command_eq] at h
  obtain ⟨⟨d, c₁⟩, hd, h⟩ := bind_eq_ok h
  have hReach := reaches_commandFrom hd
  dsimp only at h
  split at h
  · cases h
    exact hReach
  · split at h
    · cases h
    · cases h
      exact hReach

theorem reaches_pipelineFrom {s : Setting} {p p' : Pipeline} {c c' : Cursor}
    (h : s.pipelineFrom p c = .ok (p', c')) : c.Reaches c' := by
  fun_induction pipelineFrom s p c with
  | case1 p c m hc => cases h
  | case2 p c found c₁ hc p₁ hBar ih =>
    exact (reaches_command hc).trans ((reaches_advance_at (Bool.and_eq_true_iff.mp hBar).1).trans (ih h))
  | case3 p c found c₁ hc p₁ hBar =>
    simp only [Except.ok.injEq, Prod.mk.injEq] at h
    exact h.2 ▸ reaches_command hc

theorem reaches_pipeline {s : Setting} {c c' : Cursor} {found : Option Pipeline}
    (h : s.pipeline c = .ok (found, c')) : c.Reaches c' := by
  rw [pipeline_eq] at h
  obtain ⟨⟨p, c₁⟩, hp, heq⟩ := map_eq_ok h
  cases heq
  exact (reaches_skipGap c).trans (reaches_pipelineFrom hp)

theorem reaches_alternativesFrom {s : Setting} {alts alts' : List Pipeline} {c c' : Cursor}
    (h : s.alternativesFrom alts c = .ok (alts', c')) : c.Reaches c' := by
  fun_induction alternativesFrom s alts c with
  | case1 alts c m hp => cases h
  | case2 alts c found c₁ hp alts₁ hBars hNil => cases h
  | case3 alts c found c₁ hp alts₁ hBars hNil ih =>
    exact (reaches_pipeline hp).trans ((reaches_skip (room_of_fallback hBars)).trans (ih h))
  | case4 alts c found c₁ hp alts₁ hBars =>
    simp only [Except.ok.injEq, Prod.mk.injEq] at h
    exact h.2 ▸ reaches_pipeline hp

theorem reaches_statement {s : Setting} {c c' : Cursor} {found : Option Statement}
    (h : s.statement c = .ok (found, c')) : c.Reaches c' := by
  rw [statement_eq] at h
  obtain ⟨⟨alts, c₁⟩, hAlts, heq⟩ := map_eq_ok h
  cases heq
  refine (reaches_alternativesFrom hAlts).trans ?_
  split
  · next hSemicolon => exact reaches_advance_at hSemicolon
  · exact .refl c₁

theorem reaches_skipHeader {s : Setting} {c c' : Cursor} (h : s.skipHeader c = .ok c') : c.Reaches c' := by
  unfold skipHeader at h
  dsimp only at h
  split at h
  · next hOpen =>
    split at h
    · cases h
    · next hClose =>
      cases h
      exact (reaches_skipWhile _ c).trans ((reaches_advance_at hOpen).trans
        ((reaches_skipWhile _ _).trans (reaches_advance hClose)))
  · cases h
    exact reaches_skipWhile _ c

end Setting

end Pipework
