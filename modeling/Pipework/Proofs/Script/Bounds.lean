import Mathlib.Logic.Relation
import Pipework.Proofs.Script.Legs

/-!
# Reading stays within the text

A move passes characters that are there: each leg of a round begins where a character has been seen, or as
many as it passes. So a round begins and ends on the text, and one that goes on leaves fewer characters to
the next. Then reading ends, and all that is cut out of the text lies within it.
-/

namespace Pipework

open Cursor Setting Leg

namespace Loop

/-- A word is read only where one begins. -/
def Begins : Loop → Prop
  | word _ c => ∃ x rest, c.rest = x :: rest ∧ (isBlank x || isOperator x) = false
  | _ => True

end Loop

/-- What a leg needs within a loop of rank `n`: a move has the characters that it passes, and a loop is an
inner one. -/
def Leg.Fits (n : Nat) : Leg → Prop
  | move count c => count ≤ c.left
  | loop l => l.rank < n ∧ l.Begins

namespace Loop

variable {s : Setting} {l l' : Loop} {c : Cursor} {n : Nat}

theorem fits_span {p : Char → Bool} (hn : 0 < n) : (loop (span p c)).Fits n := ⟨hn, trivial⟩

theorem fits_move {count : Nat} (h : count ≤ c.left) : (move count c).Fits n := h

theorem fits_at {x : Char} (h : c.at? x = true) : (move 1 c).Fits n := room_of_at h

theorem fits_cons {x : Char} {rest : List Char} (h : c.rest = x :: rest) : (move 1 c).Fits n := room_of_cons h

theorem fits_word {rawOk : Bool} {x : Char} {rest : List Char} (h : c.rest = x :: rest)
    (hx : (isBlank x || isOperator x) = false) : (loop (word rawOk c)).Fits 3 :=
  ⟨Nat.lt_succ_self 2, x, rest, h, hx⟩

theorem fits_names (hn : 0 < n) : ∀ leg ∈ names c, leg.Fits n := by
  unfold names
  split
  · simp
  · split
    · exact List.forall_mem_singleton.mpr (fits_span hn)
    · simp

theorem fits_closing : ∀ leg ∈ closing c, leg.Fits n := by
  unfold closing
  split
  · next hClose => exact List.forall_mem_singleton.mpr (fits_at (Bool.and_eq_true_iff.mp hClose).2)
  · simp

theorem fits_dollars (hn : 0 < n) (hne : c.rest ≠ []) : ∀ leg ∈ dollars c, leg.Fits n := by
  refine List.forall_mem_cons.mpr ⟨List.length_pos_iff.mpr hne, ?_⟩
  split
  · next hDollar => exact List.forall_mem_singleton.mpr (fits_at hDollar)
  · split
    · next hOpen =>
      refine List.forall_mem_cons.mpr ⟨fits_at hOpen, fun leg hLeg => ?_⟩
      exact (List.mem_append.mp hLeg).elim (fits_names hn leg) (fits_closing leg)
    · exact fits_names hn

theorem fits_targets : ∀ leg ∈ targets c, leg.Fits 3 := by
  refine List.forall_mem_cons.mpr ⟨fits_span (Nat.zero_lt_succ 2), ?_⟩
  split
  · simp
  · next x rest hRest =>
    split
    · simp
    · next hx =>
      have hBlank := head_skipBlanks hRest
      simpa using fits_word hRest (by simp_all)

theorem fits_inputs (hAt : c.at? '<' = true) : ∀ leg ∈ inputs c, leg.Fits 3 := by
  refine List.forall_mem_cons.mpr ⟨fits_at hAt, ?_⟩
  split
  · simp
  · exact fits_targets

theorem fits_destinations : ∀ leg ∈ destinations c, leg.Fits 3 := by
  unfold destinations
  split
  · next hAnd => simpa using ⟨fits_at hAnd, fits_span (Nat.zero_lt_succ 2)⟩
  · exact fits_targets

theorem fits_outputs (hAt : c.at? '>' = true) : ∀ leg ∈ outputs c, leg.Fits 3 := by
  refine List.forall_mem_cons.mpr ⟨fits_at hAt, ?_⟩
  split
  · next hAppend => exact List.forall_mem_cons.mpr ⟨fits_at hAppend, fits_destinations⟩
  · exact fits_destinations

theorem fits_introduced {w : Word} : ∀ leg ∈ introduced w c, leg.Fits 3 := by
  unfold introduced
  split
  · next hBoth => exact fits_outputs (Bool.and_eq_true_iff.mp hBoth).1
  · split
    · next hOut =>
      split
      · exact fits_outputs (Bool.and_eq_true_iff.mp hOut).1
      · simp
    · split
      · next hIn =>
        split
        · exact fits_inputs (Bool.and_eq_true_iff.mp hIn).1
        · simp
      · simp

theorem fits_parts (hBlank : ∀ x ∈ c.rest.head?, isBlank x = false) (hEnd : ¬endsCommand c = true) :
    ∀ leg ∈ parts s c, leg.Fits 3 := by
  unfold parts
  split
  · exact List.forall_mem_singleton.mpr (fits_span (Nat.zero_lt_succ 2))
  · split
    · next hIn => exact fits_inputs hIn
    · next hIn =>
      split
      · next hOut => exact fits_outputs hOut
      · next hOut =>
        obtain ⟨x, rest, hRest⟩ := List.exists_cons_of_ne_nil (rest_ne_nil_of_not_ends hEnd)
        have hx := hBlank x (by rw [hRest]; rfl)
        refine List.forall_mem_cons.mpr ⟨fits_word hRest (by simp_all [endsCommand, at?, isOperator]), ?_⟩
        split
        · simp
        · exact fits_introduced

theorem at_quote_of_fence {fence : Nat} (h : c.rawFence? = some fence) : (c.skip (1 + fence)).at? '"' = true := by
  rw [← skipWhile_fence h]
  unfold rawFence? at h
  split at h
  · next x rest hRest =>
    have hOpens := (Option.ite_none_right_eq_some.mp h).1
    rw [advance_cons hRest]
    exact (Bool.and_eq_true_iff.mp hOpens).2
  · cases h

theorem fits_pieces {rawOk : Bool} {x : Char} {rest : List Char} (hRest : c.rest = x :: rest) :
    ∀ leg ∈ pieces rawOk x c, leg.Fits 2 := by
  have hne : c.rest ≠ [] := hRest ▸ List.cons_ne_nil x rest
  unfold pieces
  split
  · next fence hFence =>
    have hQuote := at_quote_of_fence (fence_of_ite hFence)
    simpa using ⟨fits_cons hRest, fits_span Nat.zero_lt_two, fits_at hQuote, Nat.one_lt_two, trivial⟩
  · split
    · simpa using ⟨fits_cons hRest, Nat.one_lt_two, trivial⟩
    · split
      · next hEscape => exact List.forall_mem_singleton.mpr (fits_move (room_of_escaping hne hEscape))
      · split
        · exact fits_dollars Nat.zero_lt_two hne
        · exact List.forall_mem_singleton.mpr (fits_cons hRest)

theorem legs_fit (s : Setting) (l : Loop) : ∀ leg ∈ l.legs s, leg.Fits l.rank := by
  cases l with
  | span p c =>
    cases hRest : c.rest with
    | nil => simp [legs, hRest]
    | cons x rest =>
      simp only [legs, hRest]
      split
      · exact List.forall_mem_singleton.mpr (fits_cons hRest)
      · simp
  | gap c =>
    refine List.forall_mem_cons.mpr ⟨fits_span Nat.zero_lt_one, ?_⟩
    split
    · exact List.forall_mem_singleton.mpr (fits_span Nat.zero_lt_one)
    · simp
  | raw start fence c =>
    cases hRest : c.rest with
    | nil => simp [legs, hRest]
    | cons x rest =>
      simp only [legs, hRest]
      split
      · next hClose => exact List.forall_mem_singleton.mpr (fits_move (room_of_closing hRest hClose))
      · exact List.forall_mem_singleton.mpr (fits_cons hRest)
  | quoted start c =>
    cases hRest : c.rest with
    | nil => simp [legs, hRest]
    | cons x rest =>
      simp only [legs, hRest]
      split
      · exact List.forall_mem_singleton.mpr (fits_cons hRest)
      · split
        · next hEscape => exact List.forall_mem_singleton.mpr (fits_move (room_of_escape hRest hEscape))
        · split
          · exact fits_dollars Nat.zero_lt_one (hRest ▸ List.cons_ne_nil x rest)
          · exact List.forall_mem_singleton.mpr (fits_cons hRest)
  | word rawOk c =>
    cases hRest : c.rest with
    | nil => simp [legs, hRest]
    | cons x rest =>
      simp only [legs, hRest]
      split
      · simp
      · exact fits_pieces hRest
  | command first d c =>
    refine List.forall_mem_cons.mpr ⟨fits_span (Nat.zero_lt_succ 2), ?_⟩
    split
    · simp
    · next hEnd =>
      refine fits_parts (fun x hx => ?_) hEnd
      obtain ⟨rest, hRest⟩ := List.head?_eq_some_iff.mp hx
      exact head_skipBlanks hRest
  | pipeline p c =>
    refine List.forall_mem_cons.mpr ⟨⟨Nat.lt_succ_self 3, trivial⟩, ?_⟩
    split
    · simp
    · split
      · next hBar => exact List.forall_mem_singleton.mpr (fits_at (Bool.and_eq_true_iff.mp hBar).1)
      · simp
  | alternatives alts c =>
    refine List.forall_mem_cons.mpr ⟨⟨by simp [rank], trivial⟩,
      List.forall_mem_cons.mpr ⟨⟨Nat.lt_succ_self 4, trivial⟩, ?_⟩⟩
    split
    · simp
    · split
      · next hBars =>
        have hRoom := room_of_fallback (Bool.and_eq_true_iff.mp hBars).1
        exact List.forall_mem_singleton.mpr (fits_move hRoom)
      · simp
  | statements c =>
    refine List.forall_mem_cons.mpr ⟨⟨by simp [rank], trivial⟩, ?_⟩
    split
    · simp
    · refine List.forall_mem_cons.mpr ⟨⟨Nat.lt_succ_self 5, trivial⟩, ?_⟩
      split
      · simp
      · split
        · next hSemicolon => exact List.forall_mem_singleton.mpr (fits_at hSemicolon)
        · simp

theorem ending_reaches {c' : Cursor} (h : l.ending s = .ok c') : l.cursor.Reaches c' := by
  cases l with
  | span p c =>
    cases h
    exact reaches_skipWhile p c
  | gap c =>
    cases h
    exact reaches_skipGap c
  | raw start fence c =>
    rw [ending] at h
    split at h
    · next found hFound =>
      cases h
      exact reaches_rawText hFound
    · cases h
  | quoted start c =>
    obtain ⟨found, hFound, rfl⟩ := map_eq_ok h
    exact reaches_quotedText hFound
  | word rawOk c =>
    obtain ⟨found, hFound, rfl⟩ := map_eq_ok h
    exact reaches_wordFrom hFound
  | command first d c =>
    obtain ⟨found, hFound, rfl⟩ := map_eq_ok h
    exact reaches_commandFrom hFound
  | pipeline p c =>
    obtain ⟨found, hFound, rfl⟩ := map_eq_ok h
    exact reaches_pipelineFrom hFound
  | alternatives alts c =>
    obtain ⟨found, hFound, rfl⟩ := map_eq_ok h
    exact reaches_alternativesFrom hFound
  | statements c =>
    obtain ⟨found, -, rfl⟩ := map_eq_ok h
    exact ⟨c.rest, (List.append_nil _).symm, rfl⟩

theorem stop_reaches {leg : Leg} {c' : Cursor} (hFits : leg.Fits n) (h : leg.stop s = .ok c') :
    leg.start.Reaches c' := by
  cases leg with
  | move count c =>
    cases h
    exact reaches_skip hFits
  | loop l => exact ending_reaches h

theorem reaches_of_chain {K : Except Mistake Cursor → Prop} {legs : List Leg} (hChain : Chain s K c legs)
    (hFits : ∀ leg ∈ legs, leg.Fits n) :
    (∀ leg ∈ legs, c.Reaches leg.start) ∧ ∃ reply, K reply ∧ ∀ c', reply = .ok c' → c.Reaches c' := by
  induction legs generalizing c with
  | nil =>
    refine ⟨nofun, _, hChain, ?_⟩
    rintro c' ⟨⟩
    exact .refl c
  | cons leg legs ih =>
    obtain ⟨rfl, hChain⟩ := hChain
    obtain ⟨hFit, hFits⟩ := List.forall_mem_cons.mp hFits
    cases hStop : leg.stop s with
    | error m =>
      rw [hStop] at hChain
      obtain ⟨rfl, hReply⟩ := hChain
      refine ⟨by simpa using Reaches.refl _, _, hReply, ?_⟩
      rintro c' ⟨⟩
    | ok c₁ =>
      rw [hStop] at hChain
      have hFirst := stop_reaches hFit hStop
      obtain ⟨hLegs, reply, hReply, hReach⟩ := ih hChain hFits
      refine ⟨List.forall_mem_cons.mpr ⟨.refl _, fun leg hLeg => ?_⟩, reply, hReply, fun c' h => ?_⟩
      · exact hFirst.trans (hLegs leg hLeg)
      · exact hFirst.trans (hReach c' h)

theorem legs_reach {leg : Leg} (h : leg ∈ l.legs s) : l.cursor.Reaches leg.start :=
  (reaches_of_chain (legs_chain s l) (legs_fit s l)).1 leg h

theorem leaves_reaches (h : l.round s = .leaves c) : l.cursor.Reaches c := by
  obtain ⟨-, reply, hLed, hReach⟩ := reaches_of_chain (legs_chain s l) (legs_fit s l)
  rw [h] at hLed
  exact hReach c hLed

theorem again_reaches (h : l.round s = .again l') : l.cursor.Reaches l'.cursor := by
  obtain ⟨-, reply, hLed, hReach⟩ := reaches_of_chain (legs_chain s l) (legs_fit s l)
  rw [h] at hLed
  exact hReach _ hLed

/-- A round that goes on passes a character at least. -/
def Round.Passes (c : Cursor) : Round → Prop
  | again l => l.cursor.left < c.left
  | _ => True

theorem Round.passes_after {α : Type} {e : Except Mistake α} {next : α → Round}
    (h : ∀ a, e = .ok a → (next a).Passes c) : (after e next).Passes c := by
  cases e with
  | error m => trivial
  | ok a => exact h a rfl

theorem round_passes (s : Setting) (l : Loop) : (l.round s).Passes l.cursor := by
  cases l with
  | span p c =>
    rw [round]
    split
    · trivial
    · next x rest hRest =>
      split
      · exact left_advance_lt (hRest ▸ List.cons_ne_nil x rest)
      · trivial
  | gap c =>
    rw [round]
    split
    · next hComment => exact left_comment_lt hComment
    · trivial
  | raw start fence c =>
    rw [round]
    split
    · trivial
    · next x rest hRest =>
      split
      · trivial
      · exact left_advance_lt (hRest ▸ List.cons_ne_nil x rest)
  | quoted start c =>
    rw [round]
    split
    · trivial
    · next x rest hRest =>
      have hne : c.rest ≠ [] := hRest ▸ List.cons_ne_nil x rest
      split
      · trivial
      · split
        · exact Nat.lt_of_le_of_lt (left_skip_le 1 _) (left_advance_lt hne)
        · split
          · exact Round.passes_after fun found hOk => left_dollar_lt hne hOk
          · exact left_advance_lt hne
  | word rawOk c =>
    rw [round]
    split
    · trivial
    · next x rest hRest =>
      split
      · trivial
      · exact Round.passes_after fun found hOk => left_piece_lt (hRest ▸ List.cons_ne_nil x rest) hOk
  | command first d c =>
    rw [round]
    split
    · trivial
    · next hEnd => exact Round.passes_after fun found hOk => left_part_lt hEnd hOk
  | pipeline p c =>
    refine Round.passes_after ?_
    rintro ⟨found, c'⟩ hOk
    dsimp only
    split
    · next hBar => exact left_bar_lt hOk hBar
    · trivial
  | alternatives alts c =>
    refine Round.passes_after ?_
    rintro ⟨found, c'⟩ hOk
    dsimp only
    split
    · next hBars =>
      split
      · trivial
      · exact left_bars_lt hOk hBars
    · trivial
  | statements c =>
    rw [round]
    split
    · trivial
    · next hEnd => exact Round.passes_after fun found hOk => left_statements_lt hEnd hOk

theorem again_lt (h : l.round s = .again l') : l'.cursor.left < l.cursor.left := by
  have hPasses := l.round_passes s
  rwa [h] at hPasses

/-- The reading comes from `l` to the next round or to a loop that the round starts. -/
def Visits (s : Setting) (l l' : Loop) : Prop := l.round s = .again l' ∨ loop l' ∈ l.legs s

def header (c : Cursor) : List Leg :=
  let close := c.advance.skipWhile (· ≠ '|')
  move 1 c :: loop (span (· ≠ '|') c.advance) :: if close.rest = [] then [] else [move 1 close]

def outermost (s : Setting) (text : List Char) : List Leg :=
  let c := skipBlanks ⟨.start, text⟩
  loop (span isBlank ⟨.start, text⟩) :: (if c.at? '|' then header c else []) ++
    match s.skipHeader ⟨.start, text⟩ with
    | .error _ => []
    | .ok c' => [loop (statements c')]

def Visited (s : Setting) (text : List Char) (l : Loop) : Prop :=
  ∃ l₀, loop l₀ ∈ outermost s text ∧ Relation.ReflTransGen (Visits s) l₀ l


theorem Visits.reaches (h : Visits s l l') : l.cursor.Reaches l'.cursor :=
  h.elim again_reaches fun hLeg => legs_reach hLeg

theorem wellFounded_visits (s : Setting) : WellFounded fun l' l => Visits s l l' := by
  refine Subrelation.wf ?_ (InvImage.wf (fun l : Loop => (l.cursor.left, l.rank))
    (Prod.lex Nat.lt_wfRel Nat.lt_wfRel).wf)
  -- The next round has fewer characters left. A loop that the round starts may have as many, but is
  -- further within.
  rintro l' l (hAgain | hInner)
  · exact .left _ _ (again_lt hAgain)
  · have hRank := (legs_fit s l _ hInner).1
    rcases Nat.lt_or_eq_of_le (legs_reach hInner).left_le with hLess | hSame
    · exact .left _ _ hLess
    · show Prod.Lex _ _ (l'.cursor.left, l'.rank) (l.cursor.left, l.rank)
      rw [show l'.cursor.left = l.cursor.left from hSame]
      exact .right _ hRank

theorem fits_outermost (s : Setting) (text : List Char) : ∀ leg ∈ outermost s text, leg.Fits 7 := by
  have hBlanks : (loop (span isBlank ⟨.start, text⟩)).Fits 7 := fits_span (Nat.zero_lt_succ 6)
  have hStatements : ∀ leg ∈ match s.skipHeader ⟨.start, text⟩ with
      | .error _ => []
      | .ok c' => [loop (statements c')], leg.Fits 7 := by
    split
    · simp
    · exact List.forall_mem_singleton.mpr ⟨Nat.lt_succ_self 6, trivial⟩
  refine List.forall_mem_append.mpr ⟨List.forall_mem_cons.mpr ⟨hBlanks, ?_⟩, hStatements⟩
  split
  · next hBar =>
    refine List.forall_mem_cons.mpr ⟨fits_at hBar,
      List.forall_mem_cons.mpr ⟨fits_span (Nat.zero_lt_succ 6), ?_⟩⟩
    split
    · simp
    · next hClose => exact List.forall_mem_singleton.mpr (fits_move (List.length_pos_iff.mpr hClose))
  · simp

/-- Where a script has been read, its legs lead to the end of the text. -/
def LedToEnd (s : Setting) (text : String) (reply : Except Mistake Cursor) : Prop :=
  ∀ script, Script.parse s text = .ok script → reply = .ok (toEnd ⟨.start, text.toList⟩)

theorem statements_leads {text : String} (h : s.skipHeader ⟨.start, text.toList⟩ = .ok c) :
    Chain s (LedToEnd s text) c [loop (statements c)] := by
  refine ⟨rfl, ?_⟩
  rw [stop, ending]
  cases hRead : s.statements c with
  | error m =>
    refine ⟨rfl, fun script hScript => ?_⟩
    rw [Script.parse_eq, h] at hScript
    simp [Except.bind, hRead, Except.map] at hScript
  | ok read =>
    intro script hScript
    rw [toEnd_of_reaches (reaches_skipHeader h)]

theorem outermost_chain (s : Setting) (text : String) :
    Chain s (LedToEnd s text) ⟨.start, text.toList⟩ (outermost s text.toList) := by
  unfold outermost
  refine chain_span ?_
  show Chain s _ (skipBlanks ⟨.start, text.toList⟩) _
  obtain ⟨c, hBlanks⟩ : ∃ c, skipBlanks ⟨.start, text.toList⟩ = c := ⟨_, rfl⟩
  have hHeader : s.skipHeader ⟨.start, text.toList⟩ =
      if c.at? '|' then
        if (c.advance.skipWhile (· ≠ '|')).rest = [] then
          .error (s.mistake .unterminatedLiteral c (c.advance.skipWhile (· ≠ '|')).pos.offset [])
        else .ok (c.advance.skipWhile (· ≠ '|')).advance
      else .ok c := by
    rw [skipHeader, hBlanks]
  rw [hBlanks]
  by_cases hBar : c.at? '|' = true
  · rw [if_pos hBar] at hHeader ⊢
    refine chain_move (chain_span ?_)
    show Chain s _ (c.advance.skipWhile (· ≠ '|')) _
    by_cases hEnd : (c.advance.skipWhile (· ≠ '|')).rest = []
    · rw [if_pos hEnd] at hHeader ⊢
      rw [hHeader]
      intro script hScript
      rw [Script.parse_eq, hHeader] at hScript
      cases hScript
    · rw [if_neg hEnd] at hHeader ⊢
      rw [hHeader]
      exact chain_move (statements_leads hHeader)
  · rw [if_neg hBar] at hHeader ⊢
    rw [hHeader]
    exact statements_leads hHeader

theorem Visited.on {text : String} (h : Visited s text.toList l) : l.cursor.On text.toList := by
  obtain ⟨l₀, hOutermost, hVisits⟩ := h
  have hStart := (reaches_of_chain (outermost_chain s text) (fits_outermost s _)).1 _ hOutermost
  induction hVisits with
  | refl => exact hStart
  | tail _ hStep ih => exact ih.trans hStep.reaches

theorem within_of_left {n : Nat} (h : l.cursor.left < n) : l.within s n = some (l.ending s) := by
  induction n generalizing l with
  | zero => cases h
  | succ n ih =>
    rw [within, ending_eq]
    split
    · next c hRound => rw [hRound]; rfl
    · next m hRound => rw [hRound]; rfl
    · next l' hRound =>
      rw [hRound]
      have hLess := again_lt hRound
      exact ih (by omega)

end Loop

namespace Setting

variable {s : Setting} {c c' : Cursor} {x : Char} {rest : List Char}

theorem text_of_bare {rawOk : Bool} {p : Piece} (h : s.piece rawOk x c = .ok (p, c'))
    (hBare : p.bare = true) : p.text = [x] := by
  unfold piece at h
  split at h
  · obtain ⟨found, -, heq⟩ := map_eq_ok h
    cases heq
    cases hBare
  · split at h
    · obtain ⟨found, -, heq⟩ := map_eq_ok h
      cases heq
      cases hBare
    · split at h
      · cases h
        cases hBare
      · split at h
        · obtain ⟨found, -, heq⟩ := map_eq_ok h
          cases heq
          cases hBare
        · cases h
          rfl

theorem word_not_empty {w : Word} (hRest : c.rest = x :: rest) (hx : (isBlank x || isOperator x) = false)
    (h : s.word c = .ok (w, c')) : w.spells "" = false := by
  rw [word, wordFrom_cons hRest, hx] at h
  obtain ⟨⟨p, c₁⟩, hPiece, h⟩ := bind_eq_ok h
  obtain ⟨⟨w₁, c₂⟩, -, heq⟩ := map_eq_ok h
  cases heq
  cases hBare : p.bare with
  | false => simp [Piece.before, Word.spells, Word.isBare, hBare]
  | true => simp [Piece.before, Word.spells, text_of_bare hPiece hBare]

end Setting

namespace Cursor

/-- What is cut out of `text` at `c` lies within it: the fragment of a mistake that begins there, with its
ends clipped to the text, and the name of a variable. -/
structure CutsWithin (s : Setting) (text : List Char) (c : Cursor) : Prop where
  fragment : ∀ kind stop name,
    let first := min c.pos.offset text.length
    let last := min (max stop (first + 1)) text.length
    first ≤ last ∧ last ≤ text.length ∧
      (s.mistake kind c stop name).fragment.toList = (text.drop first).take (last - first)
  name : c.pos.offset ≤ c.name.2.pos.offset ∧ c.name.2.pos.offset ≤ text.length ∧
    c.name.1 = (text.drop c.pos.offset).take (c.name.2.pos.offset - c.pos.offset)

theorem On.cutsWithin {text : List Char} {c : Cursor} (h : c.On text) (s : Setting) :
    c.CutsWithin s text where
  fragment kind stop name := by
    have hLength := h.offset_add_left
    have hFirst : min c.pos.offset text.length = c.pos.offset := by omega
    dsimp only
    refine ⟨by omega, by omega, ?_⟩
    rw [toList_fragment, hFirst, ← h.rest_eq, List.take_eq_take_iff]
    simp only [left] at hLength
    omega
  name := by
    obtain ⟨hRest, hPos⟩ := name_taken c
    have hOffset : c.name.2.pos.offset = c.pos.offset + c.name.1.length := by
      rw [hPos, Position.foldl_next_offset]
    have hLength := h.offset_add_left
    have hTaken := congrArg List.length hRest
    rw [List.length_append] at hTaken
    refine ⟨by omega, by simp only [left] at hLength; omega, ?_⟩
    rw [hOffset, Nat.add_sub_cancel_left, ← h.rest_eq, hRest, List.take_left]

end Cursor

/-- What holds before each round that the reading of `text` comes to. -/
structure Loop.Advances (s : Setting) (text : List Char) (l : Loop) : Prop where
  on_text : l.cursor.On text
  in_bounds : l.cursor.pos.offset ≤ text.length
  legs : Chain s (fun reply => (l.round s).LedBy reply) l.cursor (l.legs s)
  moves : ∀ count c, move count c ∈ l.legs s →
    count ≤ c.left ∧ l.cursor.pos.offset ≤ c.pos.offset ∧ c.pos.offset + count ≤ text.length
  again : ∀ l', l.round s = .again l' →
    l.cursor.pos.offset < l'.cursor.pos.offset ∧ l'.cursor.pos.offset ≤ text.length
  leaves : ∀ c, l.round s = .leaves c → l.cursor.pos.offset ≤ c.pos.offset ∧ c.pos.offset ≤ text.length
  inner : ∀ l', loop l' ∈ l.legs s →
    l.cursor.pos.offset ≤ l'.cursor.pos.offset ∧ l'.cursor.pos.offset ≤ text.length
  words : ∀ rawOk c, loop (word rawOk c) ∈ l.legs s → ∀ w c', s.word c = .ok (w, c') →
    c.pos.offset < c'.pos.offset ∧ w.spells "" = false
  ends : l.within s (text.length - l.cursor.pos.offset + 1) = some (l.ending s)

theorem Loop.advances_of_on {s : Setting} {text : List Char} {l : Loop} (h : l.cursor.On text) :
    l.Advances s text := by
  have hLength := h.offset_add_left
  have hFurther : ∀ {c : Cursor}, l.cursor.Reaches c →
      l.cursor.pos.offset ≤ c.pos.offset ∧ c.pos.offset + c.left = text.length := by
    intro c hReach
    have hLeft := hReach.left_le
    have hThere := (h.reach hReach).offset_add_left
    exact ⟨by omega, hThere⟩
  refine ⟨h, by omega, legs_chain s l, ?_, ?_, ?_, ?_, ?_, ?_⟩
  · intro count c hMove
    have hRoom : count ≤ c.left := legs_fit s l _ hMove
    have hThere := hFurther (legs_reach hMove)
    simp only [Leg.start] at hThere
    exact ⟨hRoom, hThere.1, by omega⟩
  · intro l' hAgain
    have hLess := again_lt hAgain
    have hThere := hFurther (again_reaches hAgain)
    omega
  · intro c hLeaves
    have hThere := hFurther (leaves_reaches hLeaves)
    omega
  · intro l' hInner
    have hThere := hFurther (legs_reach hInner)
    simp only [Leg.start] at hThere
    omega
  · intro rawOk c hInner w c' hWord
    obtain ⟨-, x, rest, hRest, hx⟩ := legs_fit s l _ hInner
    have hReach : l.cursor.Reaches c := legs_reach hInner
    have hStart := hFurther hReach
    have hEnd := hFurther (hReach.trans (reaches_wordFrom hWord))
    have hLess := left_word_lt hRest hx hWord
    exact ⟨by omega, word_not_empty hRest hx hWord⟩
  · exact within_of_left (by omega)

/-- Reading a text ends: it goes through loops within loops, and each of their rounds that goes on moves the
cursor forward on the text. Wherever it moves, the characters that it passes are there. -/
theorem Script.parse_ends (s : Setting) (text : String) :
    (WellFounded fun l' l => Loop.Visits s l l') ∧
      (∀ l, Loop.Visited s text.toList l → l.Advances s text.toList) ∧
      (Chain s (Loop.LedToEnd s text) ⟨.start, text.toList⟩ (Loop.outermost s text.toList) ∧
        ∀ count c, move count c ∈ Loop.outermost s text.toList →
          count ≤ c.left ∧ c.pos.offset + count ≤ text.toList.length) ∧
      (∀ c, Cursor.On text.toList c → c.CutsWithin s text.toList) ∧
      ((∃ m, s.skipHeader ⟨.start, text.toList⟩ = .error m ∧ Script.parse s text = .error m) ∨
        ∃ c, Loop.Visited s text.toList (.statements c) ∧
          (Loop.statements c).within s (text.length + 1) =
            some ((Script.parse s text).map fun _ => c.toEnd)) := by
  have hChain := Loop.outermost_chain s text
  have hFits := Loop.fits_outermost s text.toList
  refine ⟨Loop.wellFounded_visits s, fun l hVisited => Loop.advances_of_on hVisited.on,
    ⟨hChain, fun count c hMove => ?_⟩, fun c hOn => hOn.cutsWithin s, ?_⟩
  · have hRoom : count ≤ c.left := hFits _ hMove
    have hOn : c.On text.toList := (Loop.reaches_of_chain hChain hFits).1 _ hMove
    have hLength := hOn.offset_add_left
    exact ⟨hRoom, by omega⟩
  · cases hHeader : s.skipHeader ⟨.start, text.toList⟩ with
    | error m => exact .inl ⟨m, rfl, by rw [Script.parse_eq, hHeader]; rfl⟩
    | ok c =>
      have hOutermost : loop (.statements c) ∈ Loop.outermost s text.toList := by
        simp [Loop.outermost, hHeader]
      have hVisited : Loop.Visited s text.toList (.statements c) := ⟨_, hOutermost, .refl⟩
      have hLength := hVisited.on.offset_add_left
      refine .inr ⟨c, hVisited, ?_⟩
      rw [Loop.within_of_left, Script.parse_eq, hHeader]
      · show some ((s.statements c).map fun _ => c.toEnd) =
          some (((s.statements c).map Script.mk).map fun _ => c.toEnd)
        rw [Loop.map_map]
        rfl
      · rw [← String.length_toList]
        simp only [Loop.cursor] at hLength ⊢
        omega

end Pipework
