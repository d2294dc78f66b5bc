import Mathlib.Data.List.TakeDrop
import Pipework.Proofs.Script.Pairing.Basic

/-!
# Paired words

Where a word has bare text, both readings have the same text; from its first other part on, the texts
are similar. Hence whatever a command decides by a word, it decides alike in both readings.
-/

namespace Pipework

open Cursor Setting

/-- Two words with the same bare text in front and similar texts after it. -/
inductive Word.Alike (Similar : List Char → List Char → Prop) : Word → Word → Prop
  | bare (text : List Char) : Alike Similar ⟨text, none⟩ ⟨text, none⟩
  | mixed (bare : List Char) {text₁ text₂ : List Char} (h : Similar text₁ text₂) :
    Alike Similar ⟨bare ++ text₁, some bare.length⟩ ⟨bare ++ text₂, some bare.length⟩

namespace Word

/-- Without a bare `=` the name would have to end beyond the bare text, where it is refused. -/
theorem assignment?_append_of_no_equals {bare : List Char} (text : List Char)
    (hEq : bare.dropWhile (· ≠ '=') = []) : (⟨bare ++ text, some bare.length⟩ : Word).assignment? = none := by
  have hTake : bare.takeWhile (· ≠ '=') = bare := by
    have hSplit := List.takeWhile_append_dropWhile (p := (· ≠ '=')) (l := bare)
    rwa [hEq, List.append_nil] at hSplit
  have hName : (bare ++ text).takeWhile (· ≠ '=') = bare ++ text.takeWhile (· ≠ '=') := by
    rw [List.takeWhile_append, if_pos (by rw [hTake])]
  have hLong : ∀ first name, bare ++ text.takeWhile (· ≠ '=') = first :: name →
      ¬name.length + 1 < bare.length := by
    intro first name hCons
    have := congrArg List.length hCons
    simp only [List.length_append, List.length_cons] at this
    omega
  simp only [assignment?, List.span_eq_takeWhile_dropWhile, hName]
  split
  · next first name eq value hPair =>
    obtain ⟨hFirst, -⟩ := Prod.mk.inj hPair
    simp [hLong first name hFirst]
  · rfl

theorem assignment?_append (bare text : List Char) :
    (⟨bare ++ text, some bare.length⟩ : Word).assignment? =
      (⟨bare, none⟩ : Word).assignment?.map fun (key, value) => (key, value ++ String.ofList text) := by
  by_cases hEq : bare.dropWhile (· ≠ '=') = []
  · have hBare : (⟨bare, none⟩ : Word).assignment? = none := by
      simp only [assignment?, List.span_eq_takeWhile_dropWhile, hEq]
      cases bare.takeWhile (· ≠ '=') <;> rfl
    rw [assignment?_append_of_no_equals text hEq, hBare]
    rfl
  · obtain ⟨hTake, hDrop⟩ := @takeWhile_append_stop (· ≠ '=') bare text (.inl hEq)
    simp only [assignment?, List.span_eq_takeWhile_dropWhile]
    rw [hTake, hDrop]
    obtain ⟨y, more, hMore⟩ := List.exists_cons_of_ne_nil hEq
    have hLength := congrArg List.length (List.takeWhile_append_dropWhile (p := (· ≠ '=')) (l := bare))
    rw [hMore] at hLength ⊢
    cases hName : bare.takeWhile (· ≠ '=') with
    | nil => rfl
    | cons first name =>
      have hShort : name.length + 1 < bare.length := by
        simp only [hName, List.length_append, List.length_cons] at hLength
        omega
      simp only [List.cons_append, hShort, decide_true]
      split
      · simp
      · rfl

theorem Alike.spells {Similar : List Char → List Char → Prop} {w₁ w₂ : Word} (h : w₁.Alike Similar w₂)
    (text : String) : w₁.spells text = w₂.spells text := by
  cases h <;> rfl

theorem Alike.isNumber {Similar : List Char → List Char → Prop} {w₁ w₂ : Word} (h : w₁.Alike Similar w₂) :
    w₁.isNumber = w₂.isNumber := by
  cases h <;> rfl

theorem Alike.text_eq {Similar : List Char → List Char → Prop} {w₁ w₂ : Word} (h : w₁.Alike Similar w₂)
    (hNumber : w₁.isNumber = true) : w₁.text = w₂.text := by
  cases h with
  | bare text => rfl
  | mixed bare h => cases hNumber

end Word

structure Setting.Piece.Alike (Similar : List Char → List Char → Prop) (p₁ p₂ : Piece) : Prop where
  bare : p₁.bare = p₂.bare
  rawNext : p₁.rawNext = p₂.rawNext
  text_eq : p₁.bare = true → p₁.text = p₂.text
  text_similar : Similar p₁.text p₂.text

namespace Pairing

variable {s₁ s₂ : Setting} (P : Pairing s₁ s₂)

theorem rest_lift_cons {c : Cursor} {x : Char} {rest : List Char} (h : c.rest = x :: rest) :
    (P.lift c).rest = x :: (rest ++ P.tail) := by
  rw [rest_lift, h]
  rfl

theorem rawFence?_lift (c : Cursor) : (P.lift c).rawFence? = c.rawFence? := by
  obtain ⟨pos, rest⟩ := c
  cases rest with
  | nil =>
    cases hTail : P.tail with
    | nil => simp [rawFence?, lift, hTail]
    | cons y tail =>
      have hy : (y == 'r' || y == 'b') = false :=
        P.stops_head (p := fun y => y == 'r' || y == 'b') (by decide) y (by simp [hTail])
      simp [rawFence?, lift, hTail, hy]
  | cons x rest =>
    have hHash : ∀ y ∈ P.tail.head?, (y == '#') = false := P.stops_head (p := (· == '#')) (by decide)
    obtain ⟨hTake, hDrop⟩ := takeWhile_append_stop (l := rest) (.inr hHash)
    have hQuote : ((rest.dropWhile (· == '#') ++ P.tail).head? == some '"') =
        ((rest.dropWhile (· == '#')).head? == some '"') := by
      cases rest.dropWhile (· == '#') with
      | cons y more => rfl
      | nil =>
        have := P.stops_head (p := (· == '"')) (by decide)
        cases hTail : P.tail with
        | nil => rfl
        | cons y tail => simpa [hTail] using this
    simp only [rawFence?, rest_lift, List.cons_append, hTake, hDrop, hQuote]

theorem closes_append (fence : Nat) (rest : List Char) :
    (((rest ++ P.tail).take fence).length == fence && ((rest ++ P.tail).take fence).all (· == '#')) =
      ((rest.take fence).length == fence && (rest.take fence).all (· == '#')) := by
  induction fence generalizing rest with
  | zero => simp
  | succ fence ih =>
    cases rest with
    | nil =>
      cases hTail : P.tail with
      | nil => simp
      | cons y tail =>
        have hy := P.stops_head (p := (· == '#')) (by decide) y (by simp [hTail])
        simp only [beq_eq_false_iff_ne] at hy
        simp [hy]
    | cons x rest =>
      have h := ih rest
      simp only [List.cons_append, List.take_succ_cons, List.length_cons, List.all_cons] at h ⊢
      grind

theorem rawText_lift {fence : Nat} (c : Cursor) (h : (c.rawText fence).isSome ∨ P.tail = []) :
    (P.lift c).rawText fence = (c.rawText fence).map fun (text, c') => (text, P.lift c') := by
  fun_induction rawText fence c with
  | case1 c hRest =>
    have hNil : P.tail = [] := by simpa using h
    rw [rawText_nil (by simp [hRest, hNil])]
    rfl
  | case2 c x rest hRest hClose =>
    have hLength : 1 + fence ≤ c.left := by
      simp only [Bool.and_eq_true, beq_iff_eq, List.length_take] at hClose
      simp only [left, hRest, List.length_cons]
      omega
    rw [rawText_cons (P.rest_lift_cons hRest), Bool.and_assoc,
      P.closes_append, ← Bool.and_assoc, if_pos hClose, P.skip_lift hLength]
    rfl
  | case3 c x rest hRest hClose ih =>
    have hMore : (c.advance.rawText fence).isSome ∨ P.tail = [] := by simpa using h
    rw [rawText_cons (P.rest_lift_cons hRest), Bool.and_assoc,
      P.closes_append, ← Bool.and_assoc, if_neg hClose, P.advance_lift (by simp [hRest]), ih hMore]
    cases c.advance.rawText fence <;> rfl

theorem rawText_lift_none {fence : Nat} (c : Cursor) (hTail : P.tail = ['\n'])
    (h : c.rawText fence = none) : (P.lift c).rawText fence = none := by
  fun_induction rawText fence c with
  | case1 c hRest =>
    have hRest₂ : (P.lift c).rest = ['\n'] := by simp [hRest, hTail]
    rw [rawText_cons hRest₂, if_neg (by simp), rawText_nil (by rw [advance_cons hRest₂])]
    rfl
  | case2 c x rest hRest hClose => cases h
  | case3 c x rest hRest hClose ih =>
    rw [rawText_cons (P.rest_lift_cons hRest), Bool.and_assoc, P.closes_append, ← Bool.and_assoc,
      if_neg hClose, P.advance_lift (by simp [hRest]), ih (Option.map_eq_none_iff.mp h)]
    rfl

/-- What two readings of a part of a word have in common. -/
def TextAlike (a b : List Char × Cursor) : Prop := P.Similar a.1 b.1 ∧ b.2 = P.lift a.2

theorem raw_agree {fence : Nat} (c : Cursor) (h : 2 + fence ≤ c.left) :
    P.Agree P.TextAlike (s₁.raw fence c) (s₂.raw fence (P.lift c)) := by
  unfold raw
  rw [P.skip_lift h]
  cases hText : (c.skip (2 + fence)).rawText fence with
  | some found =>
    rw [P.rawText_lift _ (.inl (by simp [hText])), hText]
    exact .ok ⟨P.similar_refl _, rfl⟩
  | none =>
    rcases P.stops with hNil | ⟨-, hExcused⟩
    · rw [P.rawText_lift _ (.inr hNil), hText]
      exact P.agree_mistake _ _ _ (by simp [left, hNil, Position.moved, Nat.add_right_comm])
    · refine .excused (hExcused _) fun hEnds => ?_
      rw [P.rawText_lift_none _ hEnds.1 hText]
      exact ⟨_, rfl⟩

theorem resolve_agree (start stop : Cursor) (name : List Char) :
    P.Agree P.TextAlike (s₁.resolve start stop name) (s₂.resolve (P.lift start) (P.lift stop) name) := by
  unfold resolve
  rcases P.values (String.ofList name) with hRel | ⟨hNone, hExcused⟩
  · revert hRel
    generalize s₁.symbols.find? (String.ofList name) = v₁
    generalize s₂.symbols.find? (String.ofList name) = v₂
    intro hRel
    cases hRel with
    | some h => exact .ok ⟨h, rfl⟩
    | none => exact P.agree_mistake _ _ _ rfl
  · rw [hNone]
    refine .excused (hExcused _ rfl rfl) fun hEnds => ?_
    rw [hEnds.2 _ hNone]
    exact ⟨_, rfl⟩

theorem dollar_agree (c : Cursor) (h : c.rest ≠ []) :
    P.Agree P.TextAlike (s₁.dollar c) (s₂.dollar (P.lift c)) := by
  unfold dollar
  rw [P.advance_lift h]
  generalize c.advance = d
  dsimp only
  rw [P.at?_lift d (by decide), P.at?_lift d (by decide), P.name_lift]
  split
  · next hDollar =>
    rw [P.advance_lift (rest_ne_nil_of_at hDollar)]
    exact .ok ⟨P.similar_refl _, rfl⟩
  · split
    · next hBrace =>
      rw [P.advance_lift (rest_ne_nil_of_at hBrace), P.name_lift]
      dsimp only
      rw [P.at?_lift _ (by decide)]
      split
      · next hName =>
        have hClose := (Bool.and_eq_true_iff.mp hName).2
        rw [P.advance_lift (rest_ne_nil_of_at hClose)]
        exact P.resolve_agree _ _ _
      · exact P.agree_mistake _ _ _ (by simp [Position.moved, Nat.add_right_comm])
    · split
      · exact P.resolve_agree _ _ _
      · exact .ok ⟨P.similar_refl _, rfl⟩

theorem quotedText_agree (start c : Cursor) :
    P.Agree P.TextAlike (s₁.quotedText start c) (s₂.quotedText (P.lift start) (P.lift c)) := by
  cases hRest : c.rest with
  | nil =>
    rcases P.stops with hNil | ⟨-, hExcused⟩
    · rw [quotedText_nil hRest, quotedText_nil (by simp [hRest, hNil])]
      exact P.agree_mistake _ _ _ rfl
    · rw [quotedText_nil hRest]
      refine .excused (hExcused _) fun hEnds => ?_
      have hRest₂ : (P.lift c).rest = ['\n'] := by simp [hRest, hEnds.1]
      rw [quotedText_cons hRest₂, quotedText_nil (c := (P.lift c).advance) (by rw [advance_cons hRest₂])]
      exact ⟨_, rfl⟩
  | cons x rest =>
    have hne : c.rest ≠ [] := by simp [hRest]
    have hHead : ∀ y, y ≠ '\n' → ((rest ++ P.tail).head? == some y) = (rest.head? == some y) := by
      intro y hy
      have hAt := P.at?_lift ⟨c.pos, rest⟩ hy
      exact hAt
    have hAdvance : c.advance.left < c.left := left_advance_lt hne
    rw [quotedText_cons hRest, quotedText_cons (P.rest_lift_cons hRest), P.advance_lift hne,
      hHead '$' (by decide), hHead '"' (by decide)]
    split
    · exact .ok ⟨P.similar_refl _, rfl⟩
    · split
      · next hEscape =>
        obtain ⟨y, more, rfl⟩ : ∃ y more, rest = y :: more := by
          cases rest with
          | nil => simp at hEscape
          | cons y more => exact ⟨y, more, rfl⟩
        have hSkip : (c.skip 2).left < c.left := Nat.lt_of_le_of_lt (left_skip_le 1 _) hAdvance
        rw [P.skip_lift (by simp [left, hRest])]
        refine (quotedText_agree start (c.skip 2)).map ?_
        rintro ⟨text₁, c₁⟩ ⟨text₂, c₂⟩ - ⟨hText, hCursor⟩
        exact ⟨P.similar_append (P.similar_refl [y]) hText, hCursor⟩
      · split
        · refine (P.dollar_agree c hne).bind ?_
          rintro ⟨value₁, c₁⟩ ⟨value₂, c₂⟩ hOk ⟨hValue, rfl⟩
          have hDollar : c₁.left < c.left := left_dollar_lt hne hOk
          refine (quotedText_agree start c₁).map ?_
          rintro ⟨text₁, d₁⟩ ⟨text₂, d₂⟩ - ⟨hText, hCursor⟩
          exact ⟨P.similar_append hValue hText, hCursor⟩
        · refine (quotedText_agree start c.advance).map ?_
          rintro ⟨text₁, c₁⟩ ⟨text₂, c₂⟩ - ⟨hText, hCursor⟩
          exact ⟨P.similar_append (P.similar_refl [x]) hText, hCursor⟩
termination_by c.left

theorem le_left_of_rawFence? {c : Cursor} {fence : Nat} (h : c.rawFence? = some fence) :
    2 + fence ≤ c.left := by
  unfold rawFence? at h
  split at h
  · next x rest hRest =>
    obtain ⟨hOpen, hFence⟩ := Option.ite_none_right_eq_some.mp h
    simp only [Bool.and_eq_true, beq_iff_eq] at hOpen
    have hDrop : 0 < (rest.dropWhile (· == '#')).length := by
      rw [List.length_pos_iff]
      intro hNil
      simp [hNil] at hOpen
    have hSplit := congrArg List.length
      (List.takeWhile_append_dropWhile : rest.takeWhile (· == '#') ++ rest.dropWhile (· == '#') = rest)
    cases hFence
    simp only [left, hRest, List.length_cons, List.length_append] at hSplit ⊢
    omega
  · cases h

def PieceAlike (a b : Piece × Cursor) : Prop := a.1.Alike P.Similar b.1 ∧ b.2 = P.lift a.2

theorem piece_agree (rawOk : Bool) {x : Char} {c : Cursor} {rest : List Char} (hRest : c.rest = x :: rest) :
    P.Agree P.PieceAlike (s₁.piece rawOk x c) (s₂.piece rawOk x (P.lift c)) := by
  have hne : c.rest ≠ [] := by simp [hRest]
  unfold piece
  rw [P.rawFence?_lift, P.advance_lift hne, P.at?_lift _ (by decide), P.at?_lift _ (by decide)]
  split
  · next fence hFence =>
    have hLeft : 2 + fence ≤ c.left := by
      cases rawOk with
      | true => exact le_left_of_rawFence? hFence
      | false => cases hFence
    refine (P.raw_agree c hLeft).map ?_
    rintro ⟨text₁, c₁⟩ ⟨text₂, c₂⟩ - ⟨hText, hCursor⟩
    exact ⟨⟨rfl, rfl, fun hBare => absurd hBare Bool.false_ne_true, hText⟩, hCursor⟩
  · split
    · refine (P.quotedText_agree c c.advance).map ?_
      rintro ⟨text₁, c₁⟩ ⟨text₂, c₂⟩ - ⟨hText, hCursor⟩
      exact ⟨⟨rfl, rfl, fun hBare => absurd hBare Bool.false_ne_true, hText⟩, hCursor⟩
    · split
      · next hEscape =>
        obtain ⟨y, more, hMore⟩ : ∃ y more, c.advance.rest = y :: more := by
          cases hMore : c.advance.rest with
          | nil => simp [at?, hMore] at hEscape
          | cons y more => exact ⟨y, more, rfl⟩
        have hLeft : 2 ≤ c.left := by
          have := left_advance_lt hne
          simp only [left, hMore, List.length_cons] at this
          simp only [left]
          omega
        rw [P.skip_lift hLeft, rest_lift, hMore]
        exact .ok ⟨⟨rfl, rfl, fun hBare => absurd hBare Bool.false_ne_true, P.similar_refl _⟩, rfl⟩
      · split
        · refine (P.dollar_agree c hne).map ?_
          rintro ⟨text₁, c₁⟩ ⟨text₂, c₂⟩ - ⟨hText, hCursor⟩
          exact ⟨⟨rfl, rfl, fun hBare => absurd hBare Bool.false_ne_true, hText⟩, hCursor⟩
        · exact .ok ⟨⟨rfl, rfl, fun _ => rfl, P.similar_refl _⟩, rfl⟩

theorem before_alike {p₁ p₂ : Piece} {w₁ w₂ : Word} (hp : p₁.Alike P.Similar p₂)
    (hw : w₁.Alike P.Similar w₂) : (p₁.before w₁).Alike P.Similar (p₂.before w₂) := by
  obtain ⟨text₁, bare, rawNext⟩ := p₁
  obtain ⟨text₂, bare₂, rawNext₂⟩ := p₂
  obtain ⟨rfl, rfl, hEq, hSimilar⟩ := hp
  cases bare with
  | false =>
    cases hw with
    | bare text => exact .mixed [] (P.similar_append hSimilar (P.similar_refl text))
    | mixed front h =>
      exact .mixed [] (P.similar_append hSimilar (P.similar_append (P.similar_refl front) h))
  | true =>
    obtain rfl : text₁ = text₂ := hEq rfl
    cases hw with
    | bare text => exact .bare (text₁ ++ text)
    | mixed front h =>
      have hAlike := Word.Alike.mixed (text₁ ++ front) h
      simpa [Piece.before, List.append_assoc, Nat.add_comm] using hAlike

def WordAlike (a b : Word × Cursor) : Prop := a.1.Alike P.Similar b.1 ∧ b.2 = P.lift a.2

theorem wordFrom_agree (rawOk : Bool) (c : Cursor) :
    P.Agree P.WordAlike (s₁.wordFrom rawOk c) (s₂.wordFrom rawOk (P.lift c)) := by
  cases hRest : c.rest with
  | nil =>
    rw [wordFrom_nil hRest]
    cases hTail : P.tail with
    | nil =>
      rw [wordFrom_nil (by simp [hRest, hTail])]
      exact .ok ⟨.bare [], rfl⟩
    | cons y tail =>
      -- The second text goes on with a line end, which ends the word there too.
      have hy : isBlank y = true := by
        have := P.stops_head (p := fun y => !isBlank y) (by decide) y (by simp [hTail])
        simpa using this
      have hRest₂ : (P.lift c).rest = y :: tail := by simp [hRest, hTail]
      rw [wordFrom_cons hRest₂, if_pos (by simp [hy])]
      exact .ok ⟨.bare [], rfl⟩
  | cons x rest =>
    rw [wordFrom_cons hRest, wordFrom_cons (P.rest_lift_cons hRest)]
    split
    · exact .ok ⟨.bare [], rfl⟩
    · refine (P.piece_agree rawOk hRest).bind ?_
      rintro ⟨p₁, c₁⟩ ⟨p₂, c₂⟩ hOk ⟨hPiece, rfl⟩
      have hLess : c₁.left < c.left := left_piece_lt (by simp [hRest]) hOk
      dsimp only
      rw [← hPiece.rawNext]
      refine (wordFrom_agree p₁.rawNext c₁).map ?_
      rintro ⟨w₁, d₁⟩ ⟨w₂, d₂⟩ - ⟨hWord, hCursor⟩
      exact ⟨P.before_alike hPiece hWord, hCursor⟩
termination_by c.left

theorem text_similar {w₁ w₂ : Word} (h : w₁.Alike P.Similar w₂) : P.Similar w₁.text w₂.text := by
  cases h with
  | bare text => exact P.similar_refl text
  | mixed bare h => exact P.similar_append (P.similar_refl bare) h

theorem assignment?_alike {w₁ w₂ : Word} (h : w₁.Alike P.Similar w₂) :
    Option.Rel (fun a b => a.1 = b.1 ∧ P.Similar a.2.toList b.2.toList) w₁.assignment? w₂.assignment? := by
  cases h with
  | bare text =>
    cases (⟨text, none⟩ : Word).assignment? with
    | none => exact .none
    | some entry => exact .some ⟨rfl, P.similar_refl _⟩
  | mixed bare h =>
    rw [Word.assignment?_append, Word.assignment?_append]
    cases (⟨bare, none⟩ : Word).assignment? with
    | none => exact .none
    | some entry =>
      refine .some ⟨rfl, ?_⟩
      simpa using P.similar_append (P.similar_refl entry.2.toList) h

theorem word_agree (c : Cursor) : P.Agree P.WordAlike (s₁.word c) (s₂.word (P.lift c)) :=
  P.wordFrom_agree true c

end Pairing

end Pipework
