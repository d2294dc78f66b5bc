import Pipework.Proofs.Script.Rounds

/-!
# The legs of a round

On its way a round of reading moves on by some places, or goes through an inner loop. These are its legs,
each listed with the place where it begins, and a round comes to where its legs lead. No leg is left out:
where one ends the next begins.
-/

namespace Pipework

open Cursor Setting

/-- A part of a round: it moves on by `count` places from `c`, or goes through a loop. -/
inductive Leg where
  | move (count : Nat) (c : Cursor)
  | loop (l : Loop)

namespace Leg

def start : Leg → Cursor
  | move _ c => c
  | loop l => l.cursor

def stop (s : Setting) : Leg → Except Mistake Cursor
  | move count c => .ok (c.skip count)
  | loop l => l.ending s

/-- The legs follow each other from `c` on, up to one that fails, and `K` holds of what they come to. -/
def Chain (s : Setting) (K : Except Mistake Cursor → Prop) : (c : Cursor) → List Leg → Prop
  | c, [] => K (.ok c)
  | c, leg :: legs => leg.start = c ∧
    match leg.stop s with
    | .ok c' => Chain s K c' legs
    | .error m => legs = [] ∧ K (.error m)

end Leg

namespace Loop

open Leg

def names (c : Cursor) : List Leg :=
  match c.rest with
  | [] => []
  | x :: _ => if isNameStart x then [loop (span isNameChar c)] else []

def closing (c : Cursor) : List Leg :=
  if c.name.1 != [] && c.name.2.at? '}' then [move 1 c.name.2] else []

def dollars (c : Cursor) : List Leg :=
  move 1 c ::
    if c.advance.at? '$' then [move 1 c.advance]
    else if c.advance.at? '{' then
      move 1 c.advance :: (names c.advance.advance ++ closing c.advance.advance)
    else names c.advance

def targets (c : Cursor) : List Leg :=
  loop (span isBlank c) :: match c.skipBlanks.rest with
    | [] => []
    | x :: _ => if x == '&' || isOperator x then [] else [loop (word true c.skipBlanks)]

def inputs (op : Cursor) : List Leg :=
  move 1 op :: if op.advance.at? '<' || op.advance.at? '&' then [] else targets op.advance

def destinations (c : Cursor) : List Leg :=
  if c.at? '&' then [move 1 c, loop (span Char.isDigit c.advance)] else targets c

def outputs (op : Cursor) : List Leg :=
  move 1 op ::
    if op.advance.at? '>' then move 1 op.advance :: destinations op.advance.advance
    else destinations op.advance

def introduced (w : Word) (c : Cursor) : List Leg :=
  if c.at? '>' && w.spells "&" then outputs c
  else if c.at? '>' && w.isNumber then if isOutput (descriptorOf w.text) then outputs c else []
  else if c.at? '<' && w.isNumber then if descriptorOf w.text == 0 then inputs c else []
  else []

def parts (s : Setting) (c : Cursor) : List Leg :=
  if c.atComment then [loop (span (· ≠ '\n') c)]
  else if c.at? '<' then inputs c
  else if c.at? '>' then outputs c
  else loop (word true c) :: match s.word c with
    | .error _ => []
    | .ok (w, c') => introduced w c'

/-- What a part of a word passes that begins at the character `x`. -/
def pieces (rawOk : Bool) (x : Char) (c : Cursor) : List Leg :=
  match if rawOk then c.rawFence? else none with
  | some fence =>
    [move 1 c, loop (span (· == '#') c.advance), move 1 (c.skip (1 + fence)),
      loop (raw c fence (c.skip (2 + fence)))]
  | none =>
    if x == '"' then [move 1 c, loop (quoted c c.advance)]
    else if x == '\\' && (c.advance.at? '$' || c.advance.at? '"') then [move 2 c]
    else if x == '$' then dollars c
    else [move 1 c]

/-- The legs of one round, in this order. -/
def legs (s : Setting) : Loop → List Leg
  | span p c =>
    match c.rest with
    | [] => []
    | x :: _ => if p x then [move 1 c] else []
  | gap c =>
    loop (span isBlank c) :: if c.skipBlanks.atComment then [loop (span (· ≠ '\n') c.skipBlanks)] else []
  | raw _ fence c =>
    match c.rest with
    | [] => []
    | x :: rest =>
      if x == '"' && (rest.take fence).length == fence && (rest.take fence).all (· == '#') then
        [move (1 + fence) c]
      else [move 1 c]
  | quoted _ c =>
    match c.rest with
    | [] => []
    | x :: rest =>
      if x == '"' then [move 1 c]
      else if x == '\\' && (rest.head? == some '$' || rest.head? == some '"') then [move 2 c]
      else if x == '$' then dollars c
      else [move 1 c]
  | word rawOk c =>
    match c.rest with
    | [] => []
    | x :: _ =>
      if isBlank x || isOperator x then []
      else pieces rawOk x c
  | command _ _ c =>
    loop (span isBlank c) :: if endsCommand c.skipBlanks then [] else parts s c.skipBlanks
  | pipeline p c =>
    loop (command (p.commands == []) .empty c) :: match s.command (p.commands == []) c with
      | .error _ => []
      | .ok (_, c') => if c'.at? '|' && !c'.advance.at? '|' then [move 1 c'] else []
  | alternatives alts c =>
    loop (gap c) :: loop (pipeline ⟨[], false, s.file, s.lineOf c.skipGap.pos⟩ c.skipGap) ::
      match s.pipeline c with
      | .error _ => []
      | .ok (found, c') => if atFallback c' && alts ++ found.toList != [] then [move 2 c'] else []
  | statements c =>
    loop (gap c) :: if c.skipGap.rest = [] then []
      else loop (alternatives [] c.skipGap) :: match s.alternativesFrom [] c.skipGap with
        | .error _ => []
        | .ok (_, c') => if c'.at? ';' then [move 1 c'] else []

/-- What the legs of a round come to: where it leaves off, or where the next round begins. -/
def Round.LedBy (reply : Except Mistake Cursor) : Round → Prop
  | leaves c => reply = .ok c
  | fails _ => True
  | again l => reply = .ok l.cursor

end Loop

namespace Cursor

theorem skip_succ (n : Nat) (c : Cursor) : c.skip (n + 1) = (c.skip n).advance := by
  induction n generalizing c with
  | zero => rfl
  | succ n ih => exact ih c.advance

theorem skipWhile_eq_skip (p : Char → Bool) (c : Cursor) : c.skipWhile p = c.skip (c.rest.takeWhile p).length := by
  obtain ⟨rest, hRest⟩ : ∃ rest, c.rest = rest := ⟨c.rest, rfl⟩
  induction rest generalizing c with
  | nil => rw [skipWhile_nil hRest, hRest]; rfl
  | cons x rest ih =>
    have hAdvance := advance_cons hRest
    cases hx : p x with
    | false => rw [skipWhile_of_neg hRest hx, hRest, List.takeWhile_cons_of_neg (by simp [hx])]; rfl
    | true =>
      rw [skipWhile_of_pos hRest hx, ih c.advance (by rw [hAdvance]), hRest, List.takeWhile_cons_of_pos hx]
      show _ = c.advance.skip _
      rw [hAdvance]

theorem skipWhile_fence {c : Cursor} {fence : Nat} (h : c.rawFence? = some fence) :
    c.advance.skipWhile (· == '#') = c.skip (1 + fence) := by
  unfold rawFence? at h
  split at h
  · next x rest hRest =>
    split at h
    · cases h
      rw [skipWhile_eq_skip, advance_cons hRest, Nat.add_comm, skip, advance_cons hRest]
    · cases h
  · cases h

end Cursor

namespace Leg

open Loop

variable {s : Setting} {K : Except Mistake Cursor → Prop} {c : Cursor}

/-- If reading comes to an end at a place, the legs lead there. -/
def Leads {α : Type} (e : Except Mistake (α × Cursor)) (K : Except Mistake Cursor → Prop) : Prop :=
  ∀ reply, (∀ a c, e = .ok (a, c) → reply = .ok c) → K reply

theorem Leads.error {α : Type} {e : Except Mistake (α × Cursor)} {m : Mistake} (h : Leads e K) (he : e = .error m)
    (reply : Except Mistake Cursor) : K reply :=
  h reply fun a c hOk => by rw [he] at hOk; cases hOk

theorem Leads.ok {α : Type} {e : Except Mistake (α × Cursor)} {a : α} (h : Leads e K) (he : e = .ok (a, c)) :
    K (.ok c) :=
  h _ fun a' c' hOk => by rw [he] at hOk; cases hOk; rfl

theorem Leads.map {α β : Type} {e : Except Mistake (α × Cursor)} {f : α × Cursor → β × Cursor}
    (h : Leads (e.map f) K) (hf : ∀ found, (f found).2 = found.2) : Leads e K := by
  refine fun reply hReply => h reply fun b c hOk => ?_
  obtain ⟨found, hFound, hSame⟩ := map_eq_ok hOk
  rw [hReply found.1 found.2 hFound, ← hf found, hSame]

theorem chain_move {count : Nat} {legs : List Leg} (h : Chain s K (c.skip count) legs) :
    Chain s K c (move count c :: legs) := ⟨rfl, h⟩

theorem chain_span {p : Char → Bool} {legs : List Leg} (h : Chain s K (c.skipWhile p) legs) :
    Chain s K c (loop (span p c) :: legs) := ⟨rfl, h⟩

/-- A loop of reading is gone through, and the rest of the legs is the reading from there. -/
theorem chain_loop {α : Type} {l : Loop} {e : Except Mistake (α × Cursor)} (hEnding : l.ending s = e.map Prod.snd)
    (hStart : l.cursor = c) {legs : List Leg} (hError : ∀ m, e = .error m → legs = [] ∧ K (.error m))
    (hOk : ∀ a c', e = .ok (a, c') → Chain s K c' legs) : Chain s K c (loop l :: legs) := by
  refine ⟨hStart, ?_⟩
  rw [stop, hEnding]
  cases e with
  | error m => exact hError m rfl
  | ok found => exact hOk found.1 found.2 rfl

theorem names_chain {legs : List Leg} (h : Chain s K c.name.2 legs) : Chain s K c (names c ++ legs) := by
  unfold names Cursor.name at *
  cases hRest : c.rest with
  | nil =>
    simp only [hRest] at h
    exact h
  | cons x rest =>
    simp only [hRest] at h
    dsimp only
    split
    · next hx =>
      rw [if_pos hx] at h
      exact chain_span h
    · next hx =>
      rw [if_neg hx] at h
      exact h

theorem dollars_chain (h : Leads (s.dollar c) K) : Chain s K c (dollars c) := by
  have hResolved {start stop : Cursor} {name : List Char}
      (hDollar : s.dollar c = s.resolve start stop name) : K (.ok stop) := by
    refine h _ fun value c' hOk => ?_
    rw [hDollar] at hOk
    rw [resolve_eq_ok hOk]
  unfold Setting.dollar at hResolved h
  dsimp only at hResolved h
  refine chain_move ?_
  show Chain s K c.advance _
  by_cases hDollar : c.advance.at? '$' = true
  · rw [if_pos hDollar] at h ⊢
    exact chain_move (h.ok rfl)
  · rw [if_neg hDollar] at h hResolved ⊢
    by_cases hBrace : c.advance.at? '{' = true
    · rw [if_pos hBrace] at h hResolved ⊢
      refine chain_move (names_chain ?_)
      unfold closing
      by_cases hClose : (c.advance.advance.name.1 != [] && c.advance.advance.name.2.at? '}') = true
      · rw [if_pos hClose] at hResolved ⊢
        exact chain_move (hResolved rfl)
      · rw [if_neg hClose] at h ⊢
        exact h.error rfl _
    · rw [if_neg hBrace] at h hResolved ⊢
      rw [← List.append_nil (names c.advance)]
      refine names_chain ?_
      by_cases hName : (c.advance.name.1 != []) = true
      · rw [if_pos hName] at hResolved
        exact hResolved rfl
      · rw [if_neg hName] at h
        have hNothing : c.advance.name.1 = [] := by simpa using hName
        obtain ⟨hRest, hPos⟩ := name_taken c.advance
        rw [hNothing] at hRest hPos
        have hSame : c.advance.name.2 = c.advance := congrArg₂ Cursor.mk hPos hRest.symm
        show K _
        rw [hSame]
        exact h.ok rfl

theorem targets_chain {op : Cursor} (h : Leads (s.target op c) K) : Chain s K c (targets c) := by
  refine chain_span ?_
  show Chain s K c.skipBlanks _
  cases hRest : c.skipBlanks.rest with
  | nil =>
    rw [target_nil hRest] at h
    exact h.error rfl _
  | cons x rest =>
    rw [target_cons hRest] at h
    dsimp only
    by_cases hAnd : (x == '&') = true
    · rw [if_pos hAnd] at h
      rw [if_pos (by simp [hAnd])]
      exact h.error rfl _
    · rw [if_neg hAnd] at h
      by_cases hOperator : isOperator x = true
      · rw [if_pos hOperator] at h
        rw [if_pos (by simp [hOperator])]
        exact h.error rfl _
      · rw [if_neg hOperator] at h
        rw [if_neg (by simp_all)]
        refine chain_loop (e := s.word c.skipBlanks) rfl rfl (fun m hWord => ?_) fun w c' hWord => ?_
        · rw [hWord] at h
          exact ⟨rfl, h.error rfl _⟩
        · rw [hWord] at h
          dsimp only [Except.bind] at h
          split at h
          · exact h.error rfl _
          · exact h.ok rfl

theorem inputs_chain {op : Cursor} (h : Leads (s.redirectInput op) K) : Chain s K op (inputs op) := by
  rw [redirectInput_eq] at h
  refine chain_move ?_
  show Chain s K op.advance _
  split
  · next hBad =>
    rw [if_pos hBad] at h
    exact h.error rfl _
  · next hGood =>
    rw [if_neg hGood] at h
    exact targets_chain (h.map fun _ => rfl)

theorem outputs_chain {fd : Nat} {both : Bool} {op : Cursor} (h : Leads (s.redirectOutput fd both op) K) :
    Chain s K op (outputs op) := by
  rw [redirectOutput_eq] at h
  have hDestinations : Chain s K (afterOutput op) (destinations (afterOutput op)) := by
    unfold destinations
    split
    · next hAnd =>
      rw [if_pos hAnd] at h
      refine chain_move (chain_span ?_)
      dsimp only at h
      split at h
      · exact h.error rfl _
      · split at h
        · exact h.ok rfl
        · exact h.error rfl _
    · next hOther =>
      rw [if_neg hOther] at h
      exact targets_chain (h.map fun _ => rfl)
  refine chain_move ?_
  show Chain s K op.advance _
  unfold afterOutput at hDestinations
  split
  · next hAppend =>
    rw [if_pos hAppend] at hDestinations
    exact chain_move hDestinations
  · next hPlain =>
    rw [if_neg hPlain] at hDestinations
    exact hDestinations

theorem introduced_chain {first : Bool} {d : Draft} {start : Cursor} {w : Word}
    (h : Leads (s.takeWord first d start w c) K) : Chain s K c (introduced w c) := by
  unfold Setting.takeWord at h
  dsimp only at h
  unfold introduced
  split
  · next hBoth =>
    rw [if_pos hBoth] at h
    exact outputs_chain (h.map fun _ => rfl)
  · next hBoth =>
    rw [if_neg hBoth] at h
    split
    · next hOut =>
      rw [if_pos hOut] at h
      split
      · next hFd =>
        rw [if_pos hFd] at h
        exact outputs_chain (h.map fun _ => rfl)
      · next hFd =>
        rw [if_neg hFd] at h
        exact h.error rfl _
    · next hOut =>
      rw [if_neg hOut] at h
      split
      · next hIn =>
        rw [if_pos hIn] at h
        split
        · next hFd =>
          rw [if_pos hFd] at h
          exact inputs_chain (h.map fun _ => rfl)
        · next hFd =>
          rw [if_neg hFd] at h
          exact h.error rfl _
      · next hIn =>
        rw [if_neg hIn] at h
        exact h.ok rfl

theorem parts_chain {first : Bool} {d : Draft} (h : Leads (s.commandPart first d c) K) :
    Chain s K c (parts s c) := by
  rw [commandPart_eq] at h
  unfold parts
  split
  · next hComment =>
    rw [if_pos hComment] at h
    exact chain_span (h.ok rfl)
  · next hComment =>
    rw [if_neg hComment] at h
    split
    · next hIn =>
      rw [if_pos hIn] at h
      exact inputs_chain (h.map fun _ => rfl)
    · next hIn =>
      rw [if_neg hIn] at h
      split
      · next hOut =>
        rw [if_pos hOut] at h
        exact outputs_chain (h.map fun _ => rfl)
      · next hOut =>
        rw [if_neg hOut] at h
        refine chain_loop (e := s.word c) rfl rfl (fun m hWord => ?_) fun w c' hWord => ?_
        · rw [hWord] at h ⊢
          exact ⟨rfl, h.error rfl _⟩
        · rw [hWord] at h ⊢
          exact introduced_chain h

theorem rawText_ending (s : Setting) (start : Cursor) (fence : Nat) (c : Cursor) :
    (raw start fence c).ending s = ((match c.rawText fence with
      | some found => .ok found
      | none => .error (s.mistake .unterminatedLiteral start (start.pos.offset + start.left) [])) :
        Except Mistake (List Char × Cursor)).map Prod.snd := by
  rw [Loop.ending]
  cases c.rawText fence <;> rfl

theorem pieces_chain {rawOk : Bool} {x : Char} (h : Leads (s.piece rawOk x c) K) :
    Chain s K c (pieces rawOk x c) := by
  unfold Setting.piece at h
  unfold pieces
  split
  · next fence hFence =>
    rw [hFence] at h
    have hText : Leads (s.raw fence c) K := Leads.map h fun _ => rfl
    refine chain_move (chain_span ?_)
    show Chain s K (c.advance.skipWhile (· == '#')) _
    rw [skipWhile_fence (fence_of_ite hFence)]
    have hOpened : (c.skip (1 + fence)).advance = c.skip (2 + fence) := by
      rw [← skip_succ, Nat.add_right_comm]
    refine chain_move ?_
    show Chain s K (c.skip (1 + fence)).advance _
    rw [hOpened]
    refine chain_loop (rawText_ending s c fence _) rfl (fun m hRaw => ?_) fun text c' hRaw => ?_
    · exact ⟨rfl, hText.error hRaw _⟩
    · exact hText.ok hRaw
  · next hFence =>
    rw [hFence] at h
    dsimp only at h
    split
    · next hQuote =>
      rw [if_pos hQuote] at h
      have hText : Leads (s.quotedText c c.advance) K := Leads.map h fun _ => rfl
      refine chain_move (chain_loop rfl rfl (fun m hQuoted => ?_) fun text c' hQuoted => ?_)
      · exact ⟨rfl, hText.error hQuoted _⟩
      · exact hText.ok hQuoted
    · next hQuote =>
      rw [if_neg hQuote] at h
      split
      · next hEscape =>
        rw [if_pos hEscape] at h
        exact chain_move (h.ok rfl)
      · next hEscape =>
        rw [if_neg hEscape] at h
        split
        · next hDollar =>
          rw [if_pos hDollar] at h
          exact dollars_chain (h.map fun _ => rfl)
        · next hDollar =>
          rw [if_neg hDollar] at h
          exact chain_move (h.ok rfl)

/-- A round that goes on with what was read is led by legs that lead there. -/
theorem ledBy_after {α : Type} {e : Except Mistake (α × Cursor)} {next : α × Cursor → Round}
    (h : ∀ a c, e = .ok (a, c) → Round.LedBy (.ok c) (next (a, c))) :
    Leads e fun reply => Round.LedBy reply (.after e next) := by
  intro reply hReply
  cases hFound : e with
  | error m => trivial
  | ok found =>
    rw [hReply found.1 found.2 hFound]
    exact h found.1 found.2 hFound

end Leg

namespace Loop

open Leg

theorem command_of_draft {s : Setting} {first : Bool} {d : Draft} {c c' : Cursor}
    (h : s.commandFrom first .empty c = .ok (d, c')) :
    (∃ m, s.command first c = .error m) ∨ ∃ found, s.command first c = .ok (found, c') := by
  rw [command_eq, h]
  dsimp only [Except.bind]
  split
  · exact .inr ⟨_, rfl⟩
  · split
    · exact .inl ⟨_, rfl⟩
    · exact .inr ⟨_, rfl⟩

theorem pipeline_chain (s : Setting) (p : Pipeline) (c : Cursor) :
    Chain s (fun reply => (round s (pipeline p c)).LedBy reply) c (legs s (pipeline p c)) := by
  simp only [legs, round]
  refine chain_loop (e := s.commandFrom (p.commands == []) .empty c) rfl rfl (fun m hDraft => ?_) fun d c' hDraft => ?_
  · have hCommand : s.command (p.commands == []) c = .error m := by rw [command_eq, hDraft]; rfl
    rw [hCommand]
    exact ⟨rfl, trivial⟩
  · rcases command_of_draft hDraft with ⟨m, hCommand⟩ | ⟨found, hCommand⟩
    · rw [hCommand]
      exact trivial
    · rw [hCommand]
      simp only [Round.after]
      split
      · exact chain_move rfl
      · exact rfl

theorem alternatives_chain (s : Setting) (alts : List Pipeline) (c : Cursor) :
    Chain s (fun reply => (round s (alternatives alts c)).LedBy reply) c (legs s (alternatives alts c)) := by
  simp only [legs, round]
  refine ⟨rfl, chain_loop (e := s.pipelineFrom _ c.skipGap) rfl rfl (fun m hPipeline => ?_)
    fun p c' hPipeline => ?_⟩
  · have hOne : s.pipeline c = .error m := by rw [pipeline_eq, hPipeline]; rfl
    rw [hOne]
    exact ⟨rfl, trivial⟩
  · have hOne : s.pipeline c = .ok (if p.commands == [] then none else some p, c') := by
      rw [pipeline_eq, hPipeline]; rfl
    rw [hOne]
    simp only [Round.after]
    generalize alts ++ _ = found
    by_cases hBars : atFallback c' = true
    · rw [if_pos hBars]
      by_cases hNone : (found == []) = true
      · rw [if_pos hNone, if_neg (by simp_all)]
        exact trivial
      · rw [if_neg hNone, if_pos (by simp_all)]
        exact chain_move rfl
    · rw [if_neg hBars, if_neg (by simp_all)]
      exact rfl

theorem statements_chain (s : Setting) (c : Cursor) :
    Chain s (fun reply => (round s (statements c)).LedBy reply) c (legs s (statements c)) := by
  simp only [legs, round]
  refine ⟨rfl, ?_⟩
  show Chain s _ c.skipGap _
  split
  · exact rfl
  · refine chain_loop (e := s.alternativesFrom [] c.skipGap) rfl rfl (fun m hAlternatives => ?_)
      fun alts c' hAlternatives => ?_
    · rw [statement_eq, hAlternatives]
      exact ⟨rfl, trivial⟩
    · rw [statement_eq, hAlternatives]
      simp only [Round.after, Except.map]
      split
      · exact chain_move rfl
      · exact rfl

theorem legs_chain (s : Setting) (l : Loop) : Chain s (fun reply => (l.round s).LedBy reply) l.cursor (l.legs s) := by
  cases l with
  | span p c =>
    cases hRest : c.rest with
    | nil =>
      simp only [legs, round, hRest]
      exact rfl
    | cons x rest =>
      simp only [legs, round, hRest]
      split
      · exact chain_move rfl
      · exact rfl
  | gap c =>
    refine chain_span ?_
    simp only [round]
    show Chain s _ c.skipBlanks _
    split
    · exact chain_span rfl
    · exact rfl
  | raw start fence c =>
    cases hRest : c.rest with
    | nil =>
      simp only [legs, round, hRest]
      exact trivial
    | cons x rest =>
      simp only [legs, round, hRest]
      split
      · exact chain_move rfl
      · exact chain_move rfl
  | quoted start c =>
    cases hRest : c.rest with
    | nil =>
      simp only [legs, round, hRest]
      exact trivial
    | cons x rest =>
      simp only [legs, round, hRest]
      split
      · exact chain_move rfl
      · split
        · exact chain_move rfl
        · split
          · exact dollars_chain (ledBy_after fun value c' hOk => rfl)
          · exact chain_move rfl
  | word rawOk c =>
    cases hRest : c.rest with
    | nil =>
      simp only [legs, round, hRest]
      exact rfl
    | cons x rest =>
      simp only [legs, round, hRest]
      split
      · exact rfl
      · exact pieces_chain (ledBy_after fun p c' hOk => rfl)
  | command first d c =>
    refine chain_span ?_
    simp only [round]
    show Chain s _ c.skipBlanks _
    split
    · exact rfl
    · exact parts_chain (ledBy_after fun d' c' hOk => rfl)
  | pipeline p c => exact pipeline_chain s p c
  | alternatives alts c => exact alternatives_chain s alts c
  | statements c => exact statements_chain s c

end Loop

end Pipework
