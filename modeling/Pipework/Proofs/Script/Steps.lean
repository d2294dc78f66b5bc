import Pipework.Script.Parse

/-!
# The steps of reading

Each part of a script is read by reading smaller parts one after the other. The equations below say
so with `Except.bind` and `Except.map`, without the bookkeeping that shows that reading ends. What is
true of every reading is proved from them part by part.
-/

namespace Pipework

open Cursor

/-- Results of reading can be compared, which lets a reading of a fixed text be checked. -/
instance decidableEqExcept {ε α : Type} [DecidableEq ε] [DecidableEq α] : DecidableEq (Except ε α)
  | .ok a, .ok b => decidable_of_iff (a = b) (Except.ok.injEq a b ▸ Iff.rfl)
  | .error m, .error n => decidable_of_iff (m = n) (Except.error.injEq m n ▸ Iff.rfl)
  | .ok _, .error _ => isFalse (by simp)
  | .error _, .ok _ => isFalse (by simp)

theorem bind_eq_ok {ε α β : Type} {e : Except ε α} {f : α → Except ε β} {b : β}
    (h : e.bind f = .ok b) : ∃ a, e = .ok a ∧ f a = .ok b := by
  cases e with
  | error m => cases h
  | ok a => exact ⟨a, rfl, h⟩

namespace Cursor

theorem advance_cons {c : Cursor} {x : Char} {rest : List Char} (h : c.rest = x :: rest) :
    c.advance = ⟨c.pos.next x, rest⟩ := by
  rw [advance, h]

theorem skipWhile_nil {p : Char → Bool} {c : Cursor} (h : c.rest = []) : c.skipWhile p = c := by
  obtain ⟨pos, rest⟩ := c
  cases h
  rfl

theorem skipWhile_of_pos {p : Char → Bool} {c : Cursor} {x : Char} {rest : List Char}
    (h : c.rest = x :: rest) (hx : p x = true) : c.skipWhile p = c.advance.skipWhile p := by
  simp [skipWhile, span, advance, h, hx]

theorem skipWhile_of_neg {p : Char → Bool} {c : Cursor} {x : Char} {rest : List Char}
    (h : c.rest = x :: rest) (hx : p x = false) : c.skipWhile p = c := by
  obtain ⟨pos, rest⟩ := c
  cases h
  simp [skipWhile, span, hx]

theorem exists_cons_of_at {c : Cursor} {x : Char} (h : c.at? x = true) : ∃ rest, c.rest = x :: rest := by
  cases hRest : c.rest with
  | nil => simp [at?, hRest] at h
  | cons y rest =>
    obtain rfl : y = x := by simpa [at?, hRest] using h
    exact ⟨rest, rfl⟩

theorem atComment_of_semicolon {c : Cursor} (h : c.at? ';' = true) : c.atComment = false := by
  obtain ⟨rest, hRest⟩ := exists_cons_of_at h
  simp [atComment, hRest]

theorem skipWhile_skipWhile (p : Char → Bool) (c : Cursor) : (c.skipWhile p).skipWhile p = c.skipWhile p := by
  cases hRest : (c.skipWhile p).rest with
  | nil => exact skipWhile_nil hRest
  | cons x rest =>
    have hDrop : c.rest.dropWhile p = x :: rest := hRest
    have hx := List.head_dropWhile_not p (l := c.rest) (by simp [hDrop])
    simp only [hDrop, List.head_cons] at hx
    exact skipWhile_of_neg hRest hx

theorem skipBlanks_of_end {c : Cursor} (h : c.rest = [] ∨ c.at? ';' = true) : c.skipBlanks = c := by
  rcases h with hNil | hSemicolon
  · exact skipWhile_nil hNil
  · obtain ⟨rest, hRest⟩ := exists_cons_of_at hSemicolon
    exact skipWhile_of_neg hRest (by decide)

theorem at_bar_of_end {c : Cursor} (h : c.rest = [] ∨ c.at? ';' = true) : c.at? '|' = false := by
  rcases h with hNil | hSemicolon
  · simp [at?, hNil]
  · obtain ⟨rest, hRest⟩ := exists_cons_of_at hSemicolon
    simp [at?, hRest]

theorem skipGap_of_comment {c : Cursor} (h : c.skipBlanks.atComment = true) :
    c.skipGap = c.skipBlanks.skipComment.skipGap := by
  rw [skipGap, if_pos h]

theorem skipGap_of_other {c : Cursor} (h : c.skipBlanks.atComment = false) :
    c.skipGap = c.skipBlanks := by
  rw [skipGap, h]
  rfl

theorem left_comment_lt {c : Cursor} (h : c.skipBlanks.atComment = true) :
    c.skipBlanks.skipComment.left < c.left :=
  Nat.lt_of_lt_of_le (left_skipComment_lt h) (left_skipWhile_le _ _)

theorem rawText_nil {fence : Nat} {c : Cursor} (h : c.rest = []) : c.rawText fence = none := by
  rw [rawText]
  split
  · rfl
  · simp_all

theorem rawText_cons {fence : Nat} {c : Cursor} {x : Char} {rest : List Char}
    (h : c.rest = x :: rest) :
    c.rawText fence =
      if x == '"' && (rest.take fence).length == fence && (rest.take fence).all (· == '#') then
        some ([], c.skip (1 + fence))
      else (c.advance.rawText fence).map fun (text, c') => (x :: text, c') := by
  rw [rawText]
  split
  · simp_all
  · next y ys hy =>
    obtain ⟨rfl, rfl⟩ : y = x ∧ ys = rest := by simp_all
    rfl

end Cursor

namespace Setting

theorem quotedText_nil {s : Setting} {start c : Cursor} (h : c.rest = []) :
    s.quotedText start c = .error (s.mistake .unterminatedLiteral start c.pos.offset []) := by
  rw [quotedText]
  split
  · rfl
  · simp_all

theorem quotedText_cons {s : Setting} {start c : Cursor} {x : Char} {rest : List Char}
    (h : c.rest = x :: rest) :
    s.quotedText start c =
      if x == '"' then .ok ([], c.advance)
      else if x == '\\' && (rest.head? == some '$' || rest.head? == some '"') then
        (s.quotedText start (c.skip 2)).map fun (text, c') => (rest.take 1 ++ text, c')
      else if x == '$' then
        (s.dollar c).bind fun (value, c₁) =>
          (s.quotedText start c₁).map fun (text, c') => (value ++ text, c')
      else (s.quotedText start c.advance).map fun (text, c') => (x :: text, c') := by
  rw [quotedText]
  split
  · simp_all
  · next y ys hy =>
    obtain ⟨rfl, rfl⟩ : y = x ∧ ys = rest := by simp_all
    congr 1
    congr 1
    · cases s.quotedText start (c.skip 2) <;> rfl
    congr 1
    · cases s.dollar c with
      | error m => rfl
      | ok found =>
        obtain ⟨value, c₁⟩ := found
        dsimp only [Except.bind]
        cases s.quotedText start c₁ <;> rfl
    · cases s.quotedText start c.advance <;> rfl

theorem wordFrom_nil {s : Setting} {rawOk : Bool} {c : Cursor} (h : c.rest = []) :
    s.wordFrom rawOk c = .ok (⟨[], none⟩, c) := by
  rw [wordFrom]
  split
  · rfl
  · simp_all

theorem wordFrom_cons {s : Setting} {rawOk : Bool} {c : Cursor} {x : Char} {rest : List Char}
    (h : c.rest = x :: rest) :
    s.wordFrom rawOk c =
      if isBlank x || isOperator x then .ok (⟨[], none⟩, c)
      else (s.piece rawOk x c).bind fun (p, c₁) =>
        (s.wordFrom p.rawNext c₁).map fun (w, c') => (p.before w, c') := by
  rw [wordFrom]
  split
  · simp_all
  · next y ys hy =>
    obtain ⟨rfl, rfl⟩ : y = x ∧ ys = rest := by simp_all
    congr 1
    cases s.piece rawOk y c with
    | error m => rfl
    | ok found =>
      obtain ⟨p, c₁⟩ := found
      dsimp only [Except.bind]
      cases s.wordFrom p.rawNext c₁ <;> rfl

theorem target_nil {s : Setting} {op c : Cursor} (h : c.skipBlanks.rest = []) :
    s.target op c = .error (s.mistake .badRedirection op c.skipBlanks.pos.offset []) := by
  simp only [target, h]

theorem target_cons {s : Setting} {op c : Cursor} {x : Char} {rest : List Char}
    (h : c.skipBlanks.rest = x :: rest) :
    s.target op c =
      if x == '&' then
        .error (s.mistake .unexpectedToken c.skipBlanks (c.skipBlanks.pos.offset + 1) [])
      else if isOperator x then
        .error (s.mistake .badRedirection op (c.skipBlanks.pos.offset + 1) [])
      else (s.word c.skipBlanks).bind fun (w, c') =>
        if w.text = [] then .error (s.mistake .badRedirection op c'.pos.offset [])
        else .ok (Target.ofPath (String.ofList w.text), c') := by
  simp only [target, h]
  congr 2
  cases s.word c.skipBlanks <;> rfl

theorem redirectInput_eq (s : Setting) (op : Cursor) :
    s.redirectInput op =
      if op.advance.at? '<' || op.advance.at? '&' then
        .error (s.mistake .badRedirection op (op.advance.pos.offset + 1) [])
      else (s.target op op.advance).map fun (t, c) => ([⟨0, t, false⟩], c) := by
  rw [redirectInput]
  cases s.target op op.advance <;> rfl

/-- Where the target of a redirection of output begins whose operator begins at `op`. -/
def afterOutput (op : Cursor) : Cursor :=
  if op.advance.at? '>' then op.advance.advance else op.advance

/-- The redirection to `t` of the descriptor `fd`, or with `both` those of both outputs. -/
def outputTo (fd : Nat) (both append : Bool) (t : Target) : List Redirection :=
  if both then [⟨2, t, append && t != .null⟩, ⟨1, .fd 2, false⟩] else [⟨fd, t, append && t != .null⟩]

theorem redirectOutput_eq (s : Setting) (fd : Nat) (both : Bool) (op : Cursor) :
    s.redirectOutput fd both op =
      if (afterOutput op).at? '&' then
        let digits := ((afterOutput op).advance.span Char.isDigit).1
        let stop := ((afterOutput op).advance.span Char.isDigit).2
        if both || op.advance.at? '>' || digits == [] then
          .error (s.mistake .badRedirection op stop.pos.offset [])
        else if isOutput (descriptorOf digits) then
          .ok ([⟨fd, .fd (descriptorOf digits), false⟩], stop)
        else .error (s.mistake .unsupportedDescriptor op stop.pos.offset [])
      else (s.target op (afterOutput op)).map fun (t, c) =>
        (outputTo fd both (op.advance.at? '>') t, c) := by
  rw [redirectOutput, afterOutput]
  dsimp only
  congr 1
  generalize s.target op _ = found
  cases found with
  | error m => rfl
  | ok found => cases both <;> rfl

theorem commandPart_eq (s : Setting) (first : Bool) (d : Draft) (c : Cursor) :
    s.commandPart first d c =
      if c.atComment then .ok (d, c.skipComment)
      else if c.at? '<' then (s.redirectInput c).map fun (rs, c') => (d.addRedirections rs, c')
      else if c.at? '>' then
        (s.redirectOutput 1 false c).map fun (rs, c') => (d.addRedirections rs, c')
      else (s.word c).bind fun (w, c') => s.takeWord first d c w c' := by
  rw [commandPart]
  cases s.word c <;> rfl

theorem commandFrom_eq (s : Setting) (first : Bool) (d : Draft) (c : Cursor) :
    s.commandFrom first d c =
      if endsCommand c.skipBlanks then .ok (d, c.skipBlanks)
      else (s.commandPart first d c.skipBlanks).bind fun (d', c') => s.commandFrom first d' c' := by
  rw [commandFrom]
  dsimp only
  split
  · rfl
  · cases s.commandPart first d c.skipBlanks <;> rfl

theorem left_part_lt {s : Setting} {first : Bool} {d d' : Draft} {c c' : Cursor}
    (hEnd : ¬endsCommand c.skipBlanks = true)
    (h : s.commandPart first d c.skipBlanks = .ok (d', c')) : c'.left < c.left :=
  Nat.lt_of_lt_of_le (left_commandPart_lt (by simpa using hEnd) h) (left_skipWhile_le _ _)

theorem command_eq (s : Setting) (first : Bool) (start : Cursor) :
    s.command first start =
      (s.commandFrom first .empty start).bind fun (d, c) =>
        if d.command.args != [] then .ok (some (d.command, d.ignore), c)
        else if d.isStarted then .error (s.mistake .unexpectedToken start c.pos.offset [])
        else .ok (none, c) := by
  rw [command]
  cases s.commandFrom first .empty start <;> rfl

/-- The pipeline `p` with one more command, if one was found. -/
def extended (p : Pipeline) : Option (Command × Bool) → Pipeline
  | some (command, ignore) =>
    { p with commands := p.commands ++ [command], ignore := p.ignore || ignore }
  | none => p

theorem pipelineFrom_eq (s : Setting) (p : Pipeline) (start : Cursor) :
    s.pipelineFrom p start =
      (s.command (p.commands == []) start).bind fun (found, c) =>
        if c.at? '|' && !c.advance.at? '|' then s.pipelineFrom (extended p found) c.advance
        else .ok (extended p found, c) := by
  rw [pipelineFrom]
  split
  · next m hc =>
    rw [hc]
    rfl
  · next found c hc =>
    -- The match on `found` carries the equation `hc`, so it is reduced before `hc` is used.
    cases found with
    | none =>
      dsimp only
      rw [hc]
      rfl
    | some found =>
      dsimp only
      rw [hc]
      rfl

theorem commandFrom_of_end {s : Setting} {first : Bool} (d : Draft) {c : Cursor}
    (h : c.rest = [] ∨ c.at? ';' = true) : s.commandFrom first d c = .ok (d, c) := by
  have hEnds : endsCommand c = true := by
    rcases h with hNil | hSemicolon
    · simp [endsCommand, hNil]
    · simp [endsCommand, hSemicolon]
  rw [commandFrom_eq, skipBlanks_of_end h, if_pos hEnds]

theorem command_of_end {s : Setting} {first : Bool} {c : Cursor} (h : c.rest = [] ∨ c.at? ';' = true) :
    s.command first c = .ok (none, c) := by
  rw [command_eq, commandFrom_of_end _ h]
  rfl

theorem pipelineFrom_of_end {s : Setting} (p : Pipeline) {c : Cursor} (h : c.rest = [] ∨ c.at? ';' = true) :
    s.pipelineFrom p c = .ok (p, c) := by
  rw [pipelineFrom_eq, command_of_end h]
  simp only [Except.bind, at_bar_of_end h, Bool.false_and, Bool.false_eq_true, if_false]
  rfl

theorem left_bar_lt {s : Setting} {first : Bool} {c c' : Cursor} {found : Option (Command × Bool)}
    (h : s.command first c = .ok (found, c')) (hBar : (c'.at? '|' && !c'.advance.at? '|') = true) :
    c'.advance.left < c.left :=
  Nat.lt_of_lt_of_le (left_advance_lt (rest_ne_nil_of_at (Bool.and_eq_true_iff.mp hBar).1))
    (command_ok h).1

theorem pipeline_eq (s : Setting) (start : Cursor) :
    s.pipeline start =
      (s.pipelineFrom ⟨[], false, s.file, s.lineOf start.skipGap.pos⟩ start.skipGap).map
        fun (p, c) => (if p.commands == [] then none else some p, c) := by
  rw [pipeline]
  generalize s.pipelineFrom _ _ = found
  cases found <;> rfl

theorem alternativesFrom_eq (s : Setting) (alts : List Pipeline) (start : Cursor) :
    s.alternativesFrom alts start =
      (s.pipeline start).bind fun (found, c) =>
        if atFallback c then
          if alts ++ found.toList == [] then
            .error (s.mistake .unexpectedToken c (c.pos.offset + 2) [])
          else s.alternativesFrom (alts ++ found.toList) (c.skip 2)
        else .ok (alts ++ found.toList, c) := by
  rw [alternativesFrom]
  cases s.pipeline start with
  | error m => rfl
  | ok found =>
    dsimp only [Except.bind]
    split <;> rfl

theorem left_bars_lt {s : Setting} {c c' : Cursor} {found : Option Pipeline}
    (h : s.pipeline c = .ok (found, c')) (hBars : atFallback c' = true) :
    (c'.skip 2).left < c.left :=
  Nat.lt_of_lt_of_le (Nat.lt_of_le_of_lt (left_skip_le 1 c'.advance)
    (left_advance_lt (rest_ne_nil_of_at (Bool.and_eq_true_iff.mp hBars).1))) (pipeline_ok h).1

/-- The statement with the alternatives `alts`, if there are any. -/
def ofAlternatives? : List Pipeline → Option Statement
  | [] => none
  | first :: fallbacks => some ⟨first, fallbacks⟩

theorem statement_eq (s : Setting) (start : Cursor) :
    s.statement start =
      (s.alternativesFrom [] start).map fun (alts, c) =>
        (ofAlternatives? alts, if c.at? ';' then c.advance else c) := by
  rw [statement]
  cases s.alternativesFrom [] start with
  | error m => rfl
  | ok found =>
    obtain ⟨alts, c⟩ := found
    cases alts <;> rfl

theorem statements_eq (s : Setting) (start : Cursor) :
    s.statements start =
      if start.skipGap.rest = [] then .ok []
      else (s.statement start.skipGap).bind fun (found, c) =>
        (s.statements c).map (found.toList ++ ·) := by
  rw [statements]
  dsimp only
  split
  · rfl
  · cases s.statement start.skipGap with
    | error m => rfl
    | ok found =>
      obtain ⟨found, c⟩ := found
      dsimp only [Except.bind]
      cases s.statements c <;> rfl

theorem statements_nil {s : Setting} {c : Cursor} (h : c.rest = []) : s.statements c = .ok [] := by
  have hEnd : c.skipGap.rest = [] := by
    have hLess := left_skipGap_le c
    simpa [left, h] using hLess
  rw [statements_eq, if_pos hEnd]

theorem left_statements_lt {s : Setting} {c c' : Cursor} {found : Option Statement}
    (hEnd : ¬c.skipGap.rest = []) (h : s.statement c.skipGap = .ok (found, c')) : c'.left < c.left :=
  Nat.lt_of_lt_of_le (left_statement_lt hEnd h) (left_skipGap_le c)

end Setting

theorem Script.parse_eq (s : Setting) (text : String) :
    Script.parse s text =
      (s.skipHeader ⟨.start, text.toList⟩).bind fun c => (s.statements c).map Script.mk := by
  rw [Script.parse]
  cases s.skipHeader ⟨.start, text.toList⟩ <;> rfl

namespace Setting

theorem statements_congr (s : Setting) {c c' : Cursor} (h : c.skipBlanks = c'.skipBlanks) :
    s.statements c = s.statements c' := by
  have hGap : c.skipGap = c'.skipGap := by
    unfold skipGap
    rw [h]
  rw [statements_eq, statements_eq, hGap]

theorem skipHeader_of_other (s : Setting) {c : Cursor} (h : c.skipBlanks.at? '|' = false) :
    s.skipHeader c = .ok c.skipBlanks := by
  simp [skipHeader, h]

end Setting

theorem Script.parse_of_other (s : Setting) {text : String}
    (h : (text.toList.dropWhile isBlank).head? ≠ some '|') :
    Script.parse s text = (s.statements ⟨.start, text.toList⟩).map Script.mk := by
  have hHeader : (skipBlanks ⟨.start, text.toList⟩).at? '|' = false := by
    simpa [at?, skipBlanks, skipWhile, span] using h
  have hStatements : s.statements (skipBlanks ⟨.start, text.toList⟩) = s.statements ⟨.start, text.toList⟩ :=
    s.statements_congr (skipWhile_skipWhile _ _)
  rw [Script.parse_eq, s.skipHeader_of_other hHeader, ← hStatements]
  rfl

end Pipework
