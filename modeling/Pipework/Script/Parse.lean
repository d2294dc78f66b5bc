import Pipework.Script.Basic
import Pipework.Script.Word
import Pipework.Text.Utf8

/-!
# Reading a script

A script is read from left to right, without going back. Every loop below passes at least one
character each time round, which is what makes reading end; the lemmas named `left_..._le` and
`left_..._lt` say by how much each part moves the cursor.
-/

namespace Pipework

namespace Setting

open Cursor

def target (s : Setting) (op start : Cursor) : Except Mistake (Target × Cursor) :=
  let c := start.skipBlanks
  match c.rest with
  | [] => .error (s.mistake .badRedirection op c.pos.offset [])
  | x :: _ =>
    if x == '&' then .error (s.mistake .unexpectedToken c (c.pos.offset + 1) [])
    else if isOperator x then .error (s.mistake .badRedirection op (c.pos.offset + 1) [])
    else match s.word c with
      | .error m => .error m
      | .ok (w, c') =>
        if w.text = [] then .error (s.mistake .badRedirection op c'.pos.offset [])
        else .ok (Target.ofPath (String.ofList w.text), c')

def redirectInput (s : Setting) (op : Cursor) : Except Mistake (List Redirection × Cursor) :=
  let c := op.advance
  if c.at? '<' || c.at? '&' then .error (s.mistake .badRedirection op (c.pos.offset + 1) [])
  else match s.target op c with
    | .error m => .error m
    | .ok (t, c') => .ok ([⟨0, t, false⟩], c')

def isOutput (fd : Nat) : Bool := fd == 1 || fd == 2

/-- The redirection of output that begins here: that of the descriptor `fd`, or with `both` that of
both outputs, which sends errors to the target and output after them. -/
def redirectOutput (s : Setting) (fd : Nat) (both : Bool) (op : Cursor) :
    Except Mistake (List Redirection × Cursor) :=
  let c₀ := op.advance
  let append := c₀.at? '>'
  let c := if append then c₀.advance else c₀
  if c.at? '&' then
    let (digits, stop) := c.advance.span Char.isDigit
    if both || append || digits == [] then
      .error (s.mistake .badRedirection op stop.pos.offset [])
    else if isOutput (descriptorOf digits) then
      .ok ([⟨fd, .fd (descriptorOf digits), false⟩], stop)
    else .error (s.mistake .unsupportedDescriptor op stop.pos.offset [])
  else match s.target op c with
    | .error m => .error m
    | .ok (t, c') =>
      let toFile := append && t != .null
      if both then .ok ([⟨2, t, toFile⟩, ⟨1, .fd 2, false⟩], c')
      else .ok ([⟨fd, t, toFile⟩], c')

theorem left_target_le {s : Setting} {op c c' : Cursor} {t : Target}
    (h : s.target op c = .ok (t, c')) : c'.left ≤ c.left := by
  unfold target at h
  simp only at h
  split at h
  · simp at h
  · split at h
    · simp at h
    · split at h
      · simp at h
      · split at h
        · simp at h
        · next w d hw =>
          split at h
          · simp at h
          · simp only [Except.ok.injEq, Prod.mk.injEq] at h
            exact h.2 ▸ Nat.le_trans (left_wordFrom_le hw) (left_skipWhile_le _ _)

theorem left_redirectInput_lt {s : Setting} {c c' : Cursor} {rs : List Redirection}
    (hne : c.rest ≠ []) (h : s.redirectInput c = .ok (rs, c')) : c'.left < c.left := by
  unfold redirectInput at h
  simp only at h
  split at h
  · simp at h
  · split at h
    · simp at h
    · next t d ht =>
      simp only [Except.ok.injEq, Prod.mk.injEq] at h
      exact h.2 ▸ Nat.lt_of_le_of_lt (left_target_le ht) (left_advance_lt hne)

theorem left_redirectOutput_lt {s : Setting} {fd : Nat} {both : Bool} {c c' : Cursor}
    {rs : List Redirection} (hne : c.rest ≠ []) (h : s.redirectOutput fd both c = .ok (rs, c')) :
    c'.left < c.left := by
  have hc : (if c.advance.at? '>' then c.advance.advance else c.advance).left ≤ c.advance.left := by
    split
    · exact left_advance_le _
    · exact Nat.le_refl _
  refine Nat.lt_of_le_of_lt (Nat.le_trans ?_ hc) (left_advance_lt hne)
  unfold redirectOutput at h
  simp only at h
  generalize (if c.advance.at? '>' then c.advance.advance else c.advance) = d₀ at h hc ⊢
  split at h
  · split at h
    · simp at h
    · split at h
      · simp only [Except.ok.injEq, Prod.mk.injEq] at h
        exact h.2 ▸ Nat.le_trans (left_span_le _ _) (left_advance_le _)
      · simp at h
  · split at h
    · simp at h
    · next t d ht =>
      have hd := left_target_le ht
      split at h
      all_goals
        simp only [Except.ok.injEq, Prod.mk.injEq] at h
        exact h.2 ▸ hd

structure Draft where
  command : Command
  ignore : Bool

namespace Draft

def empty : Draft := ⟨⟨[], [], []⟩, false⟩

def addArg (d : Draft) (arg : String) : Draft :=
  { d with command := { d.command with args := d.command.args ++ [arg] } }

def addAssignment (d : Draft) (key value : String) : Draft :=
  { d with command := { d.command with env := d.command.env.insert key value } }

def addRedirections (d : Draft) (rs : List Redirection) : Draft :=
  { d with command := { d.command with redirections := d.command.redirections ++ rs } }

/-- Takes the word `w`, which no redirection follows. The word `ignore` counts only at the very
start of the first command of a pipeline, and assignments only in front of the arguments. -/
def addWord (first : Bool) (d : Draft) (w : Word) : Draft :=
  if w.spells "" then d
  else if d.command.args != [] then d.addArg (String.ofList w.text)
  else if first && !d.ignore && d.command.env == [] && w.spells "ignore" then
    { d with ignore := true }
  else match w.assignment? with
    | some (key, value) => d.addAssignment key value
    | none => d.addArg (String.ofList w.text)

def isStarted (d : Draft) : Bool :=
  d.ignore || d.command.env != [] || d.command.redirections != []

end Draft

def takeWord (s : Setting) (first : Bool) (d : Draft) (start : Cursor) (w : Word) (c : Cursor) :
    Except Mistake (Draft × Cursor) :=
  let redirected (r : Except Mistake (List Redirection × Cursor)) :=
    r.map fun (rs, c') => (d.addRedirections rs, c')
  if c.at? '>' && w.spells "&" then redirected (s.redirectOutput 2 true c)
  else if c.at? '>' && w.isNumber then
    if isOutput (descriptorOf w.text) then
      redirected (s.redirectOutput (descriptorOf w.text) false c)
    else .error (s.mistake .unsupportedDescriptor start (c.pos.offset + 1) [])
  else if c.at? '<' && w.isNumber then
    if descriptorOf w.text == 0 then redirected (s.redirectInput c)
    else .error (s.mistake .unsupportedDescriptor start (c.pos.offset + 1) [])
  else .ok (d.addWord first w, c)

theorem left_takeWord_le {s : Setting} {first : Bool} {d d' : Draft} {start c c' : Cursor}
    {w : Word} (h : s.takeWord first d start w c = .ok (d', c')) : c'.left ≤ c.left := by
  have hin : ∀ {x : Char}, c.at? x = true → ∀ {r : Except Mistake (List Redirection × Cursor)},
      (∀ rs c₁, r = .ok (rs, c₁) → c.rest ≠ [] → c₁.left < c.left) →
      (r.map fun (rs, c') => (d.addRedirections rs, c')) = .ok (d', c') → c'.left ≤ c.left := by
    intro x hx r hr h
    obtain ⟨⟨rs, c₁⟩, hok, heq⟩ := map_eq_ok h
    simp only [Prod.mk.injEq] at heq
    exact heq.2 ▸ Nat.le_of_lt (hr rs c₁ hok (rest_ne_nil_of_at hx))
  unfold takeWord at h
  simp only at h
  split at h
  · next hc =>
    exact hin (Bool.and_eq_true_iff.mp hc).1 (fun rs c₁ hok hne => left_redirectOutput_lt hne hok) h
  · split at h
    · next hc =>
      split at h
      · exact hin (Bool.and_eq_true_iff.mp hc).1
          (fun rs c₁ hok hne => left_redirectOutput_lt hne hok) h
      · simp at h
    · split at h
      · next hc =>
        split at h
        · exact hin (Bool.and_eq_true_iff.mp hc).1
            (fun rs c₁ hok hne => left_redirectInput_lt hne hok) h
        · simp at h
      · simp only [Except.ok.injEq, Prod.mk.injEq] at h
        exact h.2 ▸ Nat.le_refl _

def endsCommand (c : Cursor) : Bool := c.rest == [] || c.at? '|' || c.at? ';'

def commandPart (s : Setting) (first : Bool) (d : Draft) (c : Cursor) :
    Except Mistake (Draft × Cursor) :=
  if c.atComment then .ok (d, c.skipComment)
  else if c.at? '<' then (s.redirectInput c).map fun (rs, c') => (d.addRedirections rs, c')
  else if c.at? '>' then
    (s.redirectOutput 1 false c).map fun (rs, c') => (d.addRedirections rs, c')
  else match s.word c with
    | .error m => .error m
    | .ok (w, c') => s.takeWord first d c w c'

theorem head_skipBlanks {c : Cursor} {x : Char} {rest : List Char}
    (h : c.skipBlanks.rest = x :: rest) : isBlank x = false := by
  have hd : c.rest.dropWhile isBlank = x :: rest := h
  have := List.head_dropWhile_not isBlank (l := c.rest) (by simp [hd])
  simpa [hd] using this

theorem left_commandPart_lt {s : Setting} {first : Bool} {d d' : Draft} {c c' : Cursor}
    (hend : endsCommand c.skipBlanks = false)
    (h : s.commandPart first d c.skipBlanks = .ok (d', c')) : c'.left < c.skipBlanks.left := by
  have hne : c.skipBlanks.rest ≠ [] := by
    intro hnil; simp [endsCommand, hnil] at hend
  unfold commandPart at h
  split at h
  · next hcomment =>
    simp only [Except.ok.injEq, Prod.mk.injEq] at h
    exact h.2 ▸ left_skipComment_lt hcomment
  · split at h
    · obtain ⟨⟨rs, c₁⟩, hok, heq⟩ := map_eq_ok h
      simp only [Prod.mk.injEq] at heq
      exact heq.2 ▸ left_redirectInput_lt hne hok
    · next hlt =>
      split at h
      · obtain ⟨⟨rs, c₁⟩, hok, heq⟩ := map_eq_ok h
        simp only [Prod.mk.injEq] at heq
        exact heq.2 ▸ left_redirectOutput_lt hne hok
      · next hgt =>
        split at h
        · simp at h
        · next w c₁ hw =>
          obtain ⟨x, rest, hrest⟩ := List.exists_cons_of_ne_nil hne
          have hop : (isBlank x || isOperator x) = false := by
            rw [head_skipBlanks hrest]
            simp_all [endsCommand, Cursor.at?, isOperator]
          exact Nat.lt_of_le_of_lt (left_takeWord_le h) (left_word_lt hrest hop hw)

def commandFrom (s : Setting) (first : Bool) (d : Draft) (start : Cursor) :
    Except Mistake (Draft × Cursor) :=
  let c := start.skipBlanks
  if _ : endsCommand c then .ok (d, c)
  else match _ : s.commandPart first d c with
    | .error m => .error m
    | .ok (d', c') => commandFrom s first d' c'
termination_by start.left
decreasing_by
  next hend hp =>
    exact Nat.lt_of_lt_of_le (left_commandPart_lt (by simpa using hend) hp) (left_skipWhile_le _ _)

/-- The command that begins here, if there is one. `first` says whether it is the first of its
pipeline. The flag of the result tells whether the pipeline is to be ignored. -/
def command (s : Setting) (first : Bool) (start : Cursor) :
    Except Mistake (Option (Command × Bool) × Cursor) :=
  match s.commandFrom first .empty start with
  | .error m => .error m
  | .ok (d, c) =>
    if d.command.args != [] then .ok (some (d.command, d.ignore), c)
    else if d.isStarted then .error (s.mistake .unexpectedToken start c.pos.offset [])
    else .ok (none, c)

theorem commandFrom_ok {s : Setting} {first : Bool} {d d' : Draft} {c c' : Cursor}
    (h : s.commandFrom first d c = .ok (d', c')) : c'.left ≤ c.left ∧ endsCommand c' = true := by
  fun_induction commandFrom s first d c with
  | case1 d c c₁ hend =>
    simp only [Except.ok.injEq, Prod.mk.injEq] at h
    exact h.2 ▸ ⟨left_skipWhile_le _ _, hend⟩
  | case2 d c c₁ hend m hp => simp at h
  | case3 d c c₁ hend d₁ c₂ hp ih =>
    have hlt : c₂.left < c₁.left := left_commandPart_lt (by simpa using hend) hp
    have hle : c₁.left ≤ c.left := left_skipWhile_le _ _
    exact ⟨by have := (ih h).1; omega, (ih h).2⟩

theorem command_ok {s : Setting} {first : Bool} {c c' : Cursor} {r : Option (Command × Bool)}
    (h : s.command first c = .ok (r, c')) : c'.left ≤ c.left ∧ endsCommand c' = true := by
  unfold command at h
  split at h
  · simp at h
  · next d c₁ hd =>
    have hok := commandFrom_ok hd
    split at h
    · simp only [Except.ok.injEq, Prod.mk.injEq] at h
      exact h.2 ▸ hok
    · split at h
      · simp at h
      · simp only [Except.ok.injEq, Prod.mk.injEq] at h
        exact h.2 ▸ hok

def atFallback (c : Cursor) : Bool := c.at? '|' && c.advance.at? '|'

def pipelineFrom (s : Setting) (p : Pipeline) (start : Cursor) :
    Except Mistake (Pipeline × Cursor) :=
  match hc : s.command (p.commands == []) start with
  | .error m => .error m
  | .ok (found, c) =>
    let p' := match found with
      | some (command, ignore) =>
        { p with commands := p.commands ++ [command], ignore := p.ignore || ignore }
      | none => p
    if _ : c.at? '|' && !c.advance.at? '|' then pipelineFrom s p' c.advance
    else .ok (p', c)
termination_by start.left
decreasing_by
  next hbar =>
    exact Nat.lt_of_lt_of_le
      (left_advance_lt (rest_ne_nil_of_at (Bool.and_eq_true_iff.mp hbar).1)) (command_ok hc).1

def pipeline (s : Setting) (start : Cursor) : Except Mistake (Option Pipeline × Cursor) :=
  let c := start.skipGap
  match s.pipelineFrom ⟨[], false, s.file, s.lineOf c.pos⟩ c with
  | .error m => .error m
  | .ok (p, c') => .ok (if p.commands == [] then none else some p, c')

def endsPipeline (c : Cursor) : Bool := c.rest == [] || atFallback c || c.at? ';'

theorem pipelineFrom_ok {s : Setting} {p p' : Pipeline} {c c' : Cursor}
    (h : s.pipelineFrom p c = .ok (p', c')) : c'.left ≤ c.left ∧ endsPipeline c' = true := by
  fun_induction pipelineFrom s p c with
  | case1 p c m hc => simp at h
  | case2 p c found c₁ hc p₁ hbar ih =>
    have hle := (command_ok hc).1
    have := left_advance_le c₁
    exact ⟨by have := (ih h).1; omega, (ih h).2⟩
  | case3 p c found c₁ hc p₁ hbar =>
    simp only [Except.ok.injEq, Prod.mk.injEq] at h
    obtain ⟨hle, hend⟩ := command_ok hc
    refine h.2 ▸ ⟨hle, ?_⟩
    simp only [endsCommand, endsPipeline, atFallback, Bool.or_eq_true] at hend ⊢
    grind

theorem pipeline_ok {s : Setting} {c c' : Cursor} {r : Option Pipeline}
    (h : s.pipeline c = .ok (r, c')) : c'.left ≤ c.left ∧ endsPipeline c' = true := by
  unfold pipeline at h
  simp only at h
  split at h
  · simp at h
  · next p c₁ hp =>
    simp only [Except.ok.injEq, Prod.mk.injEq] at h
    have hok := pipelineFrom_ok hp
    exact h.2 ▸ ⟨Nat.le_trans hok.1 (left_skipGap_le c), hok.2⟩

def alternativesFrom (s : Setting) (alts : List Pipeline) (start : Cursor) :
    Except Mistake (List Pipeline × Cursor) :=
  match hp : s.pipeline start with
  | .error m => .error m
  | .ok (found, c) =>
    let alts' := alts ++ found.toList
    if hbars : atFallback c then
      if alts' == [] then .error (s.mistake .unexpectedToken c (c.pos.offset + 2) [])
      else alternativesFrom s alts' (c.skip 2)
    else .ok (alts', c)
termination_by start.left
decreasing_by
  exact Nat.lt_of_lt_of_le (Nat.lt_of_le_of_lt (left_skip_le 1 c.advance)
    (left_advance_lt (rest_ne_nil_of_at (Bool.and_eq_true_iff.mp hbars).1))) (pipeline_ok hp).1

theorem alternativesFrom_ok {s : Setting} {alts alts' : List Pipeline} {c c' : Cursor}
    (h : s.alternativesFrom alts c = .ok (alts', c')) :
    c'.left ≤ c.left ∧ (c'.rest = [] ∨ c'.at? ';' = true) := by
  fun_induction alternativesFrom s alts c with
  | case1 alts c m hp => simp at h
  | case2 alts c found c₁ hp alts₁ hbars hnil => simp at h
  | case3 alts c found c₁ hp alts₁ hbars hnil ih =>
    have hle := (pipeline_ok hp).1
    have := left_skip_le 2 c₁
    exact ⟨by have := (ih h).1; omega, (ih h).2⟩
  | case4 alts c found c₁ hp alts₁ hbars =>
    simp only [Except.ok.injEq, Prod.mk.injEq] at h
    obtain ⟨hle, hend⟩ := pipeline_ok hp
    refine h.2 ▸ ⟨hle, ?_⟩
    simp only [endsPipeline, Bool.or_eq_true, beq_iff_eq] at hend
    grind

def statement (s : Setting) (start : Cursor) : Except Mistake (Option Statement × Cursor) :=
  match s.alternativesFrom [] start with
  | .error m => .error m
  | .ok (alts, c) =>
    let c' := if c.at? ';' then c.advance else c
    match alts with
    | [] => .ok (none, c')
    | first :: fallbacks => .ok (some ⟨first, fallbacks⟩, c')

theorem left_statement_lt {s : Setting} {c c' : Cursor} {r : Option Statement}
    (hne : c.rest ≠ []) (h : s.statement c = .ok (r, c')) : c'.left < c.left := by
  unfold statement at h
  split at h
  · simp at h
  · next alts c₁ halts =>
    obtain ⟨hle, hend⟩ := alternativesFrom_ok halts
    have hlt : (if c₁.at? ';' then c₁.advance else c₁).left < c.left := by
      split
      · next hsemi => exact Nat.lt_of_lt_of_le (left_advance_lt (rest_ne_nil_of_at hsemi)) hle
      · next hsemi =>
        have hnil : c₁.rest = [] := hend.resolve_right hsemi
        simpa [Cursor.left, hnil] using List.length_pos_iff.mpr hne
    simp only at h
    split at h
    all_goals
      simp only [Except.ok.injEq, Prod.mk.injEq] at h
      exact h.2 ▸ hlt

def statements (s : Setting) (start : Cursor) : Except Mistake (List Statement) :=
  let c := start.skipGap
  if _ : c.rest = [] then .ok []
  else match _ : s.statement c with
    | .error m => .error m
    | .ok (found, c') =>
      match statements s c' with
      | .error m => .error m
      | .ok rest => .ok (found.toList ++ rest)
termination_by start.left
decreasing_by exact Nat.lt_of_lt_of_le (left_statement_lt ‹_› ‹_›) (left_skipGap_le _)

/-- Moves past a list of names between bars at the head of a script, which says what the
surrounding text does with the output. -/
def skipHeader (s : Setting) (start : Cursor) : Except Mistake Cursor :=
  let c := start.skipBlanks
  if c.at? '|' then
    let close := c.advance.skipWhile (· ≠ '|')
    if close.rest = [] then .error (s.mistake .unterminatedLiteral c close.pos.offset [])
    else .ok close.advance
  else .ok c

end Setting

def Script.parse (s : Setting) (text : String) : Except Mistake Script :=
  match s.skipHeader ⟨.start, text.toList⟩ with
  | .error m => .error m
  | .ok c => (s.statements c).map Script.mk

/-- Reads the script that the bytes `source` spell. A byte that is no part of a character is read as the
replacement character, also within a raw literal. -/
def Script.parseBytes (s : Setting) (source : Bytes) : Except Mistake Script :=
  Script.parse s (String.ofList (Utf8.decode source))

end Pipework
