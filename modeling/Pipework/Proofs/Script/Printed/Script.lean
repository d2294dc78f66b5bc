import Pipework.Proofs.Script.Printed.Command
import Pipework.Proofs.Text.Places

/-!
# Reading a printed script back

Commands that are read back one by one are read back as a script, however they are written. So every
well-formed script can be printed: reading what is printed gives the script again, whatever its words,
values and paths hold, with whatever table it is read. Only where the pipelines stand is lost, since all
of them are printed on one line.
-/

namespace Pipework

open Cursor Setting

def Pipeline.unplaced (p : Pipeline) : Pipeline := { p with file := "", line := 0 }

def Statement.unplaced (st : Statement) : Statement :=
  ⟨st.first.unplaced, st.fallbacks.map Pipeline.unplaced⟩

def Script.unplaced (t : Script) : Script := ⟨t.statements.map Statement.unplaced⟩

/-- Between a written command and `tail` there may be a space, before a bar there is one. -/
def Separates (rest tail : List Char) : Prop :=
  rest = [] ∧ tail = [] ∨ rest = ' ' :: tail ∧ (tail.head? = some '|' ∨ tail.head? = some ';') ∨
    rest = tail ∧ tail.head? = some ';'

theorem Separates.spaced {rest tail : List Char} (h : Separates rest tail) : Spaced rest := by
  intro x hx
  rcases h with ⟨rfl, -⟩ | ⟨rfl, -⟩ | ⟨rfl, hHead⟩
  · cases hx
  · cases hx
    exact .inl rfl
  · rw [hHead] at hx
    cases hx
    exact .inr rfl

theorem Separates.ends {rest tail : List Char} (h : Separates rest tail) {c : Cursor} (hRest : c.rest = rest) :
    c.skipBlanks.rest = tail ∧ endsCommand c.skipBlanks = true := by
  rcases h with ⟨rfl, rfl⟩ | ⟨rfl, hHead⟩ | ⟨rfl, hHead⟩
  · have hSame : c.skipBlanks = c := skipWhile_nil hRest
    rw [hSame]
    exact ⟨hRest, by simp [endsCommand, hRest]⟩
  · have hNext : c.advance.rest = tail := by rw [rest_advance, hRest]; rfl
    have hStop : c.skipBlanks = c.advance := by
      rw [skipBlanks, skipWhile_of_pos hRest (by decide)]
      cases tail with
      | nil => exact skipWhile_nil hNext
      | cons x tail =>
        refine skipWhile_of_neg hNext ?_
        rcases hHead with h | h <;> cases h <;> decide
    rw [hStop]
    refine ⟨hNext, ?_⟩
    rcases hHead with h | h <;> simp [endsCommand, at?, hNext, h]
  · have hSame : c.skipBlanks = c := by
      cases rest with
      | nil => exact skipWhile_nil hRest
      | cons x rest =>
        refine skipWhile_of_neg hRest ?_
        cases hHead
        decide
    rw [hSame]
    exact ⟨hRest, by simp [endsCommand, at?, hRest, hHead]⟩

theorem starts_intercalate {text : String} (h : Starts text.toList) {separator : String}
    (hSeparator : ∃ x ∈ separator.toList.head?, x ≠ '/') (texts : List String) :
    Starts (separator.intercalate (text :: texts)).toList := by
  cases texts with
  | nil => rwa [String.intercalate_singleton]
  | cons next texts =>
    obtain ⟨x, hHead, hx⟩ := hSeparator
    rw [String.intercalate_cons_cons, String.append_assoc, String.toList_append, String.toList_append]
    refine h.append ?_
    rw [List.head?_append, hHead]
    simpa using hx

/-- The pipeline with its commands as `write` writes them. -/
def Pipeline.written (write : Command → String) (p : Pipeline) : String :=
  (if p.ignore then "ignore " else "") ++ " | ".intercalate (p.commands.map write)

def Statement.written (write : Command → String) (st : Statement) : String :=
  " || ".intercalate (st.alternatives.map (Pipeline.written write))

namespace Setting

variable (s : Setting)

/-- Each command of the pipeline is read back from what is written, the first one with the word in front
that says whether failures count. -/
structure ReadsBack (write : Command → String) (p : Pipeline) : Prop where
  commands_ne_nil : p.commands ≠ []
  args_ne_nil : ∀ c ∈ p.commands, c.args ≠ []
  first : ∀ c ∈ p.commands.head?,
    s.Reads true .empty ((if p.ignore then "ignore " else "") ++ write c) ⟨c, p.ignore⟩
  others : ∀ c ∈ p.commands.tail, s.Reads false .empty (write c) ⟨c, false⟩

variable {s} {write : Command → String}

theorem command_written {first ignore : Bool} {text : String} {command : Command}
    (h : s.Reads first .empty text ⟨command, ignore⟩) (hArgs : command.args ≠ []) {rest tail : List Char}
    (hEnd : Separates rest tail) {c : Cursor} (hText : c.skipBlanks.rest = text.toList ++ rest) :
    ∃ c', c'.rest = tail ∧ s.command first c = .ok (some (command, ignore), c') := by
  obtain ⟨c₁, hRest₁, hRead⟩ := h.reads c rest hEnd.spaced hText
  obtain ⟨hTail, hEnds⟩ := hEnd.ends hRest₁
  refine ⟨c₁.skipBlanks, hTail, ?_⟩
  rw [command_eq, hRead, commandFrom_eq, if_pos hEnds]
  simp [Except.bind, hArgs]

theorem not_single_bar {c : Cursor} (h : ∀ rest, c.rest = '|' :: rest → rest.head? = some '|') :
    (c.at? '|' && !c.advance.at? '|') = false := by
  cases hAt : c.at? '|' with
  | false => rfl
  | true =>
    obtain ⟨rest, hRest⟩ := exists_cons_of_at hAt
    simp [at?, rest_advance, hRest, h rest hRest]

/-- The commands of a pipeline are read one after the other; only the first can be preceded by the word
that says whether failures count. -/
theorem pipelineFrom_written {command : Command} {more : List Command}
    (hArgs : ∀ c ∈ command :: more, c.args ≠ []) {p : Pipeline} {ignore : Bool}
    (hFirst : s.Reads (p.commands == []) .empty ((if ignore then "ignore " else "") ++ write command)
      ⟨command, ignore⟩)
    (hOthers : ∀ c ∈ more, s.Reads false .empty (write c) ⟨c, false⟩) {rest tail : List Char}
    (hEnd : Separates rest tail) (hBar : ∀ rest', tail = '|' :: rest' → rest'.head? = some '|') {c : Cursor}
    (h : c.skipBlanks.rest = ((if ignore then "ignore " else "") ++
      " | ".intercalate ((command :: more).map write)).toList ++ rest) :
    ∃ c', c'.rest = tail ∧ s.pipelineFrom p c =
      .ok ({ p with commands := p.commands ++ command :: more, ignore := p.ignore || ignore }, c') := by
  induction more generalizing command p ignore c with
  | nil =>
    rw [List.map_cons, List.map_nil, String.intercalate_singleton] at h
    obtain ⟨c', hTail, hRead⟩ := command_written hFirst (hArgs _ List.mem_cons_self) hEnd h
    refine ⟨c', hTail, ?_⟩
    rw [pipelineFrom_eq, hRead]
    simp [Except.bind, not_single_bar (hTail ▸ hBar), extended]
  | cons next more ih =>
    obtain ⟨hCommand, hMore⟩ := List.forall_mem_cons.mp hArgs
    obtain ⟨hNextReads, hMoreReads⟩ := List.forall_mem_cons.mp hOthers
    let others := (" | ".intercalate ((next :: more).map write)).toList
    have hSplit : c.skipBlanks.rest = ((if ignore then "ignore " else "") ++ write command).toList ++
        ' ' :: '|' :: ' ' :: (others ++ rest) := by
      rw [h, List.map_cons, List.map_cons, String.intercalate_cons_cons]
      simp [others]
    obtain ⟨c₁, hTail₁, hRead⟩ := command_written hFirst hCommand (.inr (.inl ⟨rfl, .inl rfl⟩)) hSplit
    have hNext : c₁.advance.rest = ' ' :: (others ++ rest) := by rw [rest_advance, hTail₁]; rfl
    have hSingle : (c₁.at? '|' && !c₁.advance.at? '|') = true := by simp [at?, hTail₁, hNext]
    have hStarts : Starts others :=
      starts_intercalate hNextReads.starts ⟨' ', rfl, by decide⟩ (more.map write)
    have hAfter : ((extended p (some (command, ignore))).commands == []) = false := by simp [extended]
    obtain ⟨c', hTail, hRest⟩ := @ih next hMore (extended p (some (command, ignore))) false
      (by rw [hAfter]; exact hNextReads) hMoreReads c₁.advance
      (by rw [(hStarts.before hEnd.spaced).skipBlanks_space hNext]; simp [others])
    refine ⟨c', hTail, ?_⟩
    rw [pipelineFrom_eq, hRead]
    dsimp only [Except.bind]
    rw [if_pos hSingle, hRest]
    simp [extended]

theorem ReadsBack.starts {p : Pipeline} (h : s.ReadsBack write p) : Starts (p.written write).toList := by
  obtain ⟨command, more, hCommands⟩ := List.exists_cons_of_ne_nil h.commands_ne_nil
  have hFirst := (h.first command (by simp [hCommands])).starts
  rw [Pipeline.written, hCommands, List.map_cons, ← String.intercalate_cons_append]
  exact starts_intercalate hFirst ⟨' ', rfl, by decide⟩ (more.map write)

theorem pipeline_written {p : Pipeline} (hReads : s.ReadsBack write p) {rest tail : List Char}
    (hEnd : Separates rest tail) (hBar : ∀ rest', tail = '|' :: rest' → rest'.head? = some '|') {c : Cursor}
    (h : c.skipBlanks.rest = (p.written write).toList ++ rest) :
    ∃ c' p', c'.rest = tail ∧ s.pipeline c = .ok (some p', c') ∧ p'.unplaced = p.unplaced := by
  have hStarts : Starts ((p.written write).toList ++ rest) := hReads.starts.before hEnd.spaced
  have hGap : c.skipGap = c.skipBlanks := skipGap_of_other (hStarts.atComment_eq h)
  obtain ⟨command, more, hCommands⟩ := List.exists_cons_of_ne_nil hReads.commands_ne_nil
  have hText : c.skipBlanks.skipBlanks.rest = ((if p.ignore then "ignore " else "") ++
      " | ".intercalate ((command :: more).map write)).toList ++ rest := by
    rw [hStarts.skipBlanks_eq h, h, Pipeline.written, hCommands]
  obtain ⟨c', hTail, hRead⟩ := @pipelineFrom_written s write command more (hCommands ▸ hReads.args_ne_nil)
    ⟨[], false, s.file, s.lineOf c.skipBlanks.pos⟩ p.ignore (hReads.first command (by simp [hCommands]))
    (fun c hc => hReads.others c (by simpa [hCommands] using hc)) rest tail hEnd hBar c.skipBlanks hText
  refine ⟨c', ⟨p.commands, p.ignore, s.file, s.lineOf c.skipBlanks.pos⟩, hTail, ?_, rfl⟩
  rw [pipeline_eq, hGap, hRead, hCommands]
  simp [Except.map]

theorem alternativesFrom_written {p : Pipeline} {more : List Pipeline}
    (hReads : ∀ q ∈ p :: more, s.ReadsBack write q) (alts : List Pipeline) {rest tail : List Char}
    (hEnd : Separates rest tail) (hBar : tail.head? ≠ some '|') {c : Cursor}
    (h : c.skipBlanks.rest = (" || ".intercalate ((p :: more).map (Pipeline.written write))).toList ++ rest) :
    ∃ c' alts', c'.rest = tail ∧ s.alternativesFrom alts c = .ok (alts ++ alts', c') ∧
      alts'.map Pipeline.unplaced = (p :: more).map Pipeline.unplaced := by
  induction more generalizing p alts c with
  | nil =>
    rw [List.map_cons, List.map_nil, String.intercalate_singleton] at h
    have hNoBar : ∀ rest', tail = '|' :: rest' → rest'.head? = some '|' := by
      rintro rest' rfl
      exact absurd rfl hBar
    obtain ⟨c', p', hTail, hRead, hSame⟩ := pipeline_written (hReads p List.mem_cons_self) hEnd hNoBar h
    have hLast : atFallback c' = false := by
      rw [atFallback, at?, hTail]
      simp [hBar]
    refine ⟨c', [p'], hTail, ?_, congrArg (· :: []) hSame⟩
    rw [alternativesFrom_eq, hRead]
    simp [Except.bind, hLast]
  | cons next more ih =>
    obtain ⟨hFirst, hMore⟩ := List.forall_mem_cons.mp hReads
    let others := (" || ".intercalate ((next :: more).map (Pipeline.written write))).toList
    have hSplit : c.skipBlanks.rest =
        (p.written write).toList ++ ' ' :: '|' :: '|' :: ' ' :: (others ++ rest) := by
      rw [h, List.map_cons, List.map_cons, String.intercalate_cons_cons]
      simp [others]
    obtain ⟨c₁, p', hTail₁, hRead, hSame⟩ := pipeline_written hFirst (.inr (.inl ⟨rfl, .inl rfl⟩))
      (by rintro rest' ⟨⟩; rfl) hSplit
    have hNext : (c₁.skip 2).rest = ' ' :: (others ++ rest) := by rw [rest_skip, hTail₁]; rfl
    have hBars : atFallback c₁ = true := by simp [atFallback, at?, rest_advance, hTail₁]
    have hOthers : Starts others := starts_intercalate (hMore next List.mem_cons_self).starts
      ⟨' ', rfl, by decide⟩ (more.map (Pipeline.written write))
    obtain ⟨c', alts', hTail, hRest, hAlts⟩ :=
      ih hMore (alts ++ [p']) ((hOthers.before hEnd.spaced).skipBlanks_space hNext)
    refine ⟨c', p' :: alts', hTail, ?_, ?_⟩
    · rw [alternativesFrom_eq, hRead]
      simp [Except.bind, hBars, hRest]
    · rw [List.map_cons, hSame, hAlts]
      rfl

theorem starts_written {st : Statement} (h : ∀ p ∈ st.alternatives, s.ReadsBack write p) :
    Starts (st.written write).toList :=
  starts_intercalate (h st.first List.mem_cons_self).starts ⟨' ', rfl, by decide⟩
    (st.fallbacks.map (Pipeline.written write))

/-- Between one statement and the next there is a semicolon, and there may be a space in front of it. -/
def Ends (rest next : List Char) : Prop :=
  rest = [] ∧ next = [] ∨ rest = ' ' :: ';' :: next ∨ rest = ';' :: next

theorem Ends.separates {rest next : List Char} (h : Ends rest next) : ∃ tail, Separates rest tail ∧
    tail.head? ≠ some '|' ∧ (tail = [] ∧ next = [] ∨ tail = ';' :: next) := by
  rcases h with ⟨rfl, rfl⟩ | rfl | rfl
  · exact ⟨[], .inl ⟨rfl, rfl⟩, by decide, .inl ⟨rfl, rfl⟩⟩
  · exact ⟨';' :: next, .inr (.inl ⟨rfl, .inr rfl⟩), by simp, .inr rfl⟩
  · exact ⟨';' :: next, .inr (.inr ⟨rfl, rfl⟩), by simp, .inr rfl⟩

theorem statement_written {st : Statement} (hReads : ∀ p ∈ st.alternatives, s.ReadsBack write p)
    {rest next : List Char} (hRest : Ends rest next) {c : Cursor}
    (h : c.skipBlanks.rest = (st.written write).toList ++ rest) :
    ∃ c' st', c'.rest = next ∧ s.statement c = .ok (some st', c') ∧ st'.unplaced = st.unplaced := by
  obtain ⟨tail, hEnd, hTail, hNext⟩ := hRest.separates
  obtain ⟨c₁, alts, hTail₁, hRead, hAlts⟩ := alternativesFrom_written hReads [] hEnd hTail h
  obtain ⟨first, fallbacks, rfl⟩ : ∃ first fallbacks, alts = first :: fallbacks := by
    cases alts with
    | nil => cases hAlts
    | cons first fallbacks => exact ⟨first, fallbacks, rfl⟩
  obtain ⟨hFirst, hFallbacks⟩ := List.cons.inj hAlts
  have hStatement : Statement.unplaced ⟨first, fallbacks⟩ = st.unplaced := by
    rw [Statement.unplaced, hFirst, hFallbacks]
    rfl
  refine ⟨if c₁.at? ';' then c₁.advance else c₁, ⟨first, fallbacks⟩, ?_, ?_, hStatement⟩
  · rcases hNext with ⟨rfl, rfl⟩ | rfl
    · simp [at?, hTail₁]
    · simp [at?, hTail₁, rest_advance]
  · rw [statement_eq, hRead]
    rfl

theorem statements_step {st : Statement} (hReads : ∀ p ∈ st.alternatives, s.ReadsBack write p)
    {rest next : List Char} (hRest : Ends rest next) {c : Cursor}
    (h : c.skipBlanks.rest = (st.written write).toList ++ rest) :
    ∃ c' st', c'.rest = next ∧ s.statements c = (s.statements c').map (st' :: ·) ∧
      st'.unplaced = st.unplaced := by
  obtain ⟨tail, hEnd, -, -⟩ := hRest.separates
  have hStarts : Starts ((st.written write).toList ++ rest) := (starts_written hReads).before hEnd.spaced
  have hGap : c.skipGap = c.skipBlanks := skipGap_of_other (hStarts.atComment_eq h)
  have hne : c.skipBlanks.rest ≠ [] := h ▸ hStarts.ne_nil
  obtain ⟨c', st', hNext, hRead, hStatement⟩ := statement_written hReads hRest (c := c.skipBlanks)
    (by rw [hStarts.skipBlanks_eq h, h])
  refine ⟨c', st', hNext, ?_, hStatement⟩
  rw [statements_eq, hGap, if_neg hne, hRead]
  rfl

/-- Statements that are read back one by one are read back together, with either mark between them. -/
theorem statements_written {separator : String} (hSeparator : separator = "; " ∨ separator = " ; ")
    {st : Statement} {more : List Statement}
    (hReads : ∀ st' ∈ st :: more, ∀ p ∈ st'.alternatives, s.ReadsBack write p) {c : Cursor}
    (h : c.skipBlanks.rest = (separator.intercalate ((st :: more).map (Statement.written write))).toList) :
    ∃ sts, s.statements c = .ok sts ∧ sts.map Statement.unplaced = (st :: more).map Statement.unplaced := by
  induction more generalizing st c with
  | nil =>
    rw [List.map_cons, List.map_nil, String.intercalate_singleton] at h
    obtain ⟨c', st', hEnd, hRead, hSame⟩ := statements_step (hReads st List.mem_cons_self)
      (.inl ⟨rfl, rfl⟩) (h.trans (List.append_nil _).symm)
    refine ⟨[st'], ?_, congrArg (· :: []) hSame⟩
    rw [hRead, statements_nil hEnd]
    rfl
  | cons next more ih =>
    obtain ⟨hFirst, hMore⟩ := List.forall_mem_cons.mp hReads
    let others := (separator.intercalate ((next :: more).map (Statement.written write))).toList
    have hSplit : c.skipBlanks.rest = (st.written write).toList ++ (separator.toList ++ others) := by
      rw [h, List.map_cons, List.map_cons, String.intercalate_cons_cons]
      simp [others]
    have hEnds : Ends (separator.toList ++ others) (' ' :: others) := by
      rcases hSeparator with rfl | rfl
      · exact .inr (.inr rfl)
      · exact .inr (.inl rfl)
    obtain ⟨c₁, st', hNext, hRead, hSame⟩ := statements_step hFirst hEnds hSplit
    have hMark : ∃ x ∈ separator.toList.head?, x ≠ '/' := by
      rcases hSeparator with rfl | rfl
      · exact ⟨';', rfl, by decide⟩
      · exact ⟨' ', rfl, by decide⟩
    have hOthers : Starts others := starts_intercalate (starts_written (hMore next List.mem_cons_self)) hMark
      (more.map (Statement.written write))
    obtain ⟨sts, hRest, hStatements⟩ := ih hMore (hOthers.skipBlanks_space hNext)
    refine ⟨st' :: sts, ?_, ?_⟩
    · rw [hRead, hRest]
      rfl
    · rw [List.map_cons, hSame, hStatements]
      rfl

theorem readsBack_printed (f : Spelling) {p : Pipeline} (h : p.WellFormed) : s.ReadsBack f.command p where
  commands_ne_nil := h.commands_ne_nil
  args_ne_nil c hc := (h.commands c hc).args_ne_nil
  first c hc := reads_command f true p.ignore (fun _ => rfl) (h.commands c (List.mem_of_mem_head? hc))
  others c hc := by
    have hReads := reads_command (s := s) f false false id (h.commands c (List.mem_of_mem_tail hc))
    rwa [if_neg Bool.false_ne_true, String.empty_append] at hReads

theorem starts_statement (f : Spelling) {st : Statement} (h : ∀ p ∈ st.alternatives, p.WellFormed) :
    Starts (f.statement st).toList :=
  starts_written (s := ⟨[], "", 0⟩) fun p hp => readsBack_printed f (h p hp)

theorem statements_printed (f : Spelling) {st : Statement} {more : List Statement}
    (hWell : ∀ st' ∈ st :: more, ∀ p ∈ st'.alternatives, p.WellFormed) {c : Cursor}
    (h : c.skipBlanks.rest = (" ; ".intercalate ((st :: more).map f.statement)).toList) :
    ∃ sts, s.statements c = .ok sts ∧ sts.map Statement.unplaced = (st :: more).map Statement.unplaced :=
  statements_written (.inr rfl) (fun st' hst p hp => readsBack_printed f (hWell st' hst p hp)) h

end Setting

theorem Starts.head_ne_bar {text : List Char} (h : Starts text) :
    (text.dropWhile isBlank).head? ≠ some '|' := by
  obtain ⟨x, more, rfl, hBlank, -, hBar, -⟩ := h
  simp [hBlank, hBar]

namespace Setting

/-- The script of the command alone that has been read. -/
def Draft.alone (s : Setting) (d : Draft) : Script :=
  ⟨[⟨⟨[d.command], d.ignore, s.file, s.lineOf .start⟩, []⟩]⟩

/-- A command that is read up to the end is the whole script, and so is its mistake. -/
theorem parse_alone {text : String} (hStarts : Starts text.toList)
    (hEnd : ∀ d c, s.commandFrom true .empty ⟨.start, text.toList⟩ = .ok (d, c) →
      d.command.args ≠ [] ∧ c.rest = []) :
    Script.parse s text =
      (s.commandFrom true .empty ⟨.start, text.toList⟩).map fun (d, _) => d.alone s := by
  have hBlanks : skipBlanks ⟨.start, text.toList⟩ = ⟨.start, text.toList⟩ := hStarts.skipBlanks_eq rfl
  have hGap : skipGap ⟨.start, text.toList⟩ = ⟨.start, text.toList⟩ := by
    rw [skipGap_of_other (hBlanks.symm ▸ hStarts.atComment_eq rfl), hBlanks]
  rw [Script.parse_of_other s hStarts.head_ne_bar, statements_eq, hGap, if_neg hStarts.ne_nil, statement_eq,
    alternativesFrom_eq, pipeline_eq, hGap, pipelineFrom_eq, beq_self_eq_true, command_eq]
  cases hRead : s.commandFrom true .empty ⟨.start, text.toList⟩ with
  | error m => rfl
  | ok found =>
    obtain ⟨d, c⟩ := found
    obtain ⟨hArgs, hRest⟩ := hEnd d c hRead
    simp [Except.bind, Except.map, hArgs, at?, hRest, extended, atFallback, ofAlternatives?, statements_nil hRest,
      Draft.alone]

end Setting

theorem Script.parse_printed (s : Setting) (f : Spelling) {t : Script} (h : t.WellFormed) :
    ∃ t', Script.parse s (f.script t) = .ok t' ∧ t'.unplaced = t.unplaced := by
  obtain ⟨statements⟩ := t
  cases statements with
  | nil =>
    have hEmpty : f.script ⟨[]⟩ = "" := String.intercalate_nil
    refine ⟨⟨[]⟩, ?_, rfl⟩
    rw [hEmpty, Script.parse_of_other s (by decide), statements_nil (by decide)]
    rfl
  | cons st more =>
    have hStarts : Starts (f.script ⟨st :: more⟩).toList :=
      starts_intercalate (starts_statement f (h st List.mem_cons_self)) ⟨' ', rfl, by decide⟩ (more.map f.statement)
    obtain ⟨sts, hRead, hSame⟩ := statements_printed (s := s) f h
      (congrArg Cursor.rest (hStarts.skipBlanks_eq (c := ⟨.start, _⟩) rfl))
    refine ⟨⟨sts⟩, ?_, congrArg Script.mk hSame⟩
    rw [Script.parse_of_other s hStarts.head_ne_bar]
    exact congrArg _ hRead

/-- The texts of the tree are strings of characters. Other bytes are not read back: see `parseBytes_invalid`. -/
theorem Script.parseBytes_printed (s : Setting) (f : Spelling) {t : Script} (h : t.WellFormed) :
    ∃ t', Script.parseBytes s (utf8 (f.script t)) = .ok t' ∧ t'.unplaced = t.unplaced := by
  have hDecode : String.ofList (Utf8.decode (utf8 (f.script t))) = f.script t := by
    rw [utf8, Utf8.decode_encode, String.ofList_toList]
  rw [Script.parseBytes, hDecode]
  exact Script.parse_printed s f h

/-- The texts hold quotes, hashes, operators and words that mean something when they are bare. -/
theorem Script.parseBytes_printed_quotes :
    let t : Script := ⟨[⟨⟨[⟨["\"#", "$v"], [("K", "=;")], [⟨2, .file "|", true⟩]⟩], true, "", 0⟩,
      [⟨[⟨["ignore"], [], [⟨0, .null, false⟩]⟩], false, "", 0⟩]⟩]⟩
    let text := "ignore K=\"\"r##\"=;\"## r##\"\"#\"## r##\"$v\"## 2>>r#\"|\"#" ++
      " || r######\"ignore\"###### </dev/null"
    t.WellFormed ∧ Spelling.plain.script t = text ∧
      ∃ t', Script.parseBytes ⟨[("v", "x")], "f", 7⟩ (utf8 text) = .ok t' ∧ t'.unplaced = t.unplaced := by
  intro t text
  have hFirst : Command.WellFormed ⟨["\"#", "$v"], [("K", "=;")], [⟨2, .file "|", true⟩]⟩ := by
    refine ⟨⟨List.pairwise_singleton _ _, ?_, ?_⟩, by simp⟩
    · rw [List.forall_mem_singleton]
      exact ⟨'K', [], by decide, by decide, rfl⟩
    · rw [List.forall_mem_singleton]
      constructor <;> simp [nullDevice]
  have hFallback : Command.WellFormed ⟨["ignore"], [], [⟨0, .null, false⟩]⟩ := by
    refine ⟨⟨.nil, List.forall_mem_nil _, ?_⟩, by simp⟩
    rw [List.forall_mem_singleton]
    constructor <;> simp
  have hWell : t.WellFormed := by
    simp only [Script.WellFormed, t, List.forall_mem_singleton, Statement.alternatives, List.forall_mem_cons]
    exact ⟨⟨by simp, by simpa using hFirst⟩, by simp, by simpa using hFallback⟩
  have hText : Spelling.plain.script t = text := by decide +kernel
  exact ⟨hWell, hText, hText ▸ Script.parseBytes_printed _ Spelling.plain hWell⟩

def rawLiteral (fence : Nat) (text : Bytes) : Bytes :=
  utf8 "r" ++ List.replicate fence 35 ++ utf8 "\"" ++ text ++ utf8 "\"" ++ List.replicate fence 35

theorem Spelling.utf8_literal (f : Spelling) (text : String) :
    utf8 (f.literal text) = rawLiteral (f.fence text) (utf8 text) := by
  have hHashes : utf8 (f.hashes text) = List.replicate (f.fence text) 35 := by
    rw [hashes, utf8, String.toList_ofList, Utf8.encode, List.flatMap_replicate]
    exact List.flatten_replicate_singleton
  simp only [literal, rawLiteral, utf8_append, hHashes]

/-- The second argument is no string of characters, so no tree that is read has it: its byte is read as the
replacement character. -/
theorem Script.parseBytes_invalid :
    let s : Setting := ⟨[], "", 0⟩
    let args : List Bytes := [utf8 "x", [0xFF]]
    let source := rawLiteral 0 (utf8 "x") ++ utf8 " " ++ rawLiteral 0 [0xFF]
    let read : Script := ⟨[⟨⟨[⟨["x", "\uFFFD"], [], []⟩], false, "", 1⟩, []⟩]⟩
    Script.parseBytes s source = .ok read ∧ ["x", "\uFFFD"].map utf8 ≠ args ∧
      ∀ texts : List String, texts.map utf8 ≠ args := by
  intro s args source read
  refine ⟨by decide +kernel, by decide, fun texts hTexts => ?_⟩
  obtain ⟨x, rest, rfl, -, hRest⟩ := List.map_eq_cons_iff.mp hTexts
  obtain ⟨text, rest, rfl, hText, -⟩ := List.map_eq_cons_iff.mp hRest
  have hChars : text.toList = ['\uFFFD'] := by
    rw [← Utf8.decode_encode text.toList, ← utf8, hText]
    decide +kernel
  rw [utf8, hChars] at hText
  exact absurd hText (by decide)

end Pipework
