import Pipework.Proofs.Script.Rendered.Word

/-!
# What is shown tells scripts apart

Two scripts that are shown alike are the same but for the places where their pipelines stand. Texts
that are equal have the same words, since each of them ends where it is seen to end, and a script is
found again from its words: the bars part the commands, and within a command assignments, words and
redirections come in this order and look different.
-/

namespace Pipework

open Quoting

theorem map_eq_map {α β γ : Type} {f : α → β} {g : α → γ} {l l' : List α}
    (h : ∀ a ∈ l, ∀ b ∈ l', f a = f b → g a = g b) (hSame : l.map f = l'.map f) : l.map g = l'.map g := by
  induction l generalizing l' with
  | nil =>
    cases l' with
    | nil => rfl
    | cons b l' => cases hSame
  | cons a l ih =>
    cases l' with
    | nil => cases hSame
    | cons b l' =>
      obtain ⟨hHead, hTail⟩ := List.cons.inj hSame
      rw [List.map_cons, List.map_cons, h a List.mem_cons_self b List.mem_cons_self hHead,
        ih (fun x hx y hy => h x (List.mem_cons_of_mem a hx) y (List.mem_cons_of_mem b hy)) hTail]

namespace Command

variable {c c' : Command} (h : c.WellFormed) (h' : c'.WellFormed)

include h

theorem words_cases {word : String} (hWord : word ∈ c.words) :
    (∃ entry, IsName entry.1 ∧ word = CommandLine.assignment entry) ∨
      (∃ arg, word = CommandLine.quote arg) ∨ ∃ r : Redirection, r.WellFormed ∧ word = r.render := by
  rw [words, List.mem_append, List.mem_append, List.mem_map, List.mem_map, List.mem_map] at hWord
  rcases hWord with (⟨entry, hEntry, rfl⟩ | ⟨arg, -, rfl⟩) | ⟨r, hr, rfl⟩
  · exact .inl ⟨entry, h.env_names entry hEntry, rfl⟩
  · exact .inr (.inl ⟨arg, rfl⟩)
  · exact .inr (.inr ⟨r, h.redirections r hr, rfl⟩)

theorem isWhole_of_mem_words {word : String} (hWord : word ∈ c.words) : IsWhole word := by
  rcases words_cases h hWord with ⟨entry, hName, rfl⟩ | ⟨arg, rfl⟩ | ⟨r, hr, rfl⟩
  · exact CommandLine.isWhole_assignment hName
  · exact CommandLine.isWhole_quote arg
  · exact Redirection.isWhole_render hr

theorem head_of_mem_words {word : String} (hWord : word ∈ c.words) : word.toList.head? ≠ some '|' := by
  rcases words_cases h hWord with ⟨entry, hName, rfl⟩ | ⟨arg, rfl⟩ | ⟨r, hr, rfl⟩
  · obtain ⟨x, more, hText, hStart⟩ := CommandLine.assignment_head hName
    rw [hText]
    rintro ⟨⟩
    cases hStart
  · exact CommandLine.head_quote arg
  · exact Redirection.head_render hr

theorem assigns_of_mem {word : String} (hWord : word ∈ c.env.map CommandLine.assignment) :
    ∃ entry, IsName entry.1 ∧ word = CommandLine.assignment entry := by
  obtain ⟨entry, hEntry, rfl⟩ := List.mem_map.mp hWord
  exact ⟨entry, h.env_names entry hEntry, rfl⟩

theorem not_assigns_of_head (hFirst : ∀ word ∈ c.args.head?, ¬IsAssignment word) {word : String}
    (hWord : word ∈ (c.args.map CommandLine.quote ++ c.redirections.map Redirection.render).head?) :
    ¬∃ entry, IsName entry.1 ∧ word = CommandLine.assignment entry := by
  rintro ⟨entry, hName, rfl⟩
  obtain ⟨arg, args, hArgs⟩ := List.exists_cons_of_ne_nil h.args_ne_nil
  rw [hArgs] at hWord
  exact CommandLine.quote_ne_assignment (hFirst arg (by simp [hArgs])) hName (Option.some.inj hWord)

theorem not_quote_of_head {word : String} (hWord : word ∈ (c.redirections.map Redirection.render).head?) :
    ¬∃ arg, word = CommandLine.quote arg := by
  rintro ⟨arg, rfl⟩
  obtain ⟨r, hr, hRender⟩ := List.mem_map.mp (List.mem_of_mem_head? hWord)
  exact Redirection.render_ne_quote (h.redirections r hr) arg hRender

include h'

/-- The assignments run up to the first word, and the words up to the first redirection. -/
theorem words_injective (hFirst : ∀ word ∈ c.args.head?, ¬IsAssignment word)
    (hFirst' : ∀ word ∈ c'.args.head?, ¬IsAssignment word) (hSame : c.words = c'.words) : c = c' := by
  have hQuotes : ∀ args : List String, ∀ word ∈ args.map CommandLine.quote, ∃ arg, word = CommandLine.quote arg := by
    intro args word hWord
    obtain ⟨arg, -, rfl⟩ := List.mem_map.mp hWord
    exact ⟨arg, rfl⟩
  rw [words, words, List.append_assoc, List.append_assoc] at hSame
  obtain ⟨hEnvs, hRest⟩ := append_cut (fun _ => assigns_of_mem h) (fun _ => assigns_of_mem h')
    (fun _ => not_assigns_of_head h hFirst) (fun _ => not_assigns_of_head h' hFirst') hSame
  obtain ⟨hArgs, hRedirections⟩ := append_cut (hQuotes c.args) (hQuotes c'.args)
    (fun _ => not_quote_of_head h) (fun _ => not_quote_of_head h') hRest
  have hEnvSame := map_eq_map (g := id) (fun entry hEntry entry' hEntry' =>
    CommandLine.assignment_injective (h.env_names entry hEntry) (h'.env_names entry' hEntry')) hEnvs
  have hArgsSame := map_eq_map (g := id) (fun _ _ _ _ => CommandLine.quote_injective) hArgs
  have hRedirectionsSame := map_eq_map (g := id) (fun r hr r' hr' =>
    Redirection.eq_of_render (h.redirections r hr) (h'.redirections r' hr')) hRedirections
  rw [List.map_id, List.map_id] at hEnvSame hArgsSame hRedirectionsSame
  obtain ⟨args, env, redirections⟩ := c
  rw [Command.mk.injEq]
  exact ⟨hArgsSame, hEnvSame, hRedirectionsSame⟩

end Command

theorem mem_intercalate {α : Type} {separator : List α} {ls : List (List α)} {a : α}
    (h : a ∈ separator.intercalate ls) : a ∈ separator ∨ ∃ l ∈ ls, a ∈ l := by
  induction ls with
  | nil => cases h
  | cons l ls ih =>
    cases ls with
    | nil => exact .inr ⟨l, List.mem_cons_self, by simpa using h⟩
    | cons next ls =>
      rw [List.intercalate_cons_cons, List.mem_append, List.mem_append] at h
      rcases h with (hl | hSeparator) | hRest
      · exact .inr ⟨l, List.mem_cons_self, hl⟩
      · exact .inl hSeparator
      · exact (ih hRest).imp_right fun ⟨l', hl', ha⟩ => ⟨l', List.mem_cons_of_mem l hl', ha⟩

theorem head?_intercalate {α : Type} {separator l : List α} {ls : List (List α)} (h : l ≠ []) :
    (separator.intercalate (l :: ls)).head? = l.head? := by
  obtain ⟨a, l, rfl⟩ := List.exists_cons_of_ne_nil h
  cases ls <;> simp

theorem intercalate_bar_injective {bar : String} {rows rows' : List (List String)} (hne : rows ≠ []) (hne' : rows' ≠ [])
    (h : ∀ row ∈ rows, bar ∉ row) (h' : ∀ row ∈ rows', bar ∉ row)
    (hSame : [bar].intercalate rows = [bar].intercalate rows') : rows = rows' := by
  rw [← List.splitOn_intercalate bar h hne, hSame, List.splitOn_intercalate bar h' hne']

namespace Pipeline

variable {p p' : Pipeline}

theorem words_cases {word : String} (hWord : word ∈ p.words) :
    word = "ignore" ∨ word = "|" ∨ ∃ c ∈ p.commands, word ∈ c.words := by
  rcases List.mem_append.mp hWord with hIgnore | hRest
  · left
    cases hp : p.ignore <;> simp [hp] at hIgnore
    exact hIgnore
  · rcases mem_intercalate hRest with hBar | ⟨row, hRow, hMem⟩
    · exact .inr (.inl (List.mem_singleton.mp hBar))
    · obtain ⟨c, hc, rfl⟩ := List.mem_map.mp hRow
      exact .inr (.inr ⟨c, hc, hMem⟩)

variable (h : p.WellFormed) (h' : p'.WellFormed)

include h

theorem bar_not_mem : ∀ row ∈ p.commands.map Command.words, "|" ∉ row := by
  intro row hRow hMem
  obtain ⟨c, hc, rfl⟩ := List.mem_map.mp hRow
  exact Command.head_of_mem_words (h.commands c hc) hMem rfl

theorem isWhole_of_mem_words {word : String} (hWord : word ∈ p.words) : IsWhole word := by
  rcases words_cases hWord with rfl | rfl | ⟨c, hc, hMem⟩
  · exact ⟨by decide, unbroken_of_bare (by decide)⟩
  · exact ⟨by decide, unbroken_of_bare (by decide)⟩
  · exact Command.isWhole_of_mem_words (h.commands c hc) hMem

theorem bars_not_mem : "||" ∉ p.words := by
  intro hMem
  rcases words_cases hMem with hWord | hWord | ⟨c, hc, hMem⟩
  · exact absurd hWord (by decide)
  · exact absurd hWord (by decide)
  · exact Command.head_of_mem_words (h.commands c hc) hMem rfl

/-- Without the mark a pipeline begins with an assignment or with another word. -/
theorem head_commands (hClear : p.Clear) (hIgnore : p.ignore = false) :
    (["|"].intercalate (p.commands.map Command.words)).head? ≠ some "ignore" := by
  obtain ⟨c, more, hCommands⟩ := List.exists_cons_of_ne_nil h.commands_ne_nil
  have hc : c.WellFormed := h.commands c (by simp [hCommands])
  have hFirst := hClear.not_ignore hIgnore c (by simp [hCommands])
  rw [hCommands, List.map_cons, head?_intercalate (Command.words_ne_nil hc.args_ne_nil), Command.words]
  cases hEnv : c.env with
  | cons entry env =>
    intro hHead
    have hEntry : CommandLine.assignment entry = "ignore" := Option.some.inj hHead
    have hMem : '=' ∈ (CommandLine.assignment entry).toList := by simp [CommandLine.assignment]
    rw [hEntry] at hMem
    exact absurd hMem (by decide)
  | nil =>
    obtain ⟨arg, args, hArgs⟩ := List.exists_cons_of_ne_nil hc.args_ne_nil
    rw [hArgs]
    intro hHead
    have hQuote : CommandLine.quote arg = CommandLine.quote "ignore" :=
      (Option.some.inj hHead).trans (by decide : "ignore" = CommandLine.quote "ignore")
    exact hFirst hEnv (by rw [hArgs, CommandLine.quote_injective hQuote]; rfl)

include h'

theorem marked_injective (hClear : p.Clear) (hClear' : p'.Clear) (hSame : p.words = p'.words) :
    p.ignore = p'.ignore ∧ ["|"].intercalate (p.commands.map Command.words) =
      ["|"].intercalate (p'.commands.map Command.words) := by
  rw [words, words] at hSame
  cases hp : p.ignore with
  | false =>
    cases hp' : p'.ignore with
    | false => simpa [hp, hp'] using hSame
    | true => exact (head_commands h hClear hp (by simpa [hp, hp'] using congrArg List.head? hSame)).elim
  | true =>
    cases hp' : p'.ignore with
    | false => exact (head_commands h' hClear' hp' (by simpa [hp, hp'] using congrArg List.head? hSame.symm)).elim
    | true => simpa [hp, hp'] using hSame

theorem words_injective (hClear : p.Clear) (hClear' : p'.Clear) (hSame : p.words = p'.words) :
    p.unplaced = p'.unplaced := by
  obtain ⟨hIgnore, hRows⟩ := marked_injective h h' hClear hClear' hSame
  have hWords := intercalate_bar_injective (by simpa using h.commands_ne_nil) (by simpa using h'.commands_ne_nil)
    (bar_not_mem h) (bar_not_mem h') hRows
  have hCommands := map_eq_map (g := id) (fun c hc c' hc' => Command.words_injective (h.commands c hc)
    (h'.commands c' hc') (hClear.not_assignment c hc) (hClear'.not_assignment c' hc')) hWords
  rw [List.map_id, List.map_id] at hCommands
  rw [unplaced, unplaced, hCommands, hIgnore]

end Pipeline

namespace Statement

variable {st st' : Statement} (h : ∀ p ∈ st.alternatives, p.WellFormed)
  (h' : ∀ p ∈ st'.alternatives, p.WellFormed)

include h

theorem isWhole_of_mem_words {word : String} (hWord : word ∈ st.words) : IsWhole word := by
  rcases mem_intercalate hWord with hBars | ⟨row, hRow, hMem⟩
  · obtain rfl := List.mem_singleton.mp hBars
    exact ⟨by decide, unbroken_of_bare (by decide)⟩
  · obtain ⟨p, hp, rfl⟩ := List.mem_map.mp hRow
    exact Pipeline.isWhole_of_mem_words (h p hp) hMem

theorem bars_not_mem : ∀ row ∈ st.alternatives.map Pipeline.words, "||" ∉ row := by
  intro row hRow
  obtain ⟨p, hp, rfl⟩ := List.mem_map.mp hRow
  exact Pipeline.bars_not_mem (h p hp)

include h'

theorem words_injective (hClear : ∀ p ∈ st.alternatives, p.Clear) (hClear' : ∀ p ∈ st'.alternatives, p.Clear)
    (hSame : st.words = st'.words) : st.unplaced = st'.unplaced := by
  have hRows := intercalate_bar_injective (by simp [alternatives]) (by simp [alternatives])
    (bars_not_mem h) (bars_not_mem h') hSame
  have hAlternatives := map_eq_map (g := Pipeline.unplaced) (fun p hp p' hp' =>
    Pipeline.words_injective (h p hp) (h' p' hp') (hClear p hp) (hClear' p' hp')) hRows
  obtain ⟨hFirst, hFallbacks⟩ := List.cons.inj hAlternatives
  rw [unplaced, unplaced, hFirst, hFallbacks]

end Statement

def following (separator : String) : List String → List Char
  | [] => []
  | text :: texts => separator.toList ++ (separator.intercalate (text :: texts)).toList

theorem toList_intercalate_cons (separator text : String) (texts : List String) :
    (separator.intercalate (text :: texts)).toList = text.toList ++ following separator texts := by
  cases texts with
  | nil => simp [following]
  | cons next texts => rw [String.intercalate_cons_cons, following]; simp

theorem breaks_following (texts : List String) {rest : List Char} (h : ∀ x ∈ rest.head?, x = ';') :
    Breaks (following " " texts ++ rest) := by
  intro x hx
  cases texts with
  | nil => exact .inr (h x hx)
  | cons text texts =>
    cases hx
    exact .inl rfl

theorem following_ne_rest {text : String} {texts : List String} {rest rest' : List Char}
    (h : ∀ x ∈ rest.head?, x = ';') : rest ≠ following " " (text :: texts) ++ rest' := by
  rintro rfl
  exact absurd (h ' ' rfl) (by decide)

/-- Equal texts have the same words up to the first semicolon between words. -/
theorem row_cut {row row' : List String} (hne : row ≠ []) (hne' : row' ≠ []) (h : ∀ word ∈ row, IsWhole word)
    (h' : ∀ word ∈ row', IsWhole word) {rest rest' : List Char} (hRest : ∀ x ∈ rest.head?, x = ';')
    (hRest' : ∀ x ∈ rest'.head?, x = ';')
    (hSame : (" ".intercalate row).toList ++ rest = (" ".intercalate row').toList ++ rest') :
    row = row' ∧ rest = rest' := by
  induction row generalizing row' with
  | nil => exact absurd rfl hne
  | cons word more ih =>
    obtain ⟨word', more', rfl⟩ := List.exists_cons_of_ne_nil hne'
    obtain ⟨hWhole, hMore⟩ := List.forall_mem_cons.mp h
    obtain ⟨hWhole', hMore'⟩ := List.forall_mem_cons.mp h'
    rw [toList_intercalate_cons, toList_intercalate_cons, List.append_assoc, List.append_assoc] at hSame
    obtain ⟨hWord, hFollowing⟩ :=
      hWhole.2.cut hWhole'.2 (breaks_following more hRest) (breaks_following more' hRest') hSame
    obtain rfl := String.toList_inj.mp hWord
    cases more with
    | nil =>
      cases more' with
      | nil => exact ⟨rfl, hFollowing⟩
      | cons next' more' => exact (following_ne_rest hRest hFollowing).elim
    | cons next more =>
      cases more' with
      | nil => exact (following_ne_rest hRest' hFollowing.symm).elim
      | cons next' more' =>
        have hNext := (List.cons.inj hFollowing).2
        obtain ⟨hRows, hEnd⟩ := ih (by simp) (by simp) hMore hMore' hNext
        exact ⟨congrArg (word :: ·) hRows, hEnd⟩

theorem rows_injective {rows rows' : List (List String)}
    (h : ∀ row ∈ rows, row ≠ [] ∧ ∀ word ∈ row, IsWhole word)
    (h' : ∀ row ∈ rows', row ≠ [] ∧ ∀ word ∈ row, IsWhole word)
    (hSame : "; ".intercalate (rows.map (" ".intercalate ·)) = "; ".intercalate (rows'.map (" ".intercalate ·))) :
    rows = rows' := by
  have hEmpty : ∀ {row : List String} {more : List (List String)}, (row ≠ [] ∧ ∀ word ∈ row, IsWhole word) →
      "; ".intercalate ((row :: more).map (" ".intercalate ·)) ≠ "" := by
    rintro row more ⟨hne, hWhole⟩ hText
    obtain ⟨word, words, rfl⟩ := List.exists_cons_of_ne_nil hne
    have hList := congrArg String.toList hText
    rw [List.map_cons, toList_intercalate_cons, toList_intercalate_cons] at hList
    simp [(hWhole word List.mem_cons_self).1] at hList
  have hStops : ∀ texts, ∀ x ∈ (following "; " texts).head?, x = ';' := by
    intro texts x hx
    cases texts with
    | nil => cases hx
    | cons text texts =>
      cases hx
      rfl
  induction rows generalizing rows' with
  | nil =>
    cases rows' with
    | nil => rfl
    | cons row' rows' => exact (hEmpty (h' row' List.mem_cons_self) hSame.symm).elim
  | cons row rows ih =>
    cases rows' with
    | nil => exact (hEmpty (h row List.mem_cons_self) hSame).elim
    | cons row' rows' =>
      obtain ⟨⟨hne, hWhole⟩, hMore⟩ := List.forall_mem_cons.mp h
      obtain ⟨⟨hne', hWhole'⟩, hMore'⟩ := List.forall_mem_cons.mp h'
      have hText := congrArg String.toList hSame
      rw [List.map_cons, List.map_cons, toList_intercalate_cons, toList_intercalate_cons] at hText
      obtain ⟨rfl, hRest⟩ := row_cut hne hne' hWhole hWhole' (hStops _) (hStops _) hText
      refine congrArg (row :: ·) ?_
      cases rows with
      | nil =>
        cases rows' with
        | nil => rfl
        | cons next' rows' => cases hRest
      | cons next rows =>
        cases rows' with
        | nil => cases hRest
        | cons next' rows' =>
          have hNext := (List.cons.inj (List.cons.inj hRest).2).2
          exact ih hMore hMore' (String.toList_inj.mp hNext)

theorem Script.render_injective {t t' : Script} (h : t.WellFormed) (h' : t'.WellFormed) (hClear : t.Clear)
    (hClear' : t'.Clear) (hSame : t.render = t'.render) : t.unplaced = t'.unplaced := by
  have hShown : ∀ {u : Script}, u.WellFormed → u.statements.map Statement.render =
      (u.statements.map Statement.words).map (" ".intercalate ·) := by
    intro u hu
    rw [List.map_map]
    exact List.map_congr_left fun st hst => Statement.render_eq (hu st hst)
  have hRows : ∀ {u : Script}, u.WellFormed → ∀ row ∈ u.statements.map Statement.words,
      row ≠ [] ∧ ∀ word ∈ row, IsWhole word := by
    intro u hu row hRow
    obtain ⟨st, hst, rfl⟩ := List.mem_map.mp hRow
    exact ⟨Statement.words_ne_nil (hu st hst), fun word => Statement.isWhole_of_mem_words (hu st hst)⟩
  rw [render, render, hShown h, hShown h'] at hSame
  have hWords := rows_injective (hRows h) (hRows h') hSame
  have hStatements := map_eq_map (g := Statement.unplaced) (fun st hst st' hst' =>
    Statement.words_injective (h st hst) (h' st' hst') (hClear st hst) (hClear' st' hst')) hWords
  rw [unplaced, unplaced, hStatements]

/-- The texts hold quotes, spaces and operators; only the places of the pipelines differ. -/
theorem Script.render_injective_quotes :
    let t (file : String) (line : Int) : Script := ⟨[⟨⟨[⟨["it's; a", "x | y\n"], [("K", "'")],
      [⟨2, .file "&1", true⟩]⟩, ⟨["ignore", "L=1"], [], [⟨0, .null, false⟩]⟩], false, file, line⟩, []⟩]⟩
    (∀ file line, (t file line).WellFormed ∧ (t file line).Clear) ∧ t "a" 3 ≠ t "b" 7 ∧
      (t "a" 3).render = (t "b" 7).render ∧ (t "a" 3).unplaced = (t "b" 7).unplaced := by
  intro t
  have hFirst : Command.WellFormed ⟨["it's; a", "x | y\n"], [("K", "'")], [⟨2, .file "&1", true⟩]⟩ := by
    refine ⟨⟨List.pairwise_singleton _ _, ?_, ?_⟩, by simp⟩
    · rw [List.forall_mem_singleton]
      exact ⟨'K', [], by decide, by decide, rfl⟩
    · rw [List.forall_mem_singleton]
      constructor <;> simp [nullDevice]
  have hSecond : Command.WellFormed ⟨["ignore", "L=1"], [], [⟨0, .null, false⟩]⟩ := by
    refine ⟨⟨.nil, List.forall_mem_nil _, ?_⟩, by simp⟩
    rw [List.forall_mem_singleton]
    constructor <;> simp
  have hWell : ∀ file line, (t file line).WellFormed := by
    intro file line
    simp only [Script.WellFormed, t, List.forall_mem_singleton, Statement.alternatives]
    exact ⟨by simp, by simpa using ⟨hFirst, hSecond⟩⟩
  have hClear : ∀ file line, (t file line).Clear := by
    intro file line
    simp only [Script.Clear, t, List.forall_mem_singleton, Statement.alternatives]
    constructor
    · simpa using ⟨by decide, by decide⟩
    · simp
  have hSame : (t "a" 3).render = (t "b" 7).render := rfl
  exact ⟨fun file line => ⟨hWell file line, hClear file line⟩, by simp [t], hSame,
    Script.render_injective (hWell "a" 3) (hWell "b" 7) (hClear "a" 3) (hClear "b" 7) hSame⟩

end Pipework
