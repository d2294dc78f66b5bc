import Pipework.Proofs.Script.Printed.Script

/-!
# Scripts shown on one line

A script is shown as rows of words, with a space from each word to the next; the bars between the
commands of a statement are words of their own. A word is a plain text or stands between quotes, so
that what it holds cannot be taken for a space, a bar or an operator.
-/

namespace Pipework

/-- In front of a command the word would set a variable. -/
def IsAssignment (word : String) : Prop := ∃ name value, IsName name ∧ word = name ++ "=" ++ value

theorem isAssignment_iff {word : String} :
    IsAssignment word ↔ (⟨word.toList, none⟩ : Word).assignment?.isSome = true := by
  constructor
  · rintro ⟨name, value, hName, rfl⟩
    have hText : (name ++ "=" ++ value).toList = name.toList ++ '=' :: value.toList := by simp
    rw [hText, Setting.assignment?_name hName]
    rfl
  · intro hFound
    obtain ⟨⟨name, value⟩, hEntry⟩ := Option.isSome_iff_exists.mp hFound
    have hText := Setting.eq_of_assignment? hEntry
    rw [String.ofList_toList] at hText
    exact ⟨name, value, Word.assignment?_isName hEntry, hText⟩

instance : DecidablePred IsAssignment := fun _ => decidable_of_iff _ isAssignment_iff.symm

/-- No command begins with a word that says something else where it stands. -/
structure Pipeline.Clear (p : Pipeline) : Prop where
  not_assignment : ∀ c ∈ p.commands, ∀ word ∈ c.args.head?, ¬IsAssignment word
  not_ignore : p.ignore = false → ∀ c ∈ p.commands.head?, c.env = [] → c.args.head? ≠ some "ignore"

def Script.Clear (t : Script) : Prop := ∀ st ∈ t.statements, ∀ p ∈ st.alternatives, p.Clear

namespace CommandLine

def assignment (entry : String × String) : String := entry.1 ++ "=" ++ quote entry.2

theorem isPlain_of_nameChar {x : Char} (h : isNameChar x = true) : isPlain x = true := by
  rcases Bool.or_eq_true_iff.mp h with hStart | hDigit
  · rcases Bool.or_eq_true_iff.mp hStart with hUnderscore | hLetter
    · rw [beq_iff_eq.mp hUnderscore]
      rfl
    · simp [isPlain, Char.isAlphanum, hLetter]
  · simp [isPlain, Char.isAlphanum, hDigit]

theorem name_plain {name : String} (h : IsName name) : name.toList.all isPlain = true := by
  rw [List.all_eq_true]
  intro x hx
  exact isPlain_of_nameChar (h.nameChar x hx)

theorem isPlain_cases {x : Char} (h : isPlain x = true) :
    isNameChar x = true ∨ x ∈ "@%+=:,./-".toList := by
  rcases Bool.or_eq_true_iff.mp h with hLetter | hSign
  · left
    rcases Bool.or_eq_true_iff.mp hLetter with hAlpha | hDigit
    · simp [isNameChar, isNameStart, hAlpha]
    · simp [isNameChar, hDigit]
  · have hMem : x ∈ '_' :: "@%+=:,./-".toList := List.contains_iff_mem.mp hSign
    rcases List.mem_cons.mp hMem with rfl | hMem
    · exact .inl rfl
    · exact .inr hMem

theorem plain_ne {x y : Char} (h : isPlain x = true) (hy : isPlain y = false) : x ≠ y := by
  rintro rfl
  rw [h] at hy
  cases hy

theorem quote_of_plain {word : String} (hne : word ≠ "") (h : word.toList.all isPlain = true) :
    quote word = word := by
  rw [quote, if_neg (by simpa using hne), if_pos h]

theorem quote_cases (word : String) :
    (word ≠ "" ∧ word.toList.all isPlain = true ∧ quote word = word) ∨
      ∃ text, (quote word).toList = '\'' :: text := by
  by_cases hEmpty : word = ""
  · subst hEmpty
    exact .inr ⟨['\''], by decide⟩
  · by_cases hPlain : word.toList.all isPlain = true
    · exact .inl ⟨hEmpty, hPlain, quote_of_plain hEmpty hPlain⟩
    · refine .inr ⟨escape word.toList ++ ['\''], ?_⟩
      rw [quote, if_neg (by simpa using hEmpty), if_neg hPlain, String.toList_ofList, List.cons_append]

theorem quote_ne_empty (word : String) : quote word ≠ "" := by
  rcases quote_cases word with ⟨hne, -, hQuote⟩ | ⟨text, hText⟩
  · rwa [hQuote]
  · intro hEmpty
    rw [hEmpty] at hText
    cases hText

theorem render_eq {env : Table} {args : List String} (h : args ≠ []) :
    render env args = " ".intercalate (env.map assignment ++ args.map quote) := by
  induction env with
  | nil => rfl
  | cons entry env ih =>
    have hne : env.map assignment ++ args.map quote ≠ [] := by simp [h]
    have hCons : render (entry :: env) args = assignment entry ++ " " ++ render env args := rfl
    rw [hCons, ih, List.map_cons, List.cons_append, String.intercalate_cons_of_ne_nil hne]

end CommandLine

namespace Command

def words (c : Command) : List String :=
  c.env.map CommandLine.assignment ++ c.args.map CommandLine.quote ++ c.redirections.map Redirection.render

theorem words_ne_nil {c : Command} (h : c.args ≠ []) : c.words ≠ [] := by simp [words, h]

theorem foldl_redirections {line : String} {items : List String} (hne : items ≠ [])
    (hLine : line = " ".intercalate items) (rs : List Redirection) :
    rs.foldl (fun line r => line ++ " " ++ r.render) line =
      " ".intercalate (items ++ rs.map Redirection.render) := by
  induction rs generalizing line items with
  | nil => simpa using hLine
  | cons r rs ih =>
    have hNext : line ++ " " ++ r.render = " ".intercalate (items ++ [r.render]) := by
      rw [String.intercalate_append_of_ne_nil hne (by simp), String.intercalate_singleton, hLine]
    rw [List.foldl_cons, ih (by simp) hNext, List.append_assoc]
    rfl

theorem render_eq {c : Command} (h : c.args ≠ []) : c.render = " ".intercalate c.words :=
  foldl_redirections (by simp [h]) (CommandLine.render_eq h) c.redirections

end Command

/-- The words of a pipeline, of which the bars between the commands are some. -/
def Pipeline.words (p : Pipeline) : List String :=
  (if p.ignore then ["ignore"] else []) ++ ["|"].intercalate (p.commands.map Command.words)

def Statement.words (st : Statement) : List String := ["||"].intercalate (st.alternatives.map Pipeline.words)

theorem intercalate_ne_nil {α : Type} {separator l : List α} {ls : List (List α)} (h : l ≠ []) :
    separator.intercalate (l :: ls) ≠ [] := by
  cases ls with
  | nil => simpa using h
  | cons next ls => simp [h]

theorem intercalate_rows (bar : String) {rows : List (List String)} (h : ∀ row ∈ rows, row ≠ []) :
    (" " ++ bar ++ " ").intercalate (rows.map (" ".intercalate ·)) =
      " ".intercalate ([bar].intercalate rows) := by
  induction rows with
  | nil => rfl
  | cons row rows ih =>
    obtain ⟨hRow, hRows⟩ := List.forall_mem_cons.mp h
    cases rows with
    | nil => simp
    | cons next rows =>
      have hne : [bar].intercalate (next :: rows) ≠ [] := intercalate_ne_nil (hRows next List.mem_cons_self)
      rw [List.map_cons, List.map_cons, String.intercalate_cons_cons, ← List.map_cons, ih hRows,
        List.intercalate_cons_cons, List.append_assoc, String.intercalate_append_of_ne_nil hRow (by simp),
        List.singleton_append, String.intercalate_cons_of_ne_nil hne]
      simp [String.append_assoc]

namespace Pipeline

theorem intercalate_words_ne_nil {p : Pipeline} (h : p.WellFormed) :
    ["|"].intercalate (p.commands.map Command.words) ≠ [] := by
  obtain ⟨c, more, hCommands⟩ := List.exists_cons_of_ne_nil h.commands_ne_nil
  rw [hCommands]
  exact intercalate_ne_nil (Command.words_ne_nil (h.commands c (by simp [hCommands])).args_ne_nil)

theorem words_ne_nil {p : Pipeline} (h : p.WellFormed) : p.words ≠ [] := by
  intro hNil
  exact intercalate_words_ne_nil h (List.append_eq_nil_iff.mp hNil).2

theorem render_eq {p : Pipeline} (h : p.WellFormed) : p.render = " ".intercalate p.words := by
  have hShown : p.commands.map Command.render = (p.commands.map Command.words).map (" ".intercalate ·) := by
    rw [List.map_map]
    exact List.map_congr_left fun c hc => Command.render_eq (h.commands c hc).args_ne_nil
  have hRows : ∀ row ∈ p.commands.map Command.words, row ≠ [] := by
    intro row hRow
    obtain ⟨c, hc, rfl⟩ := List.mem_map.mp hRow
    exact Command.words_ne_nil (h.commands c hc).args_ne_nil
  have hBars := intercalate_rows "|" hRows
  rw [render, words, hShown]
  cases p.ignore with
  | false => simpa using hBars
  | true =>
    rw [if_pos rfl, if_pos rfl, String.intercalate_append_of_ne_nil (by simp) (intercalate_words_ne_nil h),
      ← hBars]
    rfl

end Pipeline

theorem Statement.words_ne_nil {st : Statement} (h : ∀ p ∈ st.alternatives, p.WellFormed) : st.words ≠ [] :=
  intercalate_ne_nil (Pipeline.words_ne_nil (h st.first List.mem_cons_self))

theorem Statement.render_eq {st : Statement} (h : ∀ p ∈ st.alternatives, p.WellFormed) :
    st.render = " ".intercalate st.words := by
  have hShown : st.alternatives.map Pipeline.render =
      (st.alternatives.map Pipeline.words).map (" ".intercalate ·) := by
    rw [List.map_map]
    exact List.map_congr_left fun p hp => Pipeline.render_eq (h p hp)
  have hRows : ∀ row ∈ st.alternatives.map Pipeline.words, row ≠ [] := by
    intro row hRow
    obtain ⟨p, hp, rfl⟩ := List.mem_map.mp hRow
    exact Pipeline.words_ne_nil (h p hp)
  rw [render, words, hShown]
  exact intercalate_rows "||" hRows

end Pipework
