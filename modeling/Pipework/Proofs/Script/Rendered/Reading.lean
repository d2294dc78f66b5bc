import Pipework.Proofs.Script.Rendered.Basic

/-!
# Reading a shown script back

Where all its texts are plain, what a script is shown as can be run: reading it gives the script again,
whatever the table. A plain text stands for itself to the reader too, unless it begins a comment, or
stands in front of a command and is taken for an assignment or for the word `ignore`.
-/

namespace Pipework

open Cursor Setting

def IsPlainText (text : String) : Prop := text ≠ "" ∧ text.toList.all CommandLine.isPlain = true

instance : DecidablePred IsPlainText := fun text =>
  inferInstanceAs (Decidable (text ≠ "" ∧ text.toList.all CommandLine.isPlain = true))

structure Command.Plain (c : Command) : Prop where
  args : ∀ arg ∈ c.args, IsPlainText arg ∧ ¬"//".toList <+: arg.toList
  values : ∀ entry ∈ c.env, IsPlainText entry.2
  paths : ∀ r ∈ c.redirections, ∀ path, r.target = .file path → IsPlainText path

def Script.Plain (t : Script) : Prop :=
  ∀ st ∈ t.statements, ∀ p ∈ st.alternatives, ∀ c ∈ p.commands, c.Plain

theorem isPlain_of_shown {x : Char} (h : CommandLine.isPlain x = true) : isPlain x = true := by
  rcases CommandLine.isPlain_cases h with hName | hSign
  · exact isPlain_of_nameChar hName
  · have hAll : "@%+=:,./-".toList.all isPlain = true := by decide
    exact List.all_eq_true.mp hAll x hSign

namespace IsPlainText

variable {text : String} (h : IsPlainText text)

include h

theorem exists_cons : ∃ x more, text.toList = x :: more := by
  obtain ⟨x, more, hText⟩ := List.exists_cons_of_ne_nil (show text.toList ≠ [] by simpa using h.1)
  exact ⟨x, more, hText⟩

theorem quote_eq : CommandLine.quote text = text := CommandLine.quote_of_plain h.1 h.2

theorem all_isPlain : text.toList.all isPlain = true := by
  rw [List.all_eq_true]
  intro x hx
  exact isPlain_of_shown (List.all_eq_true.mp h.2 x hx)

theorem rawFence?_eq {c : Cursor} {rest : List Char} (hEnd : EndsWord rest) (hRest : c.rest = text.toList ++ rest) :
    c.rawFence? = none := by
  obtain ⟨x, more, hText⟩ := h.exists_cons
  cases more with
  | cons y more =>
    have hy : CommandLine.isPlain y = true := List.all_eq_true.mp h.2 y (by simp [hText])
    rw [hText] at hRest
    exact rawFence?_none hRest (CommandLine.plain_ne hy rfl) (CommandLine.plain_ne hy rfl)
  | nil =>
    rw [hText] at hRest
    cases rest with
    | nil => simp [rawFence?, hRest]
    | cons y rest =>
      have hy := hEnd y rfl
      refine rawFence?_none hRest ?_ ?_
      · rintro rfl
        exact absurd hy (by decide)
      · rintro rfl
        exact absurd hy (by decide)

theorem word_eq (s : Setting) {c : Cursor} {rest : List Char} (hEnd : EndsWord rest)
    (hRest : c.rest = text.toList ++ rest) :
    ∃ c', c'.rest = rest ∧ s.word c = .ok (⟨text.toList, none⟩, c') := by
  have hRaw := h.rawFence?_eq hEnd hRest
  have hPlain := h.all_isPlain
  obtain ⟨x, more, hText⟩ := h.exists_cons
  rw [hText] at hRest hPlain ⊢
  exact s.word_spelled hPlain hRaw hEnd hRest

theorem starts (hComment : ¬"//".toList <+: text.toList) : Starts text.toList := by
  obtain ⟨x, more, hText⟩ := h.exists_cons
  have hx : CommandLine.isPlain x = true := List.all_eq_true.mp h.2 x (by simp [hText])
  have hReads := isPlain_of_shown hx
  simp only [isPlain, Bool.not_eq_true', Bool.or_eq_false_iff] at hReads
  refine ⟨x, more, hText, hReads.1.1.1.1, ?_, CommandLine.plain_ne hx rfl, CommandLine.plain_ne hx rfl⟩
  rintro rfl hHead
  obtain ⟨y, more, rfl⟩ := List.exists_cons_of_ne_nil (show more ≠ [] by rintro rfl; cases hHead)
  obtain rfl : y = '/' := Option.some.inj hHead
  exact hComment ⟨more, by rw [hText]; rfl⟩

theorem head_isOperator : ∀ x ∈ text.toList.head?, isOperator x = false := by
  intro x hx
  have hPlain := List.all_eq_true.mp h.all_isPlain x (List.mem_of_mem_head? hx)
  simp only [isPlain, Bool.not_eq_true', Bool.or_eq_false_iff] at hPlain
  exact hPlain.1.1.1.2

end IsPlainText

namespace Setting

variable {s : Setting}

/-- The next word of a command is an argument: arguments came before, or the word says nothing else in front. -/
def TakesArgument (first : Bool) (d : Draft) (arg : String) : Prop :=
  d.command.args ≠ [] ∨
    ¬IsAssignment arg ∧ (first = true → d.ignore = false → d.command.env = [] → arg ≠ "ignore")

theorem addWord_of_argument {first : Bool} {d : Draft} {arg : String} (hArg : arg ≠ "")
    (h : TakesArgument first d arg) : d.addWord first ⟨arg.toList, none⟩ = d.addArg arg := by
  have hEmpty : (⟨arg.toList, none⟩ : Word).spells "" = false := by simpa [Word.spells, Word.isBare] using hArg
  rw [Draft.addWord, if_neg (by simp [hEmpty]), String.ofList_toList]
  rcases h with hArgs | ⟨hAssignment, hIgnore⟩
  · rw [if_pos (by simpa using hArgs)]
  · have hNone : (⟨arg.toList, none⟩ : Word).assignment? = none := by
      rw [isAssignment_iff] at hAssignment
      simpa using hAssignment
    have hOther :
        ¬(first && !d.ignore && d.command.env == [] && (⟨arg.toList, none⟩ : Word).spells "ignore") = true := by
      intro hAll
      simp only [Word.spells, Word.isBare, Option.isNone_none, Bool.and_eq_true, Bool.not_eq_true',
        beq_iff_eq, String.toList_inj] at hAll
      obtain ⟨⟨⟨hFirst, hMark⟩, hEnv⟩, -, hSpelled⟩ := hAll
      exact hIgnore hFirst hMark hEnv hSpelled
    rw [if_neg hOther, hNone]
    exact ite_self _

theorem reads_argument {first : Bool} {d : Draft} {arg : String} (hPlain : IsPlainText arg)
    (hComment : ¬"//".toList <+: arg.toList) (h : TakesArgument first d arg) :
    s.Reads first d arg (d.addArg arg) := by
  refine .of_word (hPlain.starts hComment) hPlain.head_isOperator ?_
  intro c rest hSpaced hText
  obtain ⟨c', hRest, hWord⟩ := hPlain.word_eq s hSpaced.endsWord hText
  exact ⟨c', _, hRest, hWord, addWord_of_argument hPlain.1 h⟩

theorem isPlainText_assignment {entry : String × String} (hName : IsName entry.1) (hValue : IsPlainText entry.2) :
    IsPlainText (entry.1 ++ "=" ++ entry.2) := by
  constructor
  · intro hEmpty
    simpa using congrArg String.toList hEmpty
  · rw [String.toList_append, String.toList_append, List.all_append, List.all_append, hValue.2,
      CommandLine.name_plain hName]
    rfl

theorem reads_setting (first : Bool) {d : Draft} (hArgs : d.command.args = []) {entry : String × String}
    (hName : IsName entry.1) (hValue : IsPlainText entry.2) :
    s.Reads first d (CommandLine.assignment entry) (d.addAssignment entry.1 entry.2) := by
  have hPlain := isPlainText_assignment hName hValue
  have hShown : CommandLine.assignment entry = entry.1 ++ "=" ++ entry.2 := by
    rw [CommandLine.assignment, hValue.quote_eq]
  have hFound : (⟨(entry.1 ++ "=" ++ entry.2).toList, none⟩ : Word).assignment? = some entry := by
    have hText : (entry.1 ++ "=" ++ entry.2).toList = entry.1.toList ++ '=' :: entry.2.toList := by simp
    rw [hText, assignment?_name hName, String.ofList_toList]
  have hComment : ¬"//".toList <+: (entry.1 ++ "=" ++ entry.2).toList := by
    obtain ⟨x, more, hText, hStart, -⟩ := hName
    rintro ⟨rest, hRest⟩
    rw [String.toList_append, String.toList_append, hText] at hRest
    obtain ⟨rfl, -⟩ := List.cons.inj hRest
    cases hStart
  rw [hShown]
  refine .of_word (hPlain.starts hComment) hPlain.head_isOperator ?_
  intro c rest hSpaced hText
  obtain ⟨c', hRest, hWord⟩ := hPlain.word_eq s hSpaced.endsWord hText
  exact ⟨c', _, hRest, hWord, addWord_of_assignment first hArgs hFound⟩

theorem readsTarget_shown {t : Target} (ht : IsPath t) (hPlain : ∀ path, t = .file path → IsPlainText path) :
    s.ReadsTarget t.render t := by
  cases t with
  | file path =>
    have hPath := hPlain path rfl
    obtain ⟨-, hNull⟩ := ht.file path rfl
    rw [Target.render, hPath.quote_eq]
    constructor
    · obtain ⟨x, more, hText⟩ := hPath.exists_cons
      have hx : CommandLine.isPlain x = true := List.all_eq_true.mp hPath.2 x (by simp [hText])
      have hReads := isPlain_of_shown hx
      simp only [isPlain, Bool.not_eq_true', Bool.or_eq_false_iff] at hReads
      exact ⟨x, more, hText, hReads.1.1.1.1, hReads.1.1.1.2, CommandLine.plain_ne hx rfl⟩
    · intro c rest hEnd h
      obtain ⟨c', hRest, hWord⟩ := hPath.word_eq s hEnd h
      refine ⟨c', _, hRest, hWord, by simpa using hPath.1, ?_⟩
      rw [String.ofList_toList, Target.ofPath, if_neg hNull]
  | fd n => exact absurd rfl (ht.not_fd n)
  | null => exact readsTarget_nullDevice

section Command

variable {c : Command} (h : c.WellFormed) (hPlain : c.Plain)

include h hPlain

theorem readsAll_settings (first ignore : Bool) : s.ReadsAll first ⟨⟨[], [], []⟩, ignore⟩
    (c.env.map CommandLine.assignment) ⟨⟨[], c.env, []⟩, ignore⟩ := by
  have hStep : ∀ d : Draft, ∀ entry ∈ c.env, d.command.args = [] →
      s.Reads first d (CommandLine.assignment entry) (d.addAssignment entry.1 entry.2) ∧
        (d.addAssignment entry.1 entry.2).command.args = [] := by
    intro d entry hEntry hArgs
    exact ⟨reads_setting first hArgs (h.env_names entry hEntry) (hPlain.values entry hEntry), hArgs⟩
  have hAll := readsAll_map CommandLine.assignment (fun d entry => d.addAssignment entry.1 entry.2)
    (fun d => d.command.args = []) hStep (d := ⟨⟨[], [], []⟩, ignore⟩) rfl
  rwa [Draft.foldl_addAssignment, Table.insertAll_arranged h.env_ordered (.refl _)] at hAll

theorem readsAll_arguments {first ignore : Bool}
    (hFirst : ∀ arg ∈ c.args.head?, TakesArgument first ⟨⟨[], c.env, []⟩, ignore⟩ arg) :
    s.ReadsAll first ⟨⟨[], c.env, []⟩, ignore⟩ (c.args.map CommandLine.quote) ⟨⟨c.args, c.env, []⟩, ignore⟩ := by
  have hReads : ∀ d : Draft, ∀ arg ∈ c.args, TakesArgument first d arg →
      s.Reads first d (CommandLine.quote arg) (d.addArg arg) := by
    intro d arg hArg hTakes
    obtain ⟨hText, hComment⟩ := hPlain.args arg hArg
    rw [hText.quote_eq]
    exact reads_argument hText hComment hTakes
  obtain ⟨arg, args, hArgs⟩ := List.exists_cons_of_ne_nil h.args_ne_nil
  have hStep : ∀ d : Draft, ∀ next ∈ args, d.command.args ≠ [] →
      s.Reads first d (CommandLine.quote next) (d.addArg next) ∧ (d.addArg next).command.args ≠ [] := by
    intro d next hNext hTaken
    exact ⟨hReads d next (by simp [hArgs, hNext]) (.inl hTaken), by simp [Draft.addArg]⟩
  have hHead := hReads ⟨⟨[], c.env, []⟩, ignore⟩ arg (by simp [hArgs]) (hFirst arg (by simp [hArgs]))
  have hTail := readsAll_map CommandLine.quote Draft.addArg (fun d => d.command.args ≠ []) hStep
    (d := Draft.addArg ⟨⟨[], c.env, []⟩, ignore⟩ arg) (by simp [Draft.addArg])
  rw [Draft.foldl_addArg] at hTail
  rw [hArgs]
  exact .cons hHead hTail

theorem readsAll_words {first ignore : Bool}
    (hFirst : ∀ arg ∈ c.args.head?, TakesArgument first ⟨⟨[], c.env, []⟩, ignore⟩ arg) :
    s.ReadsAll first ⟨⟨[], [], []⟩, ignore⟩ c.words ⟨c, ignore⟩ := by
  have hRedirections := readsAll_redirections (s := s) first ⟨⟨c.args, c.env, []⟩, ignore⟩ Target.render
    h.redirections (fun _ => rfl) (fun r hr ht => readsTarget_shown ht (hPlain.paths r hr))
  exact ((readsAll_settings h hPlain first ignore).append (readsAll_arguments h hPlain hFirst)).append hRedirections

theorem reads_shown {first ignore : Bool} (hIgnore : ignore = true → first = true)
    (hFirst : ∀ arg ∈ c.args.head?, TakesArgument first ⟨⟨[], c.env, []⟩, ignore⟩ arg) :
    s.Reads first .empty ((if ignore then "ignore " else "") ++ c.render) ⟨c, ignore⟩ := by
  rw [Command.render_eq h.args_ne_nil]
  exact (readsAll_words h hPlain hFirst).command hIgnore (Command.words_ne_nil h.args_ne_nil)

end Command

theorem readsBack_shown {p : Pipeline} (h : p.WellFormed) (hClear : p.Clear)
    (hPlain : ∀ c ∈ p.commands, c.Plain) : s.ReadsBack Command.render p := by
  constructor
  · exact h.commands_ne_nil
  · intro c hc
    exact (h.commands c hc).args_ne_nil
  · intro c hHead
    have hc := List.mem_of_mem_head? hHead
    refine reads_shown (h.commands c hc) (hPlain c hc) (fun _ => rfl) ?_
    intro arg hArg
    refine .inr ⟨hClear.not_assignment c hc arg hArg, ?_⟩
    rintro - hIgnore hEnv rfl
    exact hClear.not_ignore hIgnore c hHead hEnv hArg
  · intro c hTail
    have hc := List.mem_of_mem_tail hTail
    have hFirst : ∀ arg ∈ c.args.head?, TakesArgument false ⟨⟨[], c.env, []⟩, false⟩ arg := by
      intro arg hArg
      exact .inr ⟨hClear.not_assignment c hc arg hArg, fun hFirst => absurd hFirst Bool.false_ne_true⟩
    have hReads := reads_shown (s := s) (h.commands c hc) (hPlain c hc) id hFirst
    rwa [if_neg Bool.false_ne_true, String.empty_append] at hReads

end Setting

theorem Script.parse_render (s : Setting) {t : Script} (h : t.WellFormed) (hClear : t.Clear) (hPlain : t.Plain) :
    ∃ t', Script.parse s t.render = .ok t' ∧ t'.unplaced = t.unplaced := by
  have hReads : ∀ st ∈ t.statements, ∀ p ∈ st.alternatives, s.ReadsBack Command.render p := by
    intro st hst p hp
    exact readsBack_shown (h st hst p hp) (hClear st hst p hp) (hPlain st hst p hp)
  obtain ⟨statements⟩ := t
  cases statements with
  | nil =>
    have hEmpty : Script.render ⟨[]⟩ = "" := String.intercalate_nil
    refine ⟨⟨[]⟩, ?_, rfl⟩
    rw [hEmpty, Script.parse_of_other s (by decide), statements_nil (by decide)]
    rfl
  | cons st more =>
    have hStarts : Starts (Script.render ⟨st :: more⟩).toList :=
      starts_intercalate (starts_written (hReads st List.mem_cons_self)) ⟨';', rfl, by decide⟩
        (more.map Statement.render)
    obtain ⟨sts, hRead, hSame⟩ := statements_written (.inl rfl) hReads
      (congrArg Cursor.rest (hStarts.skipBlanks_eq (c := ⟨.start, _⟩) rfl))
    refine ⟨⟨sts⟩, ?_, congrArg Script.mk hSame⟩
    rw [Script.parse_of_other s hStarts.head_ne_bar]
    exact congrArg _ hRead

/-- The words could begin a raw literal, a comment or a redirection, and mean something in other places. -/
theorem Script.parse_render_words :
    let t : Script := ⟨[⟨⟨[⟨["/", "r", "2", "K=1"], [("K", "=/")], [⟨2, .file "//a", true⟩, ⟨1, .fd 2, false⟩]⟩,
      ⟨["ignore"], [], []⟩], true, "", 0⟩, [⟨[⟨["=x"], [], [⟨0, .null, false⟩]⟩], false, "", 0⟩]⟩]⟩
    let text := "ignore K==/ / r 2 K=1 2>>//a 1>&2 | ignore || =x </dev/null"
    t.WellFormed ∧ t.Clear ∧ t.Plain ∧ t.render = text ∧
      ∃ t', Script.parse ⟨[("v", "x")], "f", 7⟩ text = .ok t' ∧ t'.unplaced = t.unplaced := by
  intro t text
  have hFirst : Command.WellFormed
      ⟨["/", "r", "2", "K=1"], [("K", "=/")], [⟨2, .file "//a", true⟩, ⟨1, .fd 2, false⟩]⟩ := by
    refine ⟨⟨List.pairwise_singleton _ _, ?_, ?_⟩, by simp⟩
    · rw [List.forall_mem_singleton]
      exact ⟨'K', [], by decide, by decide, rfl⟩
    · rw [List.forall_mem_cons, List.forall_mem_singleton]
      constructor <;> constructor <;> simp [nullDevice]
  have hFallback : Command.WellFormed ⟨["=x"], [], [⟨0, .null, false⟩]⟩ := by
    refine ⟨⟨.nil, List.forall_mem_nil _, ?_⟩, by simp⟩
    rw [List.forall_mem_singleton]
    constructor <;> simp
  have hSecond : Command.WellFormed ⟨["ignore"], [], []⟩ :=
    ⟨⟨.nil, List.forall_mem_nil _, List.forall_mem_nil _⟩, by simp⟩
  have hWell : t.WellFormed := by
    simp only [Script.WellFormed, t, List.forall_mem_singleton, Statement.alternatives, List.forall_mem_cons]
    exact ⟨⟨by simp, by simpa using ⟨hFirst, hSecond⟩⟩, by simp, by simpa using hFallback⟩
  have hClear : t.Clear := by
    simp only [Script.Clear, t, List.forall_mem_singleton, Statement.alternatives, List.forall_mem_cons]
    refine ⟨⟨?_, by simp⟩, ?_, by simp⟩
    · simpa using ⟨by decide, by decide⟩
    · simpa using (by decide)
  have hPlain : t.Plain := by
    simp only [Script.Plain, t, List.forall_mem_singleton, Statement.alternatives, List.forall_mem_cons]
    refine ⟨⟨⟨?_, ?_, ?_⟩, ?_, by simp, by simp⟩, ?_, by simp, by simp⟩
    · simp only [List.forall_mem_cons]
      exact ⟨by decide, by decide, by decide, by decide, by simp⟩
    · simpa using (by decide : IsPlainText "=/")
    · simpa using (by decide : IsPlainText "//a")
    · simpa using (by decide : IsPlainText "ignore")
    · simpa using (by decide : IsPlainText "=x")
  have hText : t.render = text := by decide +kernel
  exact ⟨hWell, hClear, hPlain, hText, hText ▸ Script.parse_render _ hWell hClear hPlain⟩

end Pipework
