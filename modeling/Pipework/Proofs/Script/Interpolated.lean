import Pipework.Proofs.Script.Rendered.Reading

/-!
# Texts with variables within quotes

Any text can be written within quotes, with variables in its midst: a quote or a dollar that stands for
itself has a backslash before it, and a variable stands in braces. Reading gives the text back with the
values in place of the variables, and what the values hold is not read again. A backslash stands for
itself before any other character, but there is no way to write one right before a quote, a dollar or a
variable, so a literal piece must not end in one.
-/

namespace Pipework

open Cursor Setting

/-- A piece of a text within quotes: characters that stand for themselves, or a variable of the table. -/
inductive Segment (symbols : Table) where
  | literal (text : String) (hLast : text.toList.getLast? ≠ some '\\')
  | bound (name value : String) (hName : IsName name) (hValue : symbols.find? name = some value)

namespace Segment

variable {symbols : Table}

def escape (text : List Char) : List Char :=
  text.flatMap fun x => if x = '"' ∨ x = '$' then ['\\', x] else [x]

def written : Segment symbols → List Char
  | literal text _ => escape text.toList
  | bound name _ _ _ => '$' :: '{' :: name.toList ++ ['}']

def meaning : Segment symbols → List Char
  | literal text _ => text.toList
  | bound _ value _ _ => value.toList

theorem head_escape {text : List Char} (hne : text ≠ []) (rest : List Char) {y : Char}
    (hy : y = '"' ∨ y = '$') : (escape text ++ rest).head? ≠ some y := by
  obtain ⟨x, text, rfl⟩ := List.exists_cons_of_ne_nil hne
  rw [escape, List.flatMap_cons]
  split
  · rcases hy with rfl | rfl <;> simp
  · next hx =>
    simp only [List.cons_append, List.nil_append, List.head?_cons, ne_eq, Option.some.injEq]
    rintro rfl
    exact hx hy

end Segment

namespace Setting

variable {s : Setting} {start c : Cursor} {rest : List Char}

theorem quotedText_escaped {text : List Char} (hLast : text.getLast? ≠ some '\\')
    (h : c.rest = Segment.escape text ++ rest) :
    ∃ c', c'.rest = rest ∧ s.quotedText start c =
      (s.quotedText start c').map fun (more, e) => (text ++ more, e) := by
  induction text generalizing c with
  | nil =>
    refine ⟨c, h, ?_⟩
    cases s.quotedText start c <;> rfl
  | cons x text ih =>
    have hMore : text.getLast? ≠ some '\\' := by
      cases text with
      | nil => simp
      | cons y text => simpa using hLast
    by_cases hx : x = '"' ∨ x = '$'
    · have hRest : c.rest = '\\' :: x :: (Segment.escape text ++ rest) := by
        rw [h, Segment.escape, List.flatMap_cons, if_pos hx]
        rfl
      obtain ⟨c', hRest', hRead⟩ := ih hMore (by rw [rest_skip, hRest]; rfl : (c.skip 2).rest = _)
      refine ⟨c', hRest', ?_⟩
      rw [quotedText_cons hRest, if_neg (by decide), if_pos (by rcases hx with rfl | rfl <;> simp), hRead]
      cases s.quotedText start c' <;> rfl
    · have hRest : c.rest = x :: (Segment.escape text ++ rest) := by
        rw [h, Segment.escape, List.flatMap_cons, if_neg hx]
        rfl
      obtain ⟨hQuote, hDollar⟩ := not_or.mp hx
      have hPlain : (x == '\\' && ((Segment.escape text ++ rest).head? == some '$' ||
          (Segment.escape text ++ rest).head? == some '"')) = false := by
        -- A backslash is not the last character, and what is written for the next one is no quote or dollar.
        by_cases hBackslash : x = '\\'
        · have hne : text ≠ [] := by
            rintro rfl
            simp [hBackslash] at hLast
          have hHead := @Segment.head_escape text hne rest
          rw [beq_eq_false_iff_ne.mpr (hHead (.inr rfl)), beq_eq_false_iff_ne.mpr (hHead (.inl rfl))]
          simp
        · simp [hBackslash]
      obtain ⟨c', hRest', hRead⟩ := ih hMore (by rw [rest_advance, hRest]; rfl : c.advance.rest = _)
      refine ⟨c', hRest', ?_⟩
      rw [quotedText_cons hRest, if_neg (by simpa using hQuote), hPlain, if_neg (by simp),
        if_neg (by simpa using hDollar), hRead]
      cases s.quotedText start c' <;> rfl

theorem name_written {name : String} (hName : IsName name) (h : c.rest = name.toList ++ '}' :: rest) :
    ∃ c', c'.rest = '}' :: rest ∧ c.name = (name.toList, c') := by
  have hTake : c.rest.takeWhile isNameChar = name.toList := by
    rw [h, List.takeWhile_append_of_pos hName.nameChar]
    simp [isNameChar, isNameStart]
  have hDrop : c.rest.dropWhile isNameChar = '}' :: rest := by
    rw [h, List.dropWhile_append_of_pos hName.nameChar]
    rfl
  refine ⟨(c.span isNameChar).2, hDrop, ?_⟩
  obtain ⟨first, more, hText, hFirst, -⟩ := hName
  have hRest : c.rest = first :: (more ++ '}' :: rest) := by rw [h, hText]; rfl
  simp only [Cursor.name, hRest, hFirst, if_true]
  exact Prod.ext hTake rfl

theorem dollar_variable {name value : String} (hName : IsName name)
    (hValue : s.symbols.find? name = some value) (h : c.rest = '$' :: ('{' :: name.toList ++ '}' :: rest)) :
    ∃ c', c'.rest = rest ∧ s.dollar c = .ok (value.toList, c') := by
  have hBrace : c.advance.rest = '{' :: (name.toList ++ '}' :: rest) := by rw [rest_advance, h]; rfl
  have hInner : c.advance.advance.rest = name.toList ++ '}' :: rest := by rw [rest_advance, hBrace]; rfl
  obtain ⟨c', hRest, hTaken⟩ := name_written hName hInner
  have hne : name.toList ≠ [] := by
    obtain ⟨first, more, hText, -⟩ := hName
    rw [hText]
    exact List.cons_ne_nil first more
  refine ⟨c'.advance, by rw [rest_advance, hRest]; rfl, ?_⟩
  simp [dollar, at?, hBrace, hTaken, hne, hRest, resolve, hValue]

theorem quotedText_segments (segments : List (Segment s.symbols))
    (h : c.rest = segments.flatMap Segment.written ++ rest) :
    ∃ c', c'.rest = rest ∧ s.quotedText start c =
      (s.quotedText start c').map fun (more, e) => (segments.flatMap Segment.meaning ++ more, e) := by
  induction segments generalizing c with
  | nil =>
    refine ⟨c, h, ?_⟩
    cases s.quotedText start c <;> rfl
  | cons segment segments ih =>
    obtain ⟨c₁, hRest₁, hFirst⟩ : ∃ c₁, c₁.rest = segments.flatMap Segment.written ++ rest ∧
        s.quotedText start c =
          (s.quotedText start c₁).map fun (more, e) => (segment.meaning ++ more, e) := by
      rw [List.flatMap_cons, List.append_assoc] at h
      cases segment with
      | literal text hLast => exact quotedText_escaped hLast h
      | bound name value hName hValue =>
        have hDollar : c.rest =
            '$' :: ('{' :: name.toList ++ '}' :: (segments.flatMap Segment.written ++ rest)) := by
          rw [h]
          simp [Segment.written]
        obtain ⟨c₁, hRest₁, hOk⟩ := dollar_variable hName hValue hDollar
        refine ⟨c₁, hRest₁, ?_⟩
        rw [quotedText_cons hDollar, if_neg (by decide), if_neg (by simp), if_pos (by decide), hOk]
        rfl
    obtain ⟨c', hRest, hMore⟩ := ih hRest₁
    refine ⟨c', hRest, ?_⟩
    rw [hFirst, hMore]
    cases s.quotedText start c' <;> simp [Except.map]

theorem reads_segments (first : Bool) (d : Draft) (segments : List (Segment s.symbols)) :
    s.Reads first d (String.ofList ('"' :: segments.flatMap Segment.written ++ ['"']))
      (d.addArg (String.ofList (segments.flatMap Segment.meaning))) := by
  have hText := @String.toList_ofList ('"' :: segments.flatMap Segment.written ++ ['"'])
  refine .of_word (.of_ne hText (by decide) (by decide) (by decide) (by decide)) ?_ ?_
  · rw [hText]
    rintro _ ⟨⟩
    decide
  · intro c rest hSpaced h
    have hOpen : c.rest = '"' :: (segments.flatMap Segment.written ++ '"' :: rest) := by
      rw [h, hText]
      simp
    have hInner : c.advance.rest = segments.flatMap Segment.written ++ '"' :: rest := by
      rw [rest_advance, hOpen]
      rfl
    obtain ⟨c₁, hRest₁, hQuoted⟩ := @quotedText_segments s c _ _ segments hInner
    have hEnd : c₁.advance.rest = rest := by rw [rest_advance, hRest₁]; rfl
    have hPiece : s.piece true '"' c =
        .ok (⟨segments.flatMap Segment.meaning, false, true⟩, c₁.advance) := by
      have hFence : c.rawFence? = none := by simp [rawFence?, hOpen]
      simp only [piece, if_true, hFence, beq_self_eq_true, hQuoted, quotedText_cons hRest₁]
      simp [Except.map]
    refine ⟨c₁.advance, ⟨segments.flatMap Segment.meaning, some 0⟩, hEnd, ?_, ?_⟩
    · rw [word, wordFrom_cons hOpen, if_neg (by decide), hPiece]
      dsimp only [Except.bind]
      rw [s.wordFrom_end true (hEnd ▸ hSpaced.endsWord)]
      simp [Except.map, Piece.before]
    · simpa using addWord_of_literal first d (String.ofList (segments.flatMap Segment.meaning))

theorem parse_of_reads {text : String} {command : Command} (h : s.Reads true .empty text ⟨command, false⟩)
    (hArgs : command.args ≠ []) :
    Script.parse s text = .ok ⟨[⟨⟨[command], false, s.file, s.lineOf .start⟩, []⟩]⟩ := by
  have hBlanks : skipBlanks ⟨.start, text.toList⟩ = ⟨.start, text.toList⟩ := h.starts.skipBlanks_eq rfl
  obtain ⟨c, hRest, hRead⟩ := h.reads ⟨.start, text.toList⟩ [] (by rintro _ ⟨⟩) (by rw [hBlanks, List.append_nil])
  rw [commandFrom_of_end _ (.inl hRest)] at hRead
  rw [parse_alone h.starts, hRead]
  · rfl
  · intro d e hOk
    cases hRead.symm.trans hOk
    exact ⟨hArgs, hRest⟩

end Setting

/-- A command with an argument of any pieces within quotes. -/
theorem Script.parse_interpolated (s : Setting) (segments : List (Segment s.symbols)) :
    Script.parse s ("x \"" ++ String.ofList (segments.flatMap Segment.written) ++ "\"") =
      .ok ⟨[⟨⟨[⟨["x", String.ofList (segments.flatMap Segment.meaning)], [], []⟩], false, s.file,
        s.lineOf .start⟩, []⟩]⟩ := by
  have hText : "x \"" ++ String.ofList (segments.flatMap Segment.written) ++ "\"" =
      "x" ++ " " ++ String.ofList ('"' :: segments.flatMap Segment.written ++ ['"']) := by
    rw [← String.toList_inj]
    simp
  have hFirst : s.Reads true .empty "x" (Draft.empty.addArg "x") :=
    reads_argument (by decide) (by decide) (.inr ⟨by decide, fun _ _ _ => by decide⟩)
  rw [hText]
  exact parse_of_reads (hFirst.join (reads_segments true _ segments)) (List.cons_ne_nil _ _)

/-- A literal with a quote in it, and a variable whose value holds a quote and a dollar. -/
theorem Script.parse_interpolated_quotes :
    let s : Setting := ⟨[("v", "\"$v")], "", 1⟩
    ∃ segments : List (Segment s.symbols),
      segments.map Segment.written = ["a\\\"".toList, "$\x7bv\x7d".toList] ∧
        Script.parse s "x \"a\\\"$\x7bv\x7d\"" = .ok ⟨[⟨⟨[⟨["x", "a\"\"$v"], [], []⟩], false, "", 1⟩, []⟩]⟩ := by
  intro s
  have hLast : "a\"".toList.getLast? ≠ some '\\' := by decide
  have hName : IsName "v" := ⟨'v', [], rfl, by decide, by simp⟩
  have hValue : s.symbols.find? "v" = some "\"$v" := rfl
  have hParse := Script.parse_interpolated s [.literal _ hLast, .bound _ _ hName hValue]
  have hLine : s.lineOf .start = 1 := by decide
  rw [hLine] at hParse
  exact ⟨[.literal _ hLast, .bound _ _ hName hValue], rfl, hParse⟩

/-- A table may bind what is not a name, and a variable in braces does not stand for that. -/
theorem Script.parse_interpolated_other :
    Table.find? "build-dir" [("build-dir", "out")] = some "out" ∧
      Script.parse ⟨[("build-dir", "out")], "", 0⟩ "x \"$\x7bbuild-dir\x7d\"" =
        .error ⟨.badSubstitution, "build", "$\x7bbuild-", 3, 1, 4, "", 0⟩ := by
  decide +kernel

end Pipework
