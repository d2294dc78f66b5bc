import Pipework.Proofs.Script.Pairing.Script

/-!
# Scripts one after the other

A text that reads well can be put in front of any other, with a semicolon on a line of its own between
them. Reading the whole gives the statements of the first text and then those of the second, or the
mistake that reading the second gives; only the places move. It does not matter how the first text ends,
be it in a comment, at a bar, or with a character that might have gone together with the next one.
-/

namespace Pipework

open Cursor Setting

def Pipeline.lowered (lines : Nat) (p : Pipeline) : Pipeline := { p with line := p.line + lines }

def Statement.lowered (lines : Nat) (st : Statement) : Statement :=
  ⟨st.first.lowered lines, st.fallbacks.map (Pipeline.lowered lines)⟩

/-- The same mistake with `offset` characters on `lines` lines put in front of the script. -/
def Mistake.moved (offset lines : Nat) (m : Mistake) : Mistake :=
  { m with offset := m.offset + offset, line := m.line + lines }

/-- After a line end only the number of the characters and lines passed is left of the text before. -/
theorem Position.next_newline (p : Position) :
    p.next '\n' = Position.start.moved (p.offset + 1) p.line := by
  simp [next, start, moved, Nat.add_comm]

namespace Pairing

theorem moved_ofTexts {s : Setting} {offset lines : Nat} {tail : List Char}
    {hTail : tail = [] ∨ tail.head? = some '\n'} {m : Mistake} (hFile : m.file = s.file)
    (hLine : m.fileLine = s.line) : (ofTexts s offset lines tail hTail).moved m = m.moved offset lines := by
  rw [moved, ← hFile, ← hLine]
  rfl

theorem StatementAlike.eq_lowered {symbols : Table} {file : String} {offset lines : Nat} {tail : List Char}
    {hTail : tail = [] ∨ tail.head? = some '\n'} {st₁ st₂ : Statement}
    (h : (ofTexts ⟨symbols, file, 0⟩ offset lines tail hTail).StatementAlike st₁ st₂) :
    st₂ = st₁.lowered lines :=
  h.eq_relined (f := (· + (lines : Int))) rfl rfl fun pos => by simp [lineOf, Position.moved, ofTexts]

end Pairing

theorem Statement.lowered_zero (st : Statement) : st.lowered 0 = st := by
  have hPipeline : Pipeline.lowered 0 = id := by
    funext p
    simp [Pipeline.lowered]
  simp [Statement.lowered, hPipeline]

/-- Past the end of the first text and the semicolon, the reading is where a reading of the second text
begins, only further down. -/
theorem Setting.statements_after (s : Setting) (a b : List Char) {stop : Cursor}
    (hReach : Cursor.Reaches ⟨.start, a⟩ stop) (hEnd : stop.rest = []) :
    s.statements (skipBlanks ⟨stop.pos, '\n' :: ';' :: '\n' :: b⟩).advance =
      s.statements ⟨Position.start.moved (a.length + 3) (a.count '\n' + 2), b⟩ := by
  obtain ⟨taken, hTaken, hPos⟩ := hReach
  obtain rfl : a = taken := by simpa [hEnd] using hTaken
  have hOffset : stop.pos.offset = a.length := by
    rw [hPos, Position.foldl_next_offset]
    exact Nat.zero_add _
  have hLine : stop.pos.line = a.count '\n' + 1 := by
    rw [hPos, Position.foldl_next_line]
    exact Nat.add_comm _ _
  have hSemicolon : (skipBlanks ⟨stop.pos, '\n' :: ';' :: '\n' :: b⟩).advance =
      ⟨(stop.pos.next '\n').next ';', '\n' :: b⟩ := rfl
  have hBelow : ((stop.pos.next '\n').next ';').next '\n' =
      Position.start.moved (a.length + 3) (a.count '\n' + 2) := by
    rw [Position.next_newline, Position.offset_next, Position.offset_next, hOffset]
    simp [Position.next, hLine]
  rw [hSemicolon, ← hBelow]
  exact s.statements_congr (skipWhile_of_pos rfl (by decide))

theorem Setting.statements_lowered (symbols : Table) (file : String) (offset lines : Nat) (b : List Char) :
    statements ⟨symbols, file, 0⟩ ⟨Position.start.moved offset lines, b⟩ =
      match statements ⟨symbols, file, 0⟩ ⟨.start, b⟩ with
      | .ok sts => .ok (sts.map (Statement.lowered lines))
      | .error m => .error (m.moved offset lines) := by
  let P := Pairing.ofTexts ⟨symbols, file, 0⟩ offset lines [] (.inl rfl)
  have hLift : P.lift ⟨.start, b⟩ = ⟨Position.start.moved offset lines, b⟩ :=
    congrArg (Cursor.mk _) (List.append_nil b)
  have hAgree := Pairing.statements_agree (P := P) (c := ⟨.start, b⟩) (.inl rfl) rfl (.inl rfl)
  rw [hLift] at hAgree
  generalize statements ⟨symbols, file, 0⟩ ⟨.start, b⟩ = first at hAgree ⊢
  generalize statements ⟨symbols, file, 0⟩ ⟨Position.start.moved offset lines, b⟩ = second at hAgree ⊢
  cases hAgree with
  | ok h => exact congrArg _ (eq_map_of_forall₂ h fun _ _ => Pairing.StatementAlike.eq_lowered)
  | excused h => exact absurd rfl h
  | mistake hFile hLine => exact congrArg _ (Pairing.moved_ofTexts hFile hLine)

/-- A text that reads well is followed by the statements that stand behind the semicolon. -/
theorem Script.parse_continue (symbols : Table) (file : String) {a : String} (b : String) {ta : Script}
    (h : Script.parse ⟨symbols, file, 0⟩ a = .ok ta) :
    Script.parse ⟨symbols, file, 0⟩ (a ++ "\n;\n" ++ b) =
      (Setting.statements ⟨symbols, file, 0⟩
        ⟨Position.start.moved (a.toList.length + 3) (a.toList.count '\n' + 2), b.toList⟩).map
          fun sts => Script.mk (ta.statements ++ sts) := by
  let s : Setting := ⟨symbols, file, 0⟩
  let P := Pairing.ofTexts s 0 0 ('\n' :: ';' :: '\n' :: b.toList) (.inr rfl)
  have hCloses : P.Closes := .inr ⟨_, rfl⟩
  rw [Script.parse_eq] at h
  obtain ⟨c, hHeader, h⟩ := bind_eq_ok h
  obtain ⟨sts, hStatements, rfl⟩ := map_eq_ok h
  have hText : (a ++ "\n;\n" ++ b).toList = a.toList ++ '\n' :: ';' :: '\n' :: b.toList := by simp
  obtain ⟨e, hSecond, hMeets⟩ : ∃ e, s.skipHeader ⟨.start, (a ++ "\n;\n" ++ b).toList⟩ = .ok e ∧
      P.Meets c e := by
    have hAgree := Pairing.skipHeader_agree hCloses (c := ⟨.start, a.toList⟩) (.inl rfl)
    rw [hHeader] at hAgree
    rw [hText]
    exact hAgree.ok_of_ok
  obtain ⟨stop, sts', hReach, hEnd, hAlike, hRest⟩ :=
    Pairing.statements_continue hCloses (List.cons_ne_nil _ _) hMeets hStatements
  have hLift : P.lift stop = ⟨stop.pos, '\n' :: ';' :: '\n' :: b.toList⟩ := by
    simp [Pairing.lift, hEnd, P, Pairing.ofTexts, Position.moved]
  have hSame : sts' = sts := by
    rw [eq_map_of_forall₂ hAlike fun _ _ => Pairing.StatementAlike.eq_lowered]
    exact List.map_id'' Statement.lowered_zero sts
  have hAfter := s.statements_after a.toList b.toList ((reaches_skipHeader hHeader).trans hReach) hEnd
  rw [hLift, hAfter, hSame] at hRest
  rw [Script.parse_eq, hSecond]
  dsimp only [Except.bind]
  rw [hRest]
  generalize s.statements _ = rest
  cases rest <;> rfl

theorem Script.parse_sequence (symbols : Table) (file : String) {a b : String} {ta : Script}
    (ha : Script.parse ⟨symbols, file, 0⟩ a = .ok ta)
    (hb : (b.toList.dropWhile isBlank).head? ≠ some '|') :
    Script.parse ⟨symbols, file, 0⟩ (a ++ "\n;\n" ++ b) =
      match Script.parse ⟨symbols, file, 0⟩ b with
      | .ok tb => .ok ⟨ta.statements ++ tb.statements.map (Statement.lowered (a.toList.count '\n' + 2))⟩
      | .error m => .error (m.moved (a.length + 3) (a.toList.count '\n' + 2)) := by
  rw [Script.parse_continue symbols file b ha, Script.parse_of_other _ hb, Setting.statements_lowered,
    String.length_toList]
  cases Setting.statements ⟨symbols, file, 0⟩ ⟨.start, b.toList⟩ <;> rfl

/-- The first text ends in a comment after a bar that no command follows. -/
theorem Script.parse_sequence_comment :
    let x : Statement := ⟨⟨[⟨["x", "1"], [], []⟩], false, "", 1⟩, []⟩
    Script.parse ⟨[("v", "1")], "", 0⟩ "x $v |\n//" = .ok ⟨[x]⟩ ∧
      Script.parse ⟨[("v", "1")], "", 0⟩ ("x $v |\n//" ++ "\n;\n" ++ "/y") =
        .ok ⟨[x, ⟨⟨[⟨["/y"], [], []⟩], false, "", 4⟩, []⟩]⟩ ∧
      Script.parse ⟨[("v", "1")], "", 0⟩ ("x $v |\n//" ++ "\n;\n" ++ "y\n >$z") =
        .error ⟨.unresolvedVariable, "z", "$z", 16, 5, 3, "", 0⟩ := by
  intro x
  have hFirst : Script.parse ⟨[("v", "1")], "", 0⟩ "x $v |\n//" = .ok ⟨[x]⟩ := by decide +kernel
  refine ⟨hFirst, ?_, ?_⟩
  · rw [Script.parse_sequence _ _ hFirst (by decide)]
    decide +kernel
  · rw [Script.parse_sequence _ _ hFirst (by decide)]
    decide +kernel

end Pipework
