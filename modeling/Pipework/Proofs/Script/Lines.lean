import Pipework.Proofs.Script.Gap
import Pipework.Proofs.Script.Pairing.Script

/-!
# The lines of pipelines

Every pipeline knows the line where it begins: that of the first character, past white space and
comments, after the semicolon or the bars that introduce it, or after the head of the script. Lines are
counted from the one where the script stands in the text that holds it, in 64 bits. As long as they fit,
they grow from one pipeline to the next, they stay within the lines of the script, and a script that
stands further down has them all greater by as much.
-/

namespace Pipework

open Cursor Setting

theorem wrapLine_add (a b : Int) : wrapLine (wrapLine a + b) = wrapLine (a + b) := by
  simp only [wrapLine, Int64.toInt_ofInt, Int.bmod_add_bmod]

theorem wrapLine_of_fits {n : Int} (hLeast : 0 ≤ n) (hMost : n ≤ 0x7FFFFFFFFFFFFFFF) : wrapLine n = n :=
  Int64.toInt_ofInt_of_le (by omega) (by omega)

theorem Setting.lineOf_of_pos {s : Setting} (h : 1 ≤ s.line) (pos : Position) :
    s.lineOf pos = wrapLine (s.line - 1 + pos.line) :=
  if_pos h

/-- The pipelines of a script in the order of the text. -/
def Script.pipelines (t : Script) : List Pipeline := t.statements.flatMap Statement.alternatives

theorem Script.relined_congr {t : Script} {f g : Int → Int} (h : ∀ p ∈ t.pipelines, f p.line = g p.line) :
    t.relined f = t.relined g := by
  have hPipeline : ∀ p ∈ t.pipelines, p.relined f = p.relined g := by
    intro p hp
    rw [Pipeline.relined, h p hp]
    rfl
  refine congrArg Script.mk (List.map_congr_left fun st hst => ?_)
  have hAlternatives : ∀ p ∈ st.alternatives, p.relined f = p.relined g :=
    fun p hp => hPipeline p (List.mem_flatMap_of_mem hst hp)
  obtain ⟨hFirst, hFallbacks⟩ := List.forall_mem_cons.mp hAlternatives
  rw [Statement.relined, hFirst, List.map_congr_left hFallbacks]
  rfl

namespace Setting

variable (s : Setting)

/-- From the cursor on pipelines are read up to the end, each with the cursor that it is read from. What
ends one and introduces the next is a semicolon or two bars. -/
inductive Row : Cursor → List (Cursor × Pipeline) → Prop
  | last {c c' : Cursor} {found : Option Pipeline} (h : s.pipeline c = .ok (found, c')) (hEnd : c'.rest = []) :
    Row c (found.toList.map (c, ·))
  | next {c c' next : Cursor} {found : Option Pipeline} {row : List (Cursor × Pipeline)}
    (h : s.pipeline c = .ok (found, c'))
    (hNext : c'.at? ';' = true ∧ next = c'.advance ∨ atFallback c' = true ∧ next = c'.skip 2)
    (hRow : Row next row) : Row c (found.toList.map (c, ·) ++ row)

variable {s}

theorem pipelineFrom_line {p p' : Pipeline} {c c' : Cursor} (h : s.pipelineFrom p c = .ok (p', c')) :
    p'.line = p.line := by
  rw [pipelineFrom_eq] at h
  obtain ⟨⟨found, c₁⟩, hCommand, h⟩ := bind_eq_ok h
  have hLine : (extended p found).line = p.line := by cases found <;> rfl
  dsimp only at h
  split at h
  · next hBar =>
    have hLess := left_bar_lt hCommand hBar
    rw [pipelineFrom_line h, hLine]
  · cases h
    exact hLine
termination_by c.left

theorem pipeline_skipGap (c : Cursor) : s.pipeline c.skipGap = s.pipeline c := by
  rw [pipeline_eq, pipeline_eq, skipGap_skipGap]

theorem alternativesFrom_skipGap (alts : List Pipeline) (c : Cursor) :
    s.alternativesFrom alts c.skipGap = s.alternativesFrom alts c := by
  rw [alternativesFrom_eq, alternativesFrom_eq, pipeline_skipGap]

theorem pipeline_found {c c' : Cursor} {p : Pipeline} (h : s.pipeline c = .ok (some p, c')) :
    c.skipGap.rest ≠ [] ∧ p.line = s.lineOf c.skipGap.pos := by
  rw [pipeline_eq] at h
  obtain ⟨⟨p₁, c₁⟩, hRead, hFound⟩ := map_eq_ok h
  dsimp only at hFound
  split at hFound
  · cases hFound
  · next hCommands =>
    cases hFound
    refine ⟨?_, pipelineFrom_line hRead⟩
    intro hNil
    rw [pipelineFrom_of_end _ (.inl hNil)] at hRead
    cases hRead
    exact hCommands rfl

theorem alternativesFrom_row {alts alts' : List Pipeline} {c c' : Cursor}
    (h : s.alternativesFrom alts c = .ok (alts', c')) {row : List (Cursor × Pipeline)}
    (hRow : c'.rest = [] ∧ row = [] ∨ c'.at? ';' = true ∧ s.Row c'.advance row) :
    ∃ all, s.Row c all ∧ alts ++ all.map Prod.snd = alts' ++ row.map Prod.snd := by
  rw [alternativesFrom_eq] at h
  obtain ⟨⟨found, c₁⟩, hRead, h⟩ := bind_eq_ok h
  have hFound : (found.toList.map (c, ·)).map Prod.snd = found.toList := by cases found <;> rfl
  dsimp only at h
  split at h
  · next hBars =>
    split at h
    · cases h
    · have hLess := left_bars_lt hRead hBars
      obtain ⟨all, hAll, hSame⟩ := alternativesFrom_row h hRow
      refine ⟨_, .next hRead (.inr ⟨hBars, rfl⟩) hAll, ?_⟩
      rw [← hSame, List.map_append, hFound, List.append_assoc]
  · cases h
    rcases hRow with ⟨hEnd, rfl⟩ | ⟨hSemicolon, hRow⟩
    · exact ⟨_, .last hRead hEnd, by rw [hFound, List.map_nil, List.append_nil]⟩
    · refine ⟨_, .next hRead (.inl ⟨hSemicolon, rfl⟩) hRow, ?_⟩
      rw [List.map_append, hFound, List.append_assoc]
termination_by c.left

theorem flatMap_ofAlternatives? (alts : List Pipeline) :
    (ofAlternatives? alts).toList.flatMap Statement.alternatives = alts := by
  cases alts <;> simp [ofAlternatives?, Statement.alternatives]

theorem statements_row {c : Cursor} {sts : List Statement} (h : s.statements c = .ok sts) :
    ∃ row, s.Row c row ∧ row.map Prod.snd = sts.flatMap Statement.alternatives := by
  rw [statements_eq] at h
  split at h
  · next hEnd =>
    cases h
    have hRead : s.pipeline c = .ok (none, c.skipGap) := by
      rw [pipeline_eq, pipelineFrom_of_end _ (.inl hEnd)]
      rfl
    exact ⟨_, .last hRead hEnd, rfl⟩
  · next hMore =>
    obtain ⟨⟨found, c₁⟩, hStatement, h⟩ := bind_eq_ok h
    obtain ⟨rest, hRest, rfl⟩ := map_eq_ok h
    have hLess := left_statements_lt hMore hStatement
    rw [statement_eq, alternativesFrom_skipGap] at hStatement
    obtain ⟨⟨alts, e⟩, hAlts, hSame⟩ := map_eq_ok hStatement
    cases hSame
    obtain ⟨row, hRow, hMap⟩ : ∃ row, (e.rest = [] ∧ row = [] ∨ e.at? ';' = true ∧ s.Row e.advance row) ∧
        row.map Prod.snd = rest.flatMap Statement.alternatives := by
      rcases (alternativesFrom_ok hAlts).2 with hNil | hSemicolon
      · have hNot : e.at? ';' = false := by simp [at?, hNil]
        rw [hNot, if_neg Bool.false_ne_true, statements_nil hNil] at hRest
        cases hRest
        exact ⟨[], .inl ⟨hNil, rfl⟩, rfl⟩
      · obtain ⟨row, hRow, hMap⟩ := statements_row hRest
        rw [if_pos hSemicolon] at hRow
        exact ⟨row, .inr ⟨hSemicolon, hRow⟩, hMap⟩
    obtain ⟨all, hAll, hSame⟩ := alternativesFrom_row hAlts hRow
    refine ⟨all, hAll, ?_⟩
    rw [List.flatMap_append, flatMap_ofAlternatives?, ← hMap]
    exact hSame
termination_by c.left

variable (s)

/-- The pipeline was read at or after `c`, from the place where its line says that it begins. -/
structure Placed (c : Cursor) (entry : Cursor × Pipeline) : Prop where
  reach : c.Reaches entry.1
  rest_ne_nil : entry.1.skipGap.rest ≠ []
  line : entry.2.line = s.lineOf entry.1.skipGap.pos

variable {s}

theorem placed_found {c c' : Cursor} {found : Option Pipeline} (h : s.pipeline c = .ok (found, c')) :
    ∀ entry ∈ found.toList.map (c, ·), s.Placed c entry := by
  intro entry hEntry
  obtain ⟨p, hp, rfl⟩ := List.mem_map.mp hEntry
  obtain rfl : found = some p := by simpa using hp
  obtain ⟨hne, hLine⟩ := pipeline_found h
  exact ⟨.refl c, hne, hLine⟩

theorem reaches_next {c c' next : Cursor} {found : Option Pipeline} (h : s.pipeline c = .ok (found, c'))
    (hNext : c'.at? ';' = true ∧ next = c'.advance ∨ atFallback c' = true ∧ next = c'.skip 2) :
    c.Reaches next := by
  refine (reaches_pipeline h).trans ?_
  rcases hNext with ⟨hSemicolon, rfl⟩ | ⟨hBars, rfl⟩
  · exact reaches_advance_at hSemicolon
  · exact reaches_skip (room_of_fallback hBars)

theorem Row.placed {c : Cursor} {row : List (Cursor × Pipeline)} (h : s.Row c row) :
    ∀ entry ∈ row, s.Placed c entry := by
  induction h with
  | last hRead hEnd => exact placed_found hRead
  | next hRead hNext hRow ih =>
    intro entry hEntry
    rcases List.mem_append.mp hEntry with hHere | hLater
    · exact placed_found hRead entry hHere
    · obtain ⟨hReach, hne, hLine⟩ := ih entry hLater
      exact ⟨(reaches_next hRead hNext).trans hReach, hne, hLine⟩

end Setting

theorem Cursor.Reaches.line_le {c c' : Cursor} (h : c.Reaches c') : c.pos.line ≤ c'.pos.line := by
  obtain ⟨taken, -, hPos⟩ := h
  rw [hPos, Position.foldl_next_line]
  exact Nat.le_add_right _ _

theorem Cursor.On.line_eq {text : List Char} {c : Cursor} (h : c.On text) :
    c.pos.line = (text.take c.pos.offset).count '\n' + 1 := by
  have hLine := congrArg Position.line h.pos_eq
  rw [Position.foldl_next_line] at hLine
  exact hLine.trans (Nat.add_comm _ _)

theorem Setting.Row.ordered {s : Setting} {c : Cursor} {row : List (Cursor × Pipeline)} (h : s.Row c row) :
    row.Pairwise fun a b => a.1.skipGap.pos.line ≤ b.1.skipGap.pos.line := by
  have hOne : ∀ (c : Cursor) (found : Option Pipeline),
      (found.toList.map (c, ·)).Pairwise fun a b => a.1.skipGap.pos.line ≤ b.1.skipGap.pos.line := by
    intro c found
    cases found <;> simp
  induction h with
  | last hRead hEnd => exact hOne _ _
  | @next c c' next found row hRead hNext hRow ih =>
    refine List.pairwise_append.mpr ⟨hOne _ _, ih, ?_⟩
    intro a ha b hb
    obtain ⟨p, -, rfl⟩ := List.mem_map.mp ha
    -- The gap before a pipeline is passed before anything that comes after the pipeline.
    have hNextReach : c.skipGap.Reaches next := reaches_next ((pipeline_skipGap c).trans hRead) hNext
    exact (hNextReach.trans ((hRow.placed b hb).reach.trans (reaches_skipGap b.1))).line_le

/-- Each pipeline of `t` is in the line `place n` if the first character after what introduces it, past
white space and comments, is in the `n`-th line of the text. -/
def Script.StandsAt (s : Setting) (text : List Char) (place : Nat → Int) (t : Script) : Prop :=
  ∃ c row, s.skipHeader ⟨.start, text⟩ = .ok c ∧ s.Row c row ∧ row.map Prod.snd = t.pipelines ∧
    ∀ entry ∈ row, ∃ first, FirstFrom text entry.1.pos.offset first ∧
      entry.2.line = place ((text.take first).count '\n' + 1)

theorem Script.StandsAt.imp {s : Setting} {text : List Char} {place place' : Nat → Int} {t : Script}
    (h : t.StandsAt s text place) (hPlace : ∀ n, n ≤ text.count '\n' + 1 → place n = place' n) :
    t.StandsAt s text place' := by
  obtain ⟨c, row, hHeader, hRow, hPipelines, hFirst⟩ := h
  refine ⟨c, row, hHeader, hRow, hPipelines, ?_⟩
  intro entry hEntry
  obtain ⟨first, hFrom, hLine⟩ := hFirst entry hEntry
  have hCount := (List.take_sublist first text).count_le '\n'
  exact ⟨first, hFrom, hLine.trans (hPlace _ (by omega))⟩

section Parsed

variable {s : Setting} (hLine : 1 ≤ s.line) {text : String} {t : Script} (h : Script.parse s text = .ok t)

include h

theorem Script.exists_row : ∃ c row, s.skipHeader ⟨.start, text.toList⟩ = .ok c ∧ s.Row c row ∧
    row.map Prod.snd = t.pipelines ∧ ∀ entry ∈ row, entry.1.On text.toList ∧ s.Placed c entry := by
  rw [Script.parse_eq] at h
  obtain ⟨c, hHeader, h⟩ := bind_eq_ok h
  obtain ⟨sts, hStatements, rfl⟩ := map_eq_ok h
  obtain ⟨row, hRow, hPipelines⟩ := statements_row hStatements
  refine ⟨c, row, hHeader, hRow, hPipelines, ?_⟩
  intro entry hEntry
  have hPlaced := hRow.placed entry hEntry
  exact ⟨(reaches_skipHeader hHeader).trans hPlaced.reach, hPlaced⟩

include hLine

theorem Script.standsAt_wrapped : t.StandsAt s text.toList fun n => wrapLine (s.line - 1 + n) := by
  obtain ⟨c, row, hHeader, hRow, hPipelines, hPlaced⟩ := Script.exists_row h
  refine ⟨c, row, hHeader, hRow, hPipelines, ?_⟩
  intro entry hEntry
  obtain ⟨hOn, -, hne, hPlace⟩ := hPlaced entry hEntry
  refine ⟨_, hOn.firstFrom hne, ?_⟩
  rw [hPlace, lineOf_of_pos hLine, (hOn.reach (reaches_skipGap _)).line_eq]

theorem Script.exists_lines : ∃ lines : List Nat,
    t.pipelines.map Pipeline.line = lines.map (fun n : Nat => wrapLine (s.line - 1 + n)) ∧
      lines.Pairwise (· ≤ ·) ∧ ∀ n ∈ lines, 1 ≤ n ∧ n ≤ text.toList.count '\n' + 1 := by
  obtain ⟨c, row, hHeader, hRow, hPipelines, hPlaced⟩ := Script.exists_row h
  refine ⟨row.map fun entry => entry.1.skipGap.pos.line, ?_, List.pairwise_map.mpr hRow.ordered, ?_⟩
  · rw [← hPipelines, List.map_map, List.map_map]
    refine List.map_congr_left fun entry hEntry => ?_
    rw [Function.comp_apply, (hPlaced entry hEntry).2.line, lineOf_of_pos hLine]
    rfl
  · intro n hn
    obtain ⟨entry, hEntry, rfl⟩ := List.mem_map.mp hn
    rw [((hPlaced entry hEntry).1.reach (reaches_skipGap _)).line_eq]
    have hCount := (List.take_sublist entry.1.skipGap.pos.offset text.toList).count_le '\n'
    exact ⟨Nat.le_add_left _ _, Nat.succ_le_succ hCount⟩

theorem Script.parse_elsewhere {line : Int} (hOther : 1 ≤ line) :
    Script.parse { s with line := line } text = .ok (t.relined fun l => wrapLine (l + (line - s.line))) := by
  let P : Pairing s { s with line := line } := .ofExtension (Table.Extends.refl s.symbols)
  have hShift : ∀ pos : Position, lineOf { s with line := line } (pos.moved P.offset P.lines) =
      wrapLine (s.lineOf pos + (line - s.line)) := by
    intro pos
    rw [lineOf_of_pos hLine, wrapLine_add, lineOf_of_pos (s := { s with line := line }) hOther]
    refine congrArg wrapLine ?_
    show line - 1 + ((pos.line + 0 : Nat) : Int) = _
    omega
  have hAgree :=
    Pairing.parse_relined (P := P) (f := fun l => wrapLine (l + (line - s.line))) rfl rfl hShift rfl rfl rfl text
  rw [h] at hAgree
  obtain ⟨t', hOk, rfl⟩ := hAgree.ok_of_ok
  exact hOk

end Parsed

theorem Script.parse_lines (s : Setting) (hLine : 1 ≤ s.line) {text : String} {t : Script}
    (h : Script.parse s text = .ok t) :
    t.StandsAt s text.toList (fun n => wrapLine (s.line - 1 + n)) ∧
    (∀ line : Int, 1 ≤ line → Script.parse { s with line := line } text =
      .ok (t.relined fun l => wrapLine (l + (line - s.line)))) ∧
    (s.line + text.toList.count '\n' ≤ 0x7FFFFFFFFFFFFFFF →
      t.StandsAt s text.toList (fun n => s.line - 1 + n) ∧
      (t.pipelines.map Pipeline.line).Pairwise (· ≤ ·) ∧
      (∀ p ∈ t.pipelines, s.line ≤ p.line ∧ p.line ≤ s.line + text.toList.count '\n') ∧
      ∀ line : Int, 1 ≤ line → line + text.toList.count '\n' ≤ 0x7FFFFFFFFFFFFFFF →
        Script.parse { s with line := line } text = .ok (t.relined (· + (line - s.line)))) := by
  refine ⟨Script.standsAt_wrapped hLine h, fun line hOther => Script.parse_elsewhere hLine h hOther, ?_⟩
  intro hFits
  obtain ⟨lines, hSame, hOrdered, hWithin⟩ := Script.exists_lines hLine h
  have hExact : ∀ n : Nat, n ≤ text.toList.count '\n' + 1 → wrapLine (s.line - 1 + n) = s.line - 1 + n := by
    intro n hn
    exact wrapLine_of_fits (by omega) (by omega)
  have hLines : t.pipelines.map Pipeline.line = lines.map (fun n : Nat => s.line - 1 + n) := by
    rw [hSame]
    exact List.map_congr_left fun n hn => hExact n (hWithin n hn).2
  have hRange : ∀ p ∈ t.pipelines, s.line ≤ p.line ∧ p.line ≤ s.line + text.toList.count '\n' := by
    intro p hp
    have hMem : p.line ∈ lines.map (fun n : Nat => s.line - 1 + n) := hLines ▸ List.mem_map_of_mem hp
    obtain ⟨n, hn, hEq⟩ := List.mem_map.mp hMem
    have hBounds := hWithin n hn
    omega
  refine ⟨(Script.standsAt_wrapped hLine h).imp hExact, ?_, hRange, ?_⟩
  · rw [hLines, List.pairwise_map]
    exact hOrdered.imp fun hLe => by omega
  · intro line hOther hOtherFits
    rw [Script.parse_elsewhere hLine h hOther]
    refine congrArg _ (Script.relined_congr fun p hp => ?_)
    have hBounds := hRange p hp
    exact wrapLine_of_fits (by omega) (by omega)

/-- Before the pipelines stand a list of names, a comment and bars on a line of their own, an empty
statement, and a literal that goes on to the next line. -/
theorem Script.parse_lines_spread :
    let s : Setting := ⟨[], "f", 7⟩
    let text := "|out| a // x\n||\n//\n b;\n; r\"\n\"; c"
    let t : Script := ⟨[⟨⟨[⟨["a"], [], []⟩], false, "f", 7⟩, [⟨[⟨["b"], [], []⟩], false, "f", 10⟩]⟩,
      ⟨⟨[⟨["\n"], [], []⟩], false, "f", 11⟩, []⟩, ⟨⟨[⟨["c"], [], []⟩], false, "f", 12⟩, []⟩]⟩
    Script.parse s text = .ok t ∧ t.StandsAt s text.toList (fun n => s.line - 1 + n) ∧
      Script.parse { s with line := 1 } text = .ok (t.relined (· + (1 - s.line))) := by
  intro s text t
  have hParse : Script.parse s text = .ok t := by decide +kernel
  obtain ⟨-, -, hExact⟩ := Script.parse_lines s (by decide) hParse
  obtain ⟨hStands, -, -, hElsewhere⟩ := hExact (by decide +kernel)
  exact ⟨hParse, hStands, hElsewhere 1 (by decide) (by decide +kernel)⟩

/-- The line after the last one that can be counted is the first of all. -/
theorem Script.parse_lines_overflow :
    let s : Setting := ⟨[], "", 9223372036854775807⟩
    let t : Script := ⟨[⟨⟨[⟨["a"], [], []⟩], false, "", 9223372036854775807⟩, []⟩,
      ⟨⟨[⟨["b"], [], []⟩], false, "", -9223372036854775808⟩, []⟩]⟩
    1 ≤ s.line ∧ Script.parse s "a;\nb" = .ok t ∧ ¬t.StandsAt s "a;\nb".toList (fun n => s.line - 1 + n) ∧
      ¬(t.pipelines.map Pipeline.line).Pairwise (· ≤ ·) := by
  intro s t
  refine ⟨by decide, by decide +kernel, ?_, by decide⟩
  rintro ⟨c, row, -, -, hPipelines, hFirst⟩
  have hMem : ⟨[⟨["b"], [], []⟩], false, "", -9223372036854775808⟩ ∈ row.map Prod.snd := by
    rw [hPipelines]
    decide
  obtain ⟨entry, hEntry, hLast⟩ := List.mem_map.mp hMem
  obtain ⟨first, -, hLine⟩ := hFirst entry hEntry
  rw [hLast] at hLine
  simp only [s] at hLine
  omega

end Pipework
