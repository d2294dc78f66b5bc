import Mathlib.Data.List.Induction
import Pipework.Fault
import Pipework.Proofs.Text.Captured

/-!
# The log under the message of a failure

The message of a failure shows its log below the first line, each line of the log after a tab. Whatever the log
holds, blank lines and tabs included, its lines can be told from this, and they are the log but for a newline
at its end.
-/

namespace Pipework

section Tabs

theorem tabbed_append (as bs : Bytes) : tabbed (as ++ bs) = tabbed as ++ tabbed bs := List.flatMap_append

theorem tabbed_of_line {line : Bytes} (h : 10 ∉ line) : tabbed line = line := by
  induction line with
  | nil => rfl
  | cons b line ih =>
    rw [List.mem_cons, not_or] at h
    have hb : b ≠ 10 := Ne.symm h.1
    rw [tabbed, List.flatMap_cons, if_neg hb, List.singleton_append, ← tabbed, ih h.2]

theorem tabbed_concat_newline (bs : Bytes) : tabbed (bs ++ [10]) = tabbed bs ++ [10, 9] :=
  tabbed_append bs [10]

theorem tabbed_concat {b : UInt8} (hb : b ≠ 10) (bs : Bytes) : tabbed (bs ++ [b]) = tabbed bs ++ [b] := by
  have hLine : 10 ∉ [b] := by simpa using hb.symm
  rw [tabbed_append, tabbed_of_line hLine]

theorem getLast?_tabbed (bs : Bytes) : (tabbed bs).getLast? ≠ some 10 := by
  induction bs using List.reverseRecOn with
  | nil => decide
  | append_singleton bs b =>
    by_cases hb : b = 10
    · rw [hb, tabbed_concat_newline]
      simp
    · rw [tabbed_concat hb, List.getLast?_concat]
      exact fun hLast => hb (Option.some.inj hLast)

theorem trimEnding_append (ending bs : Bytes) : trimEnding ending (bs ++ ending) = bs := by
  have hEnds : ending.isSuffixOf (bs ++ ending) = true :=
    List.isSuffixOf_iff_suffix.mpr (List.suffix_append bs ending)
  rw [trimEnding, if_pos hEnds, List.length_append, Nat.add_sub_cancel, List.take_left]

theorem trimEnding_of_not_suffix {ending bs : Bytes} (h : ¬ ending <:+ bs) : trimEnding ending bs = bs :=
  if_neg (mt List.isSuffixOf_iff_suffix.mp h)

theorem not_suffix_tabbed {bs : Bytes} (h : bs.getLast? ≠ some 10) : ¬ [10, 9] <:+ tabbed bs := by
  rcases List.eq_nil_or_concat bs with rfl | ⟨front, b, rfl⟩
  · decide
  · have hb : b ≠ 10 := by
      rintro rfl
      simp at h
    rintro ⟨before, hBefore⟩
    rw [List.concat_eq_append, tabbed_concat hb, List.append_cons] at hBefore
    obtain ⟨hFront, -⟩ := List.append_inj' hBefore rfl
    apply getLast?_tabbed front
    rw [← hFront, List.getLast?_concat]

/-- Leaving out the last newline before or after the tabs are put in is the same. -/
theorem trimEnding_tabbed (bs : Bytes) : trimEnding [10, 9] (tabbed bs) = tabbed (chomp bs) := by
  by_cases hLast : bs.getLast? = some 10
  · obtain ⟨front, rfl⟩ := List.getLast?_eq_some_iff.mp hLast
    rw [tabbed_concat_newline, trimEnding_append, chomp_append_newline]
  · rw [trimEnding_of_not_suffix (not_suffix_tabbed hLast), chomp_of_ne hLast]

end Tabs

section Lines

theorem not_mem_of_mem_splitOn {α : Type} [BEq α] [LawfulBEq α] {a : α} {as line : List α}
    (h : line ∈ as.splitOn a) : a ∉ line := by
  induction as generalizing line with
  | nil =>
    rw [List.splitOn_nil, List.mem_singleton] at h
    exact h ▸ List.not_mem_nil
  | cons b as ih =>
    rw [List.splitOn_cons_eq_if_modifyHead] at h
    obtain ⟨first, rest, hSplit⟩ := List.exists_cons_of_ne_nil (List.splitOn_ne_nil a as)
    rw [hSplit] at h ih
    split at h
    · rcases List.mem_cons.mp h with rfl | hMem
      · exact List.not_mem_nil
      · exact ih hMem
    · next hb =>
      rcases List.mem_cons.mp h with rfl | hMem
      · rw [List.mem_cons, not_or]
        exact ⟨fun hEq => hb (beq_iff_eq.mpr hEq.symm), ih List.mem_cons_self⟩
      · exact ih (List.mem_cons_of_mem _ hMem)

theorem tabbed_intercalate {lines : List Bytes} (h : ∀ line ∈ lines, 10 ∉ line) (hne : lines ≠ []) (first : Bytes) :
    first ++ 10 :: 9 :: tabbed ([10].intercalate lines) = [10].intercalate (first :: lines.map (9 :: ·)) := by
  induction lines generalizing first with
  | nil => exact absurd rfl hne
  | cons line lines ih =>
    obtain ⟨hLine, hLines⟩ := List.forall_mem_cons.mp h
    cases lines with
    | nil => simp [tabbed_of_line hLine]
    | cons next rest =>
      have hRest := ih hLines (List.cons_ne_nil _ _) (9 :: line)
      have hHead : [10].intercalate (first :: (line :: next :: rest).map (9 :: ·)) =
          first ++ [10] ++ [10].intercalate ((9 :: line) :: (next :: rest).map (9 :: ·)) :=
        List.intercalate_cons_cons
      rw [hHead, ← hRest, List.intercalate_cons_cons, tabbed_append, tabbed_concat_newline, tabbed_of_line hLine]
      simp

end Lines

def Report.headline (r : Report) (cause : Option Bytes) : Bytes := { r with log := [] }.message cause

theorem Report.message_eq (r : Report) (cause : Option Bytes) :
    r.message cause = r.headline cause ++ indentedLog r.log := by
  exact congrArg (· ++ indentedLog r.log) (List.append_nil _).symm

theorem Failure.message_eq (e : Failure) : e.message = e.toReport.message (e.cause.map Fault.message) := by
  obtain ⟨report, cause⟩ := e
  cases cause <;> rfl

/-- The log of a failure can be told from its message, as long as the first line is one line: each of the other
lines starts with a tab, and without these tabs they are the log, of which at most a newline at its end is
missing. -/
theorem Report.log_of_message (r : Report) (cause : Option Bytes) (hLog : r.log ≠ [])
    (hFirst : 10 ∉ r.headline cause) :
    ∃ lines : List Bytes,
      (r.message cause).splitOn 10 = r.headline cause :: lines.map (9 :: ·) ∧
      (∀ log, r.log = log ++ [10] → [10].intercalate lines = log) ∧
      (r.log.getLast? ≠ some 10 → [10].intercalate lines = r.log) := by
  have hLines : ∀ line ∈ (chomp r.log).splitOn 10, 10 ∉ line := fun line => not_mem_of_mem_splitOn
  have hJoined : [10].intercalate ((chomp r.log).splitOn 10) = chomp r.log := List.intercalate_splitOn 10
  have hMessage : r.message cause =
      [10].intercalate (r.headline cause :: ((chomp r.log).splitOn 10).map (9 :: ·)) := by
    rw [← tabbed_intercalate hLines (List.splitOn_ne_nil _ _), hJoined, r.message_eq, indentedLog, if_neg hLog,
      trimEnding_tabbed]
  refine ⟨(chomp r.log).splitOn 10, ?_, ?_, ?_⟩
  · rw [hMessage]
    apply List.splitOn_intercalate 10 _ (List.cons_ne_nil _ _)
    intro line hMem
    rcases List.mem_cons.mp hMem with rfl | hMem
    · exact hFirst
    · obtain ⟨line, hLine, rfl⟩ := List.mem_map.mp hMem
      rw [List.mem_cons, not_or]
      exact ⟨by decide, hLines line hLine⟩
  · rintro log hEnds
    rw [hJoined, hEnds, chomp_append_newline]
  · intro hLast
    rw [hJoined, chomp_of_ne hLast]

/-- A failure whose log starts with a blank line, has tabs of its own and ends in two newlines. -/
def indentedFailure : Failure := ⟨⟨"make", utf8 "\n\tA\n\t\n\n", 2, ""⟩, some (.plain "no rule")⟩

theorem log_of_message_indented :
    indentedFailure.log ≠ [] ∧ 10 ∉ indentedFailure.headline (some (utf8 "no rule")) ∧
    indentedFailure.message = utf8 "make: no rule\n\t\n\t\tA\n\t\t\n\t" ∧
    ∃ lines : List Bytes,
      indentedFailure.message.splitOn 10 = utf8 "make: no rule" :: lines.map (9 :: ·) ∧
      [10].intercalate lines = utf8 "\n\tA\n\t\n" := by
  have hLog : indentedFailure.log ≠ [] := by decide +kernel
  have hFirst : 10 ∉ indentedFailure.headline (some (utf8 "no rule")) := by decide +kernel
  obtain ⟨lines, hSplit, hEnds, -⟩ := indentedFailure.toReport.log_of_message (some (utf8 "no rule")) hLog hFirst
  refine ⟨hLog, hFirst, by decide +kernel, lines, ?_, hEnds _ (by decide +kernel)⟩
  rw [Failure.message_eq]
  exact hSplit

end Pipework
