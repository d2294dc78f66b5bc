import Pipework.Proofs.Splice.Engine
import Pipework.Proofs.Splice.Flow

/-!
# One stage after the other

The stages of a pipeline but the last are launched one after the other, and then each runs in its turn. If none of them
waits, the first pass of the engine ends them all, and the last stage is the only one that is left.
-/

namespace Pipework

def Launch.fresh (nested : Nested) (l : Launch) : Activity := .fresh (l.run nested)

def Launch.leave (nested : Nested) (line : Line) (l : Launch) : Line := (l.run nested line).finish.2

/-- Each of the stages ends in its turn without waiting. -/
def EndInTurn (nested : Nested) : List Launch → Line → Prop
  | [], _ => True
  | l :: rest, line => (l.run nested line).isDone = true ∧ EndInTurn nested rest (l.leave nested line)

namespace EndInTurn

open Activity

variable {nested : Nested} {starts rest : List Launch} {line line' : Line}

theorem append :
    EndInTurn nested (starts ++ rest) line ↔
      EndInTurn nested starts line ∧ EndInTurn nested rest (starts.foldl (Launch.leave nested) line) := by
  induction starts generalizing line with
  | nil => simp [EndInTurn]
  | cons l starts ih => simp only [List.cons_append, EndInTurn, ih, and_assoc, List.foldl_cons]

theorem of_pass (h : (Activity.pass (starts.map (Launch.fresh nested)) line).1 = []) :
    EndInTurn nested starts line := by
  induction starts generalizing line with
  | nil => trivial
  | cons l starts ih =>
    rw [List.map_cons] at h
    cases hRun : l.run nested line with
    | done result state =>
      have hLeft : (l.fresh nested).proceed line = (none, state) := by
        rw [Launch.fresh, proceed, hRun]
        rfl
      simp only [Activity.pass, hLeft, Option.toList_none, List.nil_append] at h
      refine ⟨by rw [hRun]; rfl, ?_⟩
      rw [Launch.leave, hRun]
      exact ih h
    | wait why state resume =>
      have hLeft : (l.fresh nested).proceed line = (some (.waiting why resume), state) := by
        rw [Launch.fresh, proceed, hRun]
        rfl
      simp [Activity.pass, hLeft] at h

theorem pass_eq (h : EndInTurn nested starts line) :
    Activity.pass (starts.map (Launch.fresh nested)) line = ([], starts.foldl (Launch.leave nested) line) := by
  induction starts generalizing line with
  | nil => rfl
  | cons l starts ih =>
    obtain ⟨hDone, hRest⟩ := h
    have hLeft : (l.fresh nested).proceed line = (none, l.leave nested line) := by
      unfold Launch.fresh Launch.leave proceed
      dsimp only
      cases hRun : l.run nested line with
      | done result state => rfl
      | wait why state resume =>
        rw [hRun] at hDone
        cases hDone
    simp only [List.map_cons, Activity.pass, hLeft, ih hRest, Option.toList_none, List.nil_append, List.foldl_cons]

theorem settle_eq (h : EndInTurn nested starts line) :
    settle (starts.map (Launch.fresh nested)) line = ([], starts.foldl (Launch.leave nested) line) := by
  have hRest (n : Nat) (line : Line) : passes n [] line = ([], line) := by
    induction n with
    | zero => rfl
    | succ n ih => exact ih
  unfold settle passes
  rw [h.pass_eq]
  exact hRest _ _

theorem beside {ts : Bytes × Bytes} {e : Nat → Nat} (he : e.Injective) (hNested : nested.Untraced) {d : Nat}
    (hShifts : ∀ l ∈ starts, Shifts e d l.stage.index) (h : EndInTurn nested starts line)
    (hLine : line.Beside ts e line') :
    EndInTurn nested (starts.map (Launch.further d)) line' ∧
      (starts.foldl (Launch.leave nested) line).Beside ts e
        ((starts.map (Launch.further d)).foldl (Launch.leave nested) line') := by
  induction starts generalizing line line' with
  | nil => exact ⟨trivial, hLine⟩
  | cons l starts ih =>
    obtain ⟨hFirst, hOthers⟩ := List.forall_mem_cons.mp hShifts
    obtain ⟨hDone, hRest⟩ := h
    have hRun := l.run_beside he hNested hFirst hLine
    obtain ⟨hEnds, hLast⟩ := ih hOthers hRest hRun.finish.2
    exact ⟨⟨hRun.isDone.trans hDone, hEnds⟩, hLast⟩

end EndInTurn

/-- Stages before the last, one after the other from stage `index` on. -/
inductive InnerRow : Nat → List Launch → Prop
  | nil {index : Nat} : InnerRow index []
  | cons {index : Nat} {l : Launch} {rest : List Launch} (hIndex : l.stage.index = index) (hInner : l.stage.IsInner)
      (hRest : InnerRow (index + 1) rest) : InnerRow index (l :: rest)

namespace InnerRow

variable {nested : Nested} {starts : List Launch} {index n : Nat} {line : Line}

theorem bounds (h : InnerRow index starts) :
    ∀ l ∈ starts, index ≤ l.stage.index ∧ l.stage.index < index + starts.length := by
  induction h with
  | nil => simp
  | cons hIndex _ _ ih =>
    refine List.forall_mem_cons.mpr ⟨by simp [hIndex], fun l hl => ?_⟩
    obtain ⟨hLower, hUpper⟩ := ih l hl
    rw [List.length_cons]
    omega

theorem reaches (h : InnerRow index starts) (hEnds : EndInTurn nested starts line) (hLine : line.flow.Reaches n index)
    (hLength : index + starts.length ≤ n) :
    (starts.foldl (Launch.leave nested) line).flow.Reaches n (index + starts.length) := by
  induction h generalizing line with
  | nil => exact hLine
  | @cons index l rest hIndex hInner _ ih =>
    obtain ⟨hDone, hRest⟩ := hEnds
    rw [List.length_cons] at hLength ⊢
    subst hIndex
    have hTurn : l.stage.InTurn True n l.desk line := ⟨hLine.within (by omega), .inl trivial⟩
    have hProgram : True ∨ Program.IsPlain l.task := .inl trivial
    have hNext := (Stage.run_arrives hInner hTurn nested hProgram).finish hDone
    rw [show l.stage.index + (rest.length + 1) = l.stage.index + 1 + rest.length by omega] at hLength ⊢
    exact ih hRest hNext hLength

theorem ends (h : InnerRow index starts)
    (hTasks : ∀ l ∈ starts, Program.IsPlain l.task ∧ l.desk.feed.cycle = []) (hLine : line.flow.Reaches n index)
    (hLength : index + starts.length ≤ n) : EndInTurn nested starts line := by
  induction h generalizing line with
  | nil => trivial
  | @cons index l rest hIndex hInner _ ih =>
    obtain ⟨⟨hTask, hFeed⟩, hOthers⟩ := List.forall_mem_cons.mp hTasks
    rw [List.length_cons] at hLength
    subst hIndex
    have hTurn : l.stage.InTurn False n l.desk line := ⟨hLine.within (by omega), .inr hFeed⟩
    have hProgram : False ∨ Program.IsPlain l.task := .inr hTask
    have hRun := Stage.run_arrives hInner hTurn nested hProgram
    exact ⟨hRun.isDone, ih hOthers (hRun.finish hRun.isDone) (by omega)⟩

end InnerRow

end Pipework
