import Pipework.Proofs.Schedule.Basic

/-!
# What a turn of a stage can change

A stage that goes on leaves the status of its pipeline as it is, and a stage that ends records its
result there. This needs to be known of the stages that wait, whose actions are half done.
-/

namespace Pipework

/-- What is left of an action that waits changes nothing but files and streams. -/
def Work.Steady {S : Type} : Work S → Prop
  | .waiting resume _ => ∀ signal line, Run.Leaves Line.frame line.frame (resume signal line)
  | _ => True

def Turn.Steady {S : Type} : Turn S → Prop
  | .on work => work.Steady
  | .ended _ => True

def Line.Status.ended (s : Line.Status) (isLast : Bool) (result : Option Failure) : Line.Status :=
  ⟨s.board.complete isLast result, s.canceled || (s.board.complete isLast result).cancels, s.stopped⟩

/-- What a turn of the stage `st` makes of the status `s`. -/
def Turn.Records {S : Type} (st : Stage) (s : Line.Status) : Turn S × Line → Prop
  | (.on _, line) => line.status = s
  | (.ended result, line) => line.status = s.ended st.isLast result

namespace Stage

variable {S : Type} (st : Stage) {action : Action} (next : action.Answer → Program (Except Fault Unit))

theorem closed_records (fault : Option Fault) (desk : Desk) (line : Line) :
    Turn.Records (S := S) st line.status (st.closed fault desk line) := rfl

theorem after_steady {reply : Reply action.Answer} {frame : Line.Frame} (h : Run.Leaves Line.frame frame reply) :
    (st.after (S := S) next reply).1.Steady := by
  cases reply with
  | done result line =>
    obtain ⟨desk, answer⟩ := result
    cases answer <;> trivial
  | wait why line resume => exact h.2

theorem after_records {reply : Reply action.Answer} {s : Line.Status} (h : Run.Leaves Line.status s reply) :
    Turn.Records (S := S) st s (st.after next reply) := by
  cases reply with
  | done result line =>
    obtain ⟨desk, answer⟩ := result
    cases h
    cases answer with
    | some answer => rfl
    | none => exact st.closed_records _ desk line
  | wait why line resume => exact h.1

end Stage

namespace Acts

variable {C : Calls} {mayCall : Prop} {st : Stage} {work : Work C.State} {line : Line} {x : Turn C.State × Line}

theorem steady (h : Acts C mayCall st (.on work, line) x) (hSteady : work.Steady) : x.1.Steady := by
  cases h with
  | @act action next desk _ nested hInvokes =>
    cases hAssigns : action.assigns with
    | false => exact st.after_steady next (st.perform_leaves nested desk line hInvokes hAssigns)
    | true =>
      cases action with
      | assign key value => trivial
      | _ => cases hAssigns
  | resume signal hStop => exact st.after_steady _ (hSteady signal line)
  | call hCall => trivial
  | inner hStep => trivial
  | answer hResult => trivial
  | kill hProcess hCanceled => trivial
  | finish => trivial

theorem records (h : Acts C mayCall st (.on work, line) x) (hSteady : work.Steady) :
    Turn.Records st line.status x := by
  cases h with
  | act nested hInvokes => exact st.after_records _ (st.perform_leaves_status nested _ line hInvokes)
  | call hCall => rfl
  | inner hStep => rfl
  | answer hResult => rfl
  | resume signal hStop => exact st.after_records _ ((hSteady signal line).comp Line.Frame.toStatus)
  | kill hProcess hCanceled => exact st.closed_records _ _ line
  | finish => exact st.closed_records _ _ line

theorem canceled (h : Acts C mayCall st (.on work, line) x) (hSteady : work.Steady)
    (hCanceled : line.canceled = true) : x.2.canceled = true := by
  have hRecords := h.records hSteady
  obtain ⟨turn, line'⟩ := x
  cases turn with
  | on work' => exact (congrArg Line.Status.canceled hRecords).trans hCanceled
  | ended result =>
    have hOver : line'.canceled = (line.canceled || _) := congrArg Line.Status.canceled hRecords
    rw [hOver, hCanceled, Bool.true_or]

end Acts

end Pipework
