import Pipework.Proofs.Stage.Launch

/-!
# Pipelines of one command

A command that is alone in its pipeline and does not wait is run as it is: the pipeline ends as it does, and so does
a statement without alternatives.
-/

namespace Pipework

theorem Board.verdict_lone (pipefail : Bool) (result : Option Failure) :
    ((opened pipefail).complete true result).verdict = result := by
  cases pipefail <;> cases result <;> rfl

theorem Stage.run_answered {st : Stage} {desk desk' : Desk} {line line' : Line} {nested : Nested} {action : Action}
    {answer : action.Answer} (h : st.perform nested desk line action = .done (desk', some answer) line')
    (next : action.Answer → Program (Except Fault Unit)) :
    st.run nested (.act action next) desk line = st.run nested (next answer) desk' line' := by
  rw [run, h]
  rfl

namespace Invoker

variable (v : Invoker) (nested : Nested)

theorem traced_eq (p : Pipeline) (w : World) : ∃ trace, v.traced p w = { w with trace := trace } := by
  unfold traced
  split
  · exact ⟨_, rfl⟩
  · exact ⟨w.trace, rfl⟩

variable {v nested} {output : Output} {p : Pipeline} {c : Command} {phase phase' : Phase} {start : Launch}
  {line line' : Line}

theorem runPipeline_lone (hp : p.commands = [c])
    (hLaunch : v.launch output 0 true c (v.openLine p { phase with world := v.traced p phase.world }) =
      (.ok start, line))
    (hRun : start.run nested line = .done () line') :
    v.runPipeline nested output p phase = .done (line'.board.verdict.map Failure.toFault, line'.captured)
      (closeLine { phase with world := v.traced p phase.world } line') := by
  have hStages : v.runStages nested output p (v.openLine p { phase with world := v.traced p phase.world }) =
      .done (line'.board.verdict.map Failure.toFault) line' := by
    have hDrive : drive [] (start.run nested line) = .done () line' := by
      rw [hRun]
      rfl
    unfold runStages
    rw [hp]
    unfold launchAll
    rw [hLaunch]
    exact congrArg (Run.bind · _) hDrive
  unfold runPipeline
  dsimp only
  rw [hStages]
  rfl

section Statements

variable {m : Mode} {text captured : Bytes} {s : Statement} {rest : List Statement} {fault : Fault}

/-- The first of several statements has no alternatives, and its pipeline succeeds at once. -/
theorem runStatements_lone (hs : s.alternatives = [p])
    (hRun : ∀ output, v.runPipeline nested output p phase = .done (none, captured) phase') :
    v.runStatements nested m text (s :: rest) phase = v.runStatements nested m captured rest phase' := by
  have hFirst : v.runAlternatives nested (m.output rest.isEmpty) s.alternatives phase =
      .done (.ok captured) phase' := by
    rw [hs, runAlternatives, hRun]
    rfl
  rw [runStatements, hFirst]
  rfl

theorem runStatements_lone_failed (hs : s.alternatives = [p]) (hIgnore : p.ignore = false)
    (hRun : ∀ output, v.runPipeline nested output p phase = .done (some fault, captured) phase') :
    v.runStatements nested m text (s :: rest) phase = .done (.error fault) phase' := by
  have hFirst : v.runAlternatives nested (m.output rest.isEmpty) s.alternatives phase =
      .done (.error fault) phase' := by
    rw [hs, runAlternatives, hRun, Run.bind_done]
    dsimp only
    rw [hIgnore]
    rfl
  rw [runStatements, hFirst]
  rfl

end Statements

end Invoker

end Pipework
