import Mathlib.Data.List.Forall2
import Mathlib.Logic.Relation
import Pipework.Proofs.Schedule.Steady

/-!
# The engine runs stages in one of their orders

A run of the engine does at each of its waits what stages may do: between two waits it takes turns that the
stages could have taken, whatever the surroundings did while it waited. This is shown of single stages first,
then of the passes in which the engine goes on with the stages of a pipeline, and then of whole pipelines.
-/

namespace Pipework

open Relation

/-- The run does what the script `x.1` may do in the world `x.2`. -/
def Run.Performs (C : Calls) : Run World (Except Fault String) → C.State × World → Prop
  | .done result world, x => ∃ call, ReflTransGen C.Step x (call, world) ∧ C.result? call = some result
  | .wait _ world resume, x =>
    ∃ call, ReflTransGen C.Step x (call, world) ∧
      ∀ signal world, (resume signal world).Performs C (call, world)

/-- The scripts that stages run do what the calls `C` may do. -/
def Nested.Performs (C : Calls) (nested : Nested) : Prop :=
  ∀ context file line text world,
    (nested context file line text world).Performs C (C.start context file line text, world)

/-- The run does what the stage `st` may do from `x` on. -/
def Run.Follows (C : Calls) (st : Stage) : Run Line Unit → Turn C.State × Line → Prop
  | .done () line, x => ∃ result, ReflTransGen (Acts C True st) x (.ended result, line)
  | .wait _ line resume, x =>
    ∃ work, ReflTransGen (Acts C True st) x (.on work, line) ∧
      ∀ signal line, (signal.isStop = true → line.canceled = true) →
        (resume signal line).Follows C st (.on work, line)

namespace Acts

variable {C : Calls} {st : Stage}

theorem inner_star {call call' : C.State} {line : Line} {world : World}
    (h : ReflTransGen C.Step (call, line.world) (call', world))
    (next : Except Fault String → Program (Except Fault Unit)) (desk : Desk) :
    ReflTransGen (Acts C True st) (.on (.calling call next desk), line)
      (.on (.calling call' next desk), { line with world := world }) :=
  h.lift (fun x : C.State × World => (Turn.on (.calling x.1 next desk), { line with world := x.2 }))
    fun _ _ hStep => .inner hStep

theorem canceled_star {work : Work C.State} {line : Line} {x : Turn C.State × Line}
    (h : ReflTransGen (Acts C True st) (.on work, line) x) (hSteady : work.Steady) :
    x.1.Steady ∧ (line.canceled = true → x.2.canceled = true) := by
  induction h with
  | refl => exact ⟨hSteady, id⟩
  | @tail y z hStar hActs ih =>
    obtain ⟨hBefore, hCanceled⟩ := ih
    obtain ⟨turn, line'⟩ := y
    cases turn with
    | ended result => cases hActs
    | on work' => exact ⟨hActs.steady hBefore, fun h => hActs.canceled hBefore (hCanceled h)⟩

end Acts

namespace Run.Follows

variable {C : Calls} {st : Stage} {r : Run Line Unit}

theorem of_star {x y : Turn C.State × Line} (h : r.Follows C st y) (hStar : ReflTransGen (Acts C True st) x y) :
    r.Follows C st x := by
  cases r with
  | done result line =>
    obtain ⟨result, hEnd⟩ := h
    exact ⟨result, hStar.trans hEnd⟩
  | wait why line resume =>
    obtain ⟨work, hWait, hResume⟩ := h
    exact ⟨work, hStar.trans hWait, hResume⟩

theorem complete {x : Turn C.State × Line} (h : r.Follows C st x) :
    ∃ result, ReflTransGen (Acts C True st) x (.ended result, r.complete.2) := by
  induction r generalizing x with
  | done result line => exact h
  | wait why line resume ih =>
    obtain ⟨work, hWait, hResume⟩ := h
    obtain ⟨result, hEnd⟩ := ih .ready line (hResume .ready line Bool.false_ne_true.elim)
    exact ⟨result, hWait.trans hEnd⟩

theorem finish {work : Work C.State} {line : Line} (h : r.Follows C st (.on work, line)) (hSteady : work.Steady)
    (hCanceled : line.canceled = true) :
    ∃ result, ReflTransGen (Acts C True st) (.on work, line) (.ended result, r.finish.2) := by
  induction r generalizing work line with
  | done result line => exact h
  | wait why line' resume ih =>
    obtain ⟨work', hWait, hResume⟩ := h
    obtain ⟨hSteady', hKeeps⟩ := Acts.canceled_star hWait hSteady
    have hCanceled' := hKeeps hCanceled
    obtain ⟨result, hEnd⟩ := ih (.stop 0) line' (hResume (.stop 0) line' fun _ => hCanceled') hSteady' hCanceled'
    exact ⟨result, hWait.trans hEnd⟩

end Run.Follows

namespace Stage

variable {C : Calls} (st : Stage) {nested : Nested}

/-- The rest of a stage once the action before it has been answered. -/
def rest (nested : Nested) {α : Type} (next : α → Program (Except Fault Unit)) :
    Desk × Option α → Line → Run Line Unit
  | (desk, some answer), line => st.run nested (next answer) desk line
  | (desk, none), line => .done () (st.close (some (.killed "SIGKILL")) desk line)

theorem run_act (action : Action) (next : action.Answer → Program (Except Fault Unit)) (desk : Desk) (line : Line) :
    st.run nested (.act action next) desk line = (st.perform nested desk line action).bind (st.rest nested next) := by
  unfold run
  congr 1
  funext answer line
  obtain ⟨desk, _ | answer⟩ := answer <;> rfl

variable {action : Action} {next : action.Answer → Program (Except Fault Unit)}
  (hNext : ∀ answer desk line,
    (st.run nested (next answer) desk line).Follows C st (.on (.ready (next answer) desk), line))

include hNext

theorem rest_follows (reply : Reply action.Answer) :
    Run.Follows C st (reply.bind (st.rest nested next)) (st.after next reply) := by
  induction reply with
  | done result line =>
    obtain ⟨desk, _ | answer⟩ := result
    · exact ⟨_, .refl⟩
    · exact hNext answer desk line
  | wait why line resume ih =>
    exact ⟨_, .refl, fun signal line' hStop => (ih signal line').of_star (.single (.resume signal hStop))⟩

omit hNext in
theorem invoke_follows {next : Except Fault String → Program (Except Fault Unit)} {desk : Desk}
    (hNext : ∀ answer line,
      (st.run nested (next answer) desk line).Follows C st (.on (.ready (next answer) desk), line))
    {r : Run World (Except Fault String)} {call : C.State} {line : Line} (h : r.Performs C (call, line.world)) :
    (((r.embed Line.world (fun world line => { line with world := world }) line).bind fun result line =>
      .done (desk, some result) line).bind (st.rest nested next)).Follows C st
        (.on (.calling call next desk), line) := by
  induction r generalizing call line with
  | done result world =>
    obtain ⟨call', hStar, hResult⟩ := h
    refine (hNext result { line with world := world }).of_star ?_
    exact (Acts.inner_star hStar next desk).tail (.answer hResult)
  | wait why world resume ih =>
    obtain ⟨call', hStar, hResume⟩ := h
    exact ⟨.calling call' next desk, Acts.inner_star hStar next desk,
      fun signal line' _ => ih signal line'.world (hResume signal line'.world)⟩

omit hNext in
theorem run_follows (hNested : nested.Performs C) (program : Program (Except Fault Unit)) (desk : Desk) (line : Line) :
    (st.run nested program desk line).Follows C st (.on (.ready program desk), line) := by
  induction program generalizing desk line with
  | done result =>
    cases result with
    | ok _ => exact ⟨_, .single .finish⟩
    | error fault => exact ⟨_, .single .finish⟩
  | act action next ih =>
    rw [run_act]
    cases hInvokes : action.invokes with
    | false => exact (st.rest_follows ih _).of_star (.single (.act nested hInvokes))
    | true =>
      cases action with
      | invoke file number text =>
        have hCall := hNested { st.context with canceled := line.canceled } file number text line.world
        exact (st.invoke_follows (fun answer => ih answer desk) hCall).of_star (.single (.call trivial))
      | _ => cases hInvokes

end Stage

namespace Crew

variable (v : Invoker) (output : Output) (C : Calls)

def Leads : Crew C.State → Crew C.State → Prop :=
  ReflTransGen fun crew crew' => ∃ event, Step v output C True crew event crew'

variable {v output C}

theorem Leads.course {crew crew' : Crew C.State} (h : Leads v output C crew crew') :
    ∃ events, Course v output C True crew events crew' := by
  induction h using ReflTransGen.head_induction_on with
  | refl => exact ⟨[], .nil⟩
  | head hStep _ ih =>
    obtain ⟨event, hStep⟩ := hStep
    obtain ⟨events, hCourse⟩ := ih
    exact ⟨event :: events, .step hStep hCourse⟩

variable {line : Line} {pending : List Command} {launched : Nat} {before after : List (Worker C.State)}
  {w : Worker C.State} {refusal : Option Fault}

theorem leads_on {line' : Line} {work : Work C.State}
    (h : ReflTransGen (Acts C True w.stage) (.on w.work, line) (.on work, line')) :
    Leads v output C ⟨line, pending, launched, before ++ w :: after, refusal⟩
      ⟨line', pending, launched, before ++ { w with work := work } :: after, refusal⟩ := by
  generalize hEnd : ((Turn.on work, line') : Turn C.State × Line) = x at h
  induction h generalizing work line' with
  | refl =>
    cases hEnd
    exact .refl
  | @tail y z hStar hActs ih =>
    subst hEnd
    obtain ⟨turn, line''⟩ := y
    cases turn with
    | ended result => cases hActs
    | on work' =>
      have hStep := @Step.act v output C True
        ⟨line'', pending, launched, before ++ { w with work := work' } :: after, refusal⟩ before after
        { w with work := work' } work line' rfl hActs
      exact (ih rfl).tail ⟨_, hStep⟩

theorem leads_over {line' : Line} {result : Option Failure}
    (h : ReflTransGen (Acts C True w.stage) (.on w.work, line) (.ended result, line')) :
    Leads v output C ⟨line, pending, launched, before ++ w :: after, refusal⟩
      ⟨line', pending, launched, before ++ after, refusal⟩ := by
  obtain h | ⟨⟨turn, line''⟩, hStar, hActs⟩ := h.cases_tail
  · cases h
  · cases turn with
    | ended result => cases hActs
    | on work =>
      have hStep := @Step.finish v output C True
        ⟨line'', pending, launched, before ++ { w with work := work } :: after, refusal⟩ before after
        { w with work := work } result line' rfl hActs
      exact (leads_on hStar).tail ⟨_, hStep⟩

end Crew

end Pipework
