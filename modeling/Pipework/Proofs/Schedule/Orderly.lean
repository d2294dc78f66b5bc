import Mathlib.Logic.Relation
import Pipework.Proofs.Schedule.Basic

/-!
# Courses without a race

The crew of a pipeline may take its turns in any order. That leaves open for how long a stage waits in the middle of
reading a pipe, and a stage that leaves early breaks the pipe of the one before it. In a prompt course a stage that
reads a pipe waits until there is as much in it as it takes, or the pipe has ended. In an orderly course, moreover, no
stage leaves before an earlier one. Pipes have no bound: a stage that writes more than a pipe of the host can hold is
taken to be read in time.
-/

namespace Pipework

def Action.takes : Action → Bool
  | .read _ | .relay _ => true
  | _ => false

def Action.amount : Action → Amount
  | .read amount => amount
  | _ => .all

/-- In the middle of an action that takes something from the input. -/
def Work.isReading {S : Type} : Work S → Bool
  | @waiting _ action _ _ => action.takes
  | _ => false

def Work.amount {S : Type} : Work S → Amount
  | @waiting _ action _ _ => action.amount
  | _ => .all

namespace Crew

variable {S : Type}

/-- The stage waits for its pipe to hold as much as it takes, or to end. A process that can be killed waits no
longer. -/
def Awaits (crew : Crew S) (w : Worker S) : Prop :=
  w.work.isReading = true ∧ w.stage.source = .pipe ∧
    (crew.line.pipe (w.stage.index - 1)).take? w.work.amount = none ∧
    (crew.line.pipe (w.stage.index - 1)).cycle = [] ∧ (w.stage.isProcess && crew.line.canceled) = false

/-- No stage goes on that waits for its pipe. -/
def Prompt (crew : Crew S) : Event → Prop
  | .acted i | .ended i _ => ∀ w ∈ crew.workers, w.stage.index = i → ¬crew.Awaits w
  | _ => True

theorem prompt_of_ready {crew : Crew S} (h : ∀ w ∈ crew.workers, w.work.isReading = false) (event : Event) :
    crew.Prompt event := by
  have hNone (i : Nat) : ∀ w ∈ crew.workers, w.stage.index = i → ¬crew.Awaits w := by
    rintro w hw - ⟨hReading, -⟩
    rw [h w hw] at hReading
    cases hReading
  cases event with
  | acted i => exact hNone i
  | ended i result => exact hNone i
  | _ => trivial

/-- A stage that leaves has outlasted those before it. -/
def Outlasts (crew : Crew S) : Event → Prop
  | .ended i _ => ∀ w ∈ crew.workers, i ≤ w.stage.index
  | _ => True

section Orders

variable (v : Invoker) (output : Output) (C : Calls) (mayCall stops : Prop)

/-- A step in a course in which each wait for input lasts until there is enough of it, or it has ended. The pipeline may
be stopped from outside only if it `stops`. -/
def Proceeds (crew crew' : Crew C.State) : Prop :=
  ∃ event, Step v output C mayCall crew event crew' ∧ crew.Prompt event ∧ (event = .stopped → stops)

/-- A step in a course in which, moreover, no stage leaves before an earlier one. -/
def Orders (crew crew' : Crew C.State) : Prop :=
  ∃ event, Step v output C mayCall crew event crew' ∧ crew.Prompt event ∧ crew.Outlasts event ∧
    (event = .stopped → stops)

/-- Steps of a crew one after the other in which each wait for input lasts until that has ended, and no stage leaves
before an earlier one. A write then never finds its reader gone, and a read of all of a pipe finds all of it. -/
abbrev Orderly : Crew C.State → Crew C.State → Prop := Relation.ReflTransGen (Orders v output C mayCall stops)

end Orders

section Orders

variable {v : Invoker} {output : Output} {C : Calls} {mayCall stops : Prop} {crew crew' : Crew C.State} {c : Command}
  {rest : List Command} {line : Line}

theorem Orders.launch {start : Launch} (hPending : crew.pending = c :: rest) (hRefusal : crew.refusal = none)
    (hOrder : ∀ w ∈ crew.workers, w.inOrder = false)
    (hLaunch : v.launch output crew.launched rest.isEmpty c crew.line = (.ok start, line)) :
    Orders v output C mayCall stops crew
      { crew with
        line := line
        pending := rest
        launched := crew.launched + 1
        workers := crew.workers ++ [start.worker] } :=
  ⟨_, .launch hPending hRefusal hOrder hLaunch, trivial, trivial, by rintro ⟨⟩⟩

theorem Orders.refuse {fault : Fault} (hPending : crew.pending = c :: rest) (hRefusal : crew.refusal = none)
    (hOrder : ∀ w ∈ crew.workers, w.inOrder = false)
    (hLaunch : v.launch output crew.launched rest.isEmpty c crew.line = (.error fault, line)) :
    Orders v output C mayCall stops crew
      { crew with line := { line with canceled := true }, refusal := some fault } :=
  ⟨_, .refuse hPending hRefusal hOrder hLaunch, trivial, trivial, by rintro ⟨⟩⟩

theorem Orders.stop (hStops : stops) :
    Orders v output C mayCall stops crew { crew with line := crew.line.stop } :=
  ⟨_, .stop, trivial, trivial, fun _ => hStops⟩

theorem Orders.proceeds (h : Orders v output C mayCall stops crew crew') :
    Proceeds v output C mayCall stops crew crew' := by
  obtain ⟨event, hStep, hPrompt, -, hStops⟩ := h
  exact ⟨event, hStep, hPrompt, hStops⟩

end Orders

end Crew

end Pipework
