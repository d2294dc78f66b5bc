import Pipework.Builtin.Workbench
import Pipework.Proofs.Stage.Launch

/-!
# Pipelines in any order

The engine goes on with the stages of a pipeline in an order of its own. Here a pipeline is a crew whose
members take turns in any order at all: between two actions of one stage another may act or end, the next
command may be launched, and the world may be changed from outside. A script that a stage runs takes its
steps in between as well; what those steps are is a parameter. What holds of every course of a crew holds
of the engine too, which follows one of them.
-/

namespace Pipework

/-- Scripts that run on behalf of stages, one step at a time. -/
structure Calls where
  State : Type
  start : Context → (file : String) → (line : Int) → (text : String) → State
  Step : State × World → State × World → Prop
  result? : State → Option (Except Fault String)

/-- Scripts that nest too deeply, and end before they begin. -/
def Calls.tooDeep : Calls where
  State := Unit
  start _ _ _ _ := ()
  Step _ _ := False
  result? _ := some (.error (.plain "scripts nest too deeply"))

/-- How far a stage has come. -/
inductive Work (S : Type) where
  | ready (program : Program (Except Fault Unit)) (desk : Desk)
  /-- In the middle of an action that has to wait. -/
  | waiting {action : Action} (resume : Signal → Line → Reply action.Answer)
    (next : action.Answer → Program (Except Fault Unit))
  /-- In the middle of a script that it runs. -/
  | calling (call : S) (next : Except Fault String → Program (Except Fault Unit)) (desk : Desk)

/-- What a stage has come to after it acted. -/
inductive Turn (S : Type) where
  | on (work : Work S)
  | ended (result : Option Failure)

def endFault : Except Fault Unit → Option Fault
  | .ok () => none
  | .error fault => some fault

namespace Stage

variable {S : Type} (st : Stage)

def closed (fault : Option Fault) (desk : Desk) (line : Line) : Turn S × Line :=
  (.ended (fault.map (Failure.ofFault st.shown desk.log)), st.close fault desk line)

def killed (desk : Desk) (line : Line) : Turn S × Line := st.closed (some (.killed "SIGKILL")) desk line

/-- What the stage has come to when `reply` was the answer to its action. -/
def after {action : Action} (next : action.Answer → Program (Except Fault Unit)) :
    Reply action.Answer → Turn S × Line
  | .done (desk, some answer) line => (.on (.ready (next answer) desk), line)
  | .done (desk, none) line => st.killed desk line
  | .wait _ line resume => (.on (.waiting resume next), line)

end Stage

/-- One turn of the stage `st`. A stage is told that it has been stopped only if its pipeline has, and a
process of such a pipeline may be killed between any two actions. -/
inductive Acts (C : Calls) (mayCall : Prop) (st : Stage) : Turn C.State × Line → Turn C.State × Line → Prop
  | act {action : Action} {next : action.Answer → Program (Except Fault Unit)} {desk : Desk} {line : Line}
      (nested : Nested) (hInvokes : action.invokes = false) :
    Acts C mayCall st (.on (.ready (.act action next) desk), line)
      (st.after next (st.perform nested desk line action))
  | call {file : String} {number : Int} {text : String} {desk : Desk} {line : Line}
      {next : Except Fault String → Program (Except Fault Unit)} (hCall : mayCall) :
    Acts C mayCall st (.on (.ready (.act (.invoke file number text) next) desk), line)
      (.on (.calling (C.start { st.context with canceled := line.canceled } file number text) next desk), line)
  | inner {call call' : C.State} {world : World} {desk : Desk} {line : Line}
      {next : Except Fault String → Program (Except Fault Unit)} (hStep : C.Step (call, line.world) (call', world)) :
    Acts C mayCall st (.on (.calling call next desk), line)
      (.on (.calling call' next desk), { line with world := world })
  | answer {call : C.State} {result : Except Fault String} {desk : Desk} {line : Line}
      {next : Except Fault String → Program (Except Fault Unit)} (hResult : C.result? call = some result) :
    Acts C mayCall st (.on (.calling call next desk), line) (.on (.ready (next result) desk), line)
  | resume {action : Action} {resume : Signal → Line → Reply action.Answer}
      {next : action.Answer → Program (Except Fault Unit)} {line : Line} (signal : Signal)
      (hStop : signal.isStop = true → line.canceled = true) :
    Acts C mayCall st (.on (.waiting resume next), line) (st.after next (resume signal line))
  | kill {program : Program (Except Fault Unit)} {desk : Desk} {line : Line} (hProcess : st.isProcess = true)
      (hCanceled : line.canceled = true) :
    Acts C mayCall st (.on (.ready program desk), line) (st.killed desk line)
  | finish {result : Except Fault Unit} {desk : Desk} {line : Line} :
    Acts C mayCall st (.on (.ready (.done result) desk), line) (st.closed (endFault result) desk line)

/-- A stage that has been launched and has not ended. -/
structure Worker (S : Type) where
  stage : Stage
  inOrder : Bool
  work : Work S

def Launch.worker {S : Type} (l : Launch) : Worker S := ⟨l.stage, l.inOrder, .ready l.task l.desk⟩

/-- A pipeline at work. -/
structure Crew (S : Type) where
  line : Line
  pending : List Command
  launched : Nat
  workers : List (Worker S)
  /-- Why a command could not be launched. -/
  refusal : Option Fault

/-- What happens to a pipeline. Stages are named by their numbers. -/
inductive Event where
  | launched (index : Nat)
  /-- A stage could not be launched; `canceled` tells whether the pipeline had been stopped before. -/
  | refused (index : Nat) (fault : Fault) (canceled : Bool)
  | acted (index : Nat)
  | ended (index : Nat) (result : Option Failure)
  | stopped

def Event.stage? : Event → Option Nat
  | .launched index | .refused index _ _ | .acted index | .ended index _ => some index
  | .stopped => none

namespace Crew

variable {S : Type}

/-- The crew of a pipeline before its first command is launched. -/
def start (commands : List Command) (line : Line) : Crew S := ⟨line, commands, 0, [], none⟩

/-- The crew in a world that was changed from outside. -/
def within (world : World) (crew : Crew S) : Crew S := { crew with line := { crew.line with world := world } }

def IsOver (crew : Crew S) : Prop := crew.workers = [] ∧ (crew.pending = [] ∨ crew.refusal.isSome = true)

def verdict (crew : Crew S) : Option Fault := crew.refusal.or (crew.line.board.verdict.map Failure.toFault)

/-- One step of the crew of a pipeline. Commands are launched from left to right; a stage that runs in
order ends before the next one is launched. -/
inductive Step (v : Invoker) (output : Output) (C : Calls) (mayCall : Prop) :
    Crew C.State → Event → Crew C.State → Prop
  | launch {crew : Crew C.State} {c : Command} {rest : List Command} {start : Launch} {line : Line}
      (hPending : crew.pending = c :: rest) (hRefusal : crew.refusal = none)
      (hOrder : ∀ w ∈ crew.workers, w.inOrder = false)
      (hLaunch : v.launch output crew.launched rest.isEmpty c crew.line = (.ok start, line)) :
    Step v output C mayCall crew (.launched crew.launched)
      { crew with
        line := line
        pending := rest
        launched := crew.launched + 1
        workers := crew.workers ++ [start.worker] }
  | refuse {crew : Crew C.State} {c : Command} {rest : List Command} {fault : Fault} {line : Line}
      (hPending : crew.pending = c :: rest) (hRefusal : crew.refusal = none)
      (hOrder : ∀ w ∈ crew.workers, w.inOrder = false)
      (hLaunch : v.launch output crew.launched rest.isEmpty c crew.line = (.error fault, line)) :
    Step v output C mayCall crew (.refused crew.launched fault crew.line.canceled)
      { crew with line := { line with canceled := true }, refusal := some fault }
  | act {crew : Crew C.State} {before after : List (Worker C.State)} {w : Worker C.State} {work : Work C.State}
      {line : Line} (hWorkers : crew.workers = before ++ w :: after)
      (hActs : Acts C mayCall w.stage (.on w.work, crew.line) (.on work, line)) :
    Step v output C mayCall crew (.acted w.stage.index)
      { crew with line := line, workers := before ++ { w with work := work } :: after }
  | finish {crew : Crew C.State} {before after : List (Worker C.State)} {w : Worker C.State}
      {result : Option Failure} {line : Line} (hWorkers : crew.workers = before ++ w :: after)
      (hActs : Acts C mayCall w.stage (.on w.work, crew.line) (.ended result, line)) :
    Step v output C mayCall crew (.ended w.stage.index result)
      { crew with line := line, workers := before ++ after }
  | stop {crew : Crew C.State} : Step v output C mayCall crew .stopped { crew with line := crew.line.stop }

/-- What happens to a crew one after the other, while the world may be changed from outside at any
time. -/
inductive Course (v : Invoker) (output : Output) (C : Calls) (mayCall : Prop) :
    Crew C.State → List Event → Crew C.State → Prop
  | nil {crew : Crew C.State} : Course v output C mayCall crew [] crew
  | step {crew mid last : Crew C.State} {event : Event} {events : List Event}
      (hStep : Step v output C mayCall crew event mid) (hRest : Course v output C mayCall mid events last) :
    Course v output C mayCall crew (event :: events) last
  | outside {crew last : Crew C.State} {events : List Event} (world : World)
      (hRest : Course v output C mayCall (crew.within world) events last) :
    Course v output C mayCall crew events last

end Crew

/-- A world with an overlay but no files and no input. -/
def World.bench (overlay : Overlay) : World where
  builtins := Builtin.workbench "" 1 ++ Builtin.standard
  wrappers := []
  inMemory := true
  memory := ⟨[]⟩
  host := ⟨[], "/", ⟨[]⟩⟩
  overlays := [overlay]
  input := []
  output := []
  errors := []
  trace := []
  mocks := []

def Invoker.bench : Invoker := ⟨[], ⟨[], some 0, false⟩, 0⟩

end Pipework
