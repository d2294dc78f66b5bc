import Mathlib.Logic.Relation
import Pipework.Proofs.Schedule.Basic

/-!
# Scripts in any order

A script tries one pipeline after the other, each with a crew of its own whose stages take turns in any
order. Which pipelines these are is its plan. The scripts that stages run are scripts of the same kind, up
to a given depth.
-/

namespace Pipework

/-- The pipelines that are tried, each after what became of those before. -/
inductive Plan where
  | done (result : Except Fault Bytes)
  | attempt (output : Output) (p : Pipeline) (next : Option Fault → Bytes → Plan)

namespace Plan

/-- Tries the alternatives of a statement until one succeeds. -/
def alternatives (output : Output) (next : Except Fault Bytes → Plan) : List Pipeline → Plan
  | [] => next (.ok [])
  | p :: rest =>
    .attempt output p fun fault text =>
      match fault with
      | none => next (.ok text)
      | some fault =>
        if p.ignore then next (.ok [])
        else if rest.isEmpty then next (.error fault)
        else alternatives output next rest

def statements (m : Mode) (text : Bytes) : List Statement → Plan
  | [] => .done (.ok text)
  | s :: rest =>
    alternatives (m.output rest.isEmpty) (fun
      | .error fault => .done (.error fault)
      | .ok text => statements m text rest) s.alternatives

def run (v : Invoker) (nested : Nested) : Plan → Invoker.Phase → Run Invoker.Phase (Except Fault Bytes)
  | .done result, phase => .done result phase
  | .attempt output p next, phase =>
    (v.runPipeline nested output p phase).bind fun (fault, text) phase => (next fault text).run v nested phase

end Plan

namespace Invoker

variable (v : Invoker) (nested : Nested)

theorem run_alternatives (output : Output) (next : Except Fault Bytes → Plan) (ps : List Pipeline) (phase : Phase) :
    (Plan.alternatives output next ps).run v nested phase =
      (v.runAlternatives nested output ps phase).bind fun result phase => (next result).run v nested phase := by
  induction ps generalizing phase with
  | nil => rfl
  | cons p rest ih =>
    unfold Plan.alternatives runAlternatives
    rw [Run.bind_assoc]
    refine congrArg (Run.bind (v.runPipeline nested output p phase)) ?_
    funext result phase
    obtain ⟨fault, text⟩ := result
    cases fault with
    | none => rfl
    | some fault =>
      dsimp only
      split
      · rfl
      · split
        · rfl
        · exact ih phase

theorem runStatements_eq_run (m : Mode) (text : Bytes) (ss : List Statement) (phase : Phase) :
    v.runStatements nested m text ss phase = (Plan.statements m text ss).run v nested phase := by
  induction ss generalizing text phase with
  | nil => rfl
  | cons s rest ih =>
    unfold runStatements Plan.statements
    rw [run_alternatives]
    congr 1
    funext result phase
    cases result with
    | error fault => rfl
    | ok text => exact ih text phase

end Invoker

/-- A script at work. -/
inductive Invocation (S : Type) where
  | fresh (context : Context) (m : Mode) (script : Script)
  | between (v : Invoker) (scope : Scope) (canceled stopped : Bool) (plan : Plan)
  | running (v : Invoker) (canceled : Bool) (output : Output) (p : Pipeline)
    (next : Option Fault → Bytes → Plan) (crew : Crew S)
  | ended (result : Except Fault String)

namespace Invocation

/-- One step of a script. A stage may run scripts if `mayCall` holds of the number of stages of its
pipeline. -/
inductive Step (programs : Host.Programs) (C : Calls) (mayCall : Nat → Prop) :
    Invocation C.State × World → Invocation C.State × World → Prop
  | enter {context : Context} {m : Mode} {script : Script} {w : World} :
    Step programs C mayCall (.fresh context m script, w)
      (.between ⟨programs, context, (context.enter w).1⟩ .opened (context.canceled || m == .abandoned)
        (m == .abandoned) (.statements m [] script.statements), (context.enter w).2)
  | take {v : Invoker} {scope : Scope} {canceled stopped : Bool} {output : Output} {p : Pipeline}
      {next : Option Fault → Bytes → Plan} {w : World} :
    Step programs C mayCall (.between v scope canceled stopped (.attempt output p next), w)
      (.running v canceled output p next
        (.start p.commands (v.openLine p ⟨v.traced p w, scope, canceled, stopped⟩)), v.traced p w)
  | run {v : Invoker} {canceled : Bool} {output : Output} {p : Pipeline} {next : Option Fault → Bytes → Plan}
      {crew crew' : Crew C.State} {event : Event} {w : World}
      (hStep : Crew.Step v output C (mayCall p.commands.length) (crew.within w) event crew') :
    Step programs C mayCall (.running v canceled output p next crew, w)
      (.running v canceled output p next crew', crew'.line.world)
  | conclude {v : Invoker} {canceled : Bool} {output : Output} {p : Pipeline}
      {next : Option Fault → Bytes → Plan} {crew : Crew C.State} {w : World} (hOver : crew.IsOver) :
    Step programs C mayCall (.running v canceled output p next crew, w)
      (.between v crew.line.scope (canceled || crew.line.stopped) crew.line.stopped
        (next crew.verdict crew.line.captured), w)
  | leave {v : Invoker} {scope : Scope} {canceled stopped : Bool} {result : Except Fault Bytes} {w : World} :
    Step programs C mayCall (.between v scope canceled stopped (.done result), w)
      (.ended (result.map capturedText), w.setOverlay v.overlay (scope.restore (w.overlay v.overlay)).2)
  | stop {v : Invoker} {scope : Scope} {canceled stopped : Bool} {plan : Plan} {w : World} :
    Step programs C mayCall (.between v scope canceled stopped plan, w) (.between v scope true true plan, w)

def result? {S : Type} : Invocation S → Option (Except Fault String)
  | .ended result => some result
  | _ => none

end Invocation

def invocations (programs : Host.Programs) (C : Calls) (mayCall : Nat → Prop) : Calls where
  State := Invocation C.State
  start context file line text :=
    match Script.parse ⟨context.symbols, file, line⟩ text with
    | .error mistake => .ended (.error (.mistake mistake))
    | .ok script => .fresh context .capture script
  Step := Invocation.Step programs C mayCall
  result? := Invocation.result?

/-- Scripts that stages run, up to `depth` within each other. -/
def calls (programs : Host.Programs) (mayCall : Nat → Prop) : (depth : Nat) → Calls
  | 0 => .tooDeep
  | depth + 1 => invocations programs (calls programs mayCall depth) mayCall

/-- Steps of a script one after the other, while its surroundings may change the world as `apart` allows. -/
def Calls.Course (C : Calls) (apart : World → World → Prop) : C.State × World → C.State × World → Prop :=
  Relation.ReflTransGen fun x y => C.Step x y ∨ y.1 = x.1 ∧ apart x.2 y.2

end Pipework
