import Pipework.Builtin.Standard
import Pipework.Script.Parse
import Pipework.Stage

/-!
# Running scripts

Statements run one after the other, each by trying its alternatives until one succeeds. The stages
of a pipeline are launched from left to right; then those before the last run, then the last one.
A stage that has to wait does not hold up the others. The pipeline has ended when all of its stages
have.
-/

namespace Pipework

/-- A stage other than the last, as far as it has come. -/
inductive Activity where
  | fresh (start : Line → Run Line Unit)
  | waiting (why : Wait) (resume : Signal → Line → Run Line Unit)

namespace Activity

def ofRun : Run Line Unit → Option Activity × Line
  | .done () line => (none, line)
  | .wait why line resume => (some (.waiting why resume), line)

def isDue (line : Line) : Wait → Bool
  | .stop | .never => line.canceled
  | .input i => (line.pipe i).ended
  | .room i => line.canceled || line.broken.contains i
  | .offer _ _ => line.stopped

def proceed (a : Activity) (line : Line) : Option Activity × Line :=
  match a with
  | .fresh start => ofRun (start line)
  | .waiting why resume =>
    if isDue line why then ofRun (resume (if line.canceled then .stop 0 else .ready) line)
    else (some a, line)

def pass : List Activity → Line → List Activity × Line
  | [], line => ([], line)
  | a :: rest, line =>
    let (left, line) := a.proceed line
    let (rest, line) := pass rest line
    (left.toList ++ rest, line)

def passes : Nat → List Activity → Line → List Activity × Line
  | 0, acts, line => (acts, line)
  | n + 1, acts, line =>
    let (acts, line) := pass acts line
    passes n acts line

/-- Goes on with the stages as far as they can. Every pass but the last ends or stops a stage. -/
def settle (acts : List Activity) (line : Line) : List Activity × Line :=
  passes (2 * acts.length + 1) acts line

def lapse : Run Line Unit → Option Activity × Line
  | .wait .stop line resume => lapse (resume .ready line)
  | run => ofRun run

def elapse : List Activity → Line → List Activity × Line
  | [], line => ([], line)
  | .waiting .stop resume :: rest, line =>
    let (left, line) := lapse (resume .ready line)
    let (rest, line) := elapse rest line
    (left.toList ++ rest, line)
  | a :: rest, line =>
    let (rest, line) := elapse rest line
    (a :: rest, line)

def rounds : Nat → List Activity → Line → List Activity × Line
  | 0, acts, line => (acts, line)
  | n + 1, acts, line =>
    let (acts, line) := elapse acts line
    let (acts, line) := settle acts line
    rounds n acts line

/-- Lets time pass until it moves no stage. Every round but the last gives a stage its input. -/
def outlast (acts : List Activity) (line : Line) : List Activity × Line :=
  rounds (acts.length + 1) acts line

def stopAll : List Activity → Line → Line
  | [], line => line
  | .fresh start :: rest, line => stopAll rest (start line).finish.2
  | .waiting _ resume :: rest, line => stopAll rest (resume (.stop 0) line).finish.2

end Activity

inductive Launched where
  | aborted (fault : Fault) (running : List Activity)
  | complete (running : List Activity) (last : Line → Run Line Unit)

structure Invoker where
  programs : Host.Programs
  context : Context
  overlay : Nat

namespace Invoker

variable (v : Invoker)

def flag (w : World) (key : String) : Bool :=
  lookupThrough (w.overlay v.overlay) w.host.env key == some "1"

def directory (w : World) : String := (w.overlay v.overlay).directory

def located (dir text : String) : String :=
  if dir = "" then text else text ++ " (cd: " ++ dir ++ ")"

def processEnv (w : World) (c : Command) : Table :=
  Host.extended w.host.env (Host.entries (w.overlay v.overlay) ++ c.env)

def launch (output : Output) (index : Nat) (isLast : Bool) (c : Command) (line : Line) :
    Except Fault Launch × Line :=
  let name := c.args.headD ""
  let dir := v.directory line.world
  let shown := located dir c.render
  let builtin := line.world.builtin? name
  let storage := if builtin.isSome then Storage.shell else .host
  let source := if index = 0 then Source.host else .pipe
  match (Wiring.initial source).redirectAll storage dir c.redirections line.world with
  | (.error fault, world) => (.error fault, { line with world := world })
  | (.ok w, world) =>
    let stage (isProcess : Bool) (source : Source) : Stage :=
      ⟨index, isLast, isProcess, shown, source, w.path, w.out, w.err, w.readings, output, v.overlay,
        v.context⟩
    match builtin with
    | some b =>
      let task := b.task ⟨c.args, c.env, dir, w.source == .host⟩
      (.ok ⟨b.inOrder, stage false w.source, task, ⟨w.feed, w.handles, []⟩⟩, { line with world := world })
    | none =>
      match Host.start v.programs world.host line.canceled dir c.args (v.processEnv world c) with
      | .error fault =>
        (.error (Failure.ofStart shown fault).toFault, { line with world := w.abandon world })
      | .ok task =>
        -- A process is handed all of the host's input at once.
        let (source, feed, input) := match w.source with
          | .host => (Source.feed, Feed.ofBytes world.input, [])
          | source => (source, w.feed, world.input)
        (.ok ⟨false, stage true source, task, ⟨feed, w.handles, []⟩⟩,
          { line with world := { world with input := input } })

variable (nested : Nested)

/-- Launches the commands from stage `index` on. A builtin that runs in order ends before the next
stage is launched. -/
def launchAll (output : Output) (index : Nat) (running : List Activity) :
    List Command → Line → Launched × Line
  | [], line => (.complete running (.done ()), line)
  | [c], line =>
    match v.launch output index true c line with
    | (.error fault, line) => (.aborted fault running, line)
    | (.ok start, line) => (.complete running (start.run nested), line)
  | c :: rest, line =>
    match v.launch output index false c line with
    | (.error fault, line) => (.aborted fault running, line)
    | (.ok start, line) =>
      if start.inOrder then
        launchAll output (index + 1) running rest (start.run nested line).complete.2
      else launchAll output (index + 1) (running ++ [.fresh (start.run nested)]) rest line

def outerWait : Wait → Wait
  | .offer data endless => .offer data endless
  | .never => .never
  | _ => .stop

/-- Goes on with the stages `acts` when a wait of their pipeline is over; `idle` tells whether it was
a wait for these stages. -/
def resumeOthers (signal : Signal) (idle : Bool) (acts : List Activity) (line : Line) :
    List Activity × Line :=
  match signal with
  | .stop _ => Activity.settle acts line.stop
  | .ready => if idle then Activity.outlast acts line else (acts, line)

/-- Waits for the stages that are left. Those that nothing moves any more end when they are stopped. -/
def await (acts : List Activity) (line : Line) : Run Line Unit :=
  let (acts, line) := Activity.settle acts line
  if acts.isEmpty then .done () line
  else
    .wait .stop line fun signal line =>
      let (acts, line) := resumeOthers signal true acts line
      if acts.isEmpty then .done () line
      else .wait .never line fun _ line => .done () (Activity.stopAll acts line.stop)

def drive (acts : List Activity) : Run Line Unit → Run Line Unit
  | .done () line => await acts line
  | .wait why line resume =>
    .wait (outerWait why) line fun signal line =>
      let (acts, line) := resumeOthers signal (why matches .input _) acts line
      drive acts (resume signal line)

structure Phase where
  world : World
  scope : Scope
  canceled : Bool
  stopped : Bool

def openLine (p : Pipeline) (phase : Phase) : Line where
  world := phase.world
  scope := phase.scope
  pipes := List.replicate (p.commands.length - 1) .awaiting
  broken := []
  captured := []
  board := .opened (v.flag phase.world pipefailVar)
  canceled := phase.canceled
  stopped := phase.stopped

def closeLine (phase : Phase) (line : Line) : Phase where
  world := line.world
  scope := line.scope
  canceled := phase.canceled || line.stopped
  stopped := line.stopped

def traceRecord (p : Pipeline) (dir : String) : String :=
  let place := if p.file = "" then "" else " at " ++ p.file ++ ":" ++ toString p.line
  "Running [" ++ located dir p.render ++ place ++ "]\n"

def traced (p : Pipeline) (w : World) : World :=
  if v.flag w debugVar then
    { w with trace := w.trace ++ markLines (utf8 "+ ") (utf8 (traceRecord p (v.directory w))) }
  else w

def runStages (output : Output) (p : Pipeline) (line : Line) : Run Line (Option Fault) :=
  match v.launchAll nested output 0 [] p.commands line with
  | (.aborted fault acts, line) =>
    let (acts, line) := Activity.settle acts { line with canceled := true }
    .done (some fault) (Activity.stopAll acts line)
  | (.complete acts last, line) =>
    let (acts, line) := Activity.settle acts line
    (drive acts (last line)).bind fun _ line => .done (line.board.verdict.map Failure.toFault) line

/-- Runs the pipeline `p`. Gives its fault, if it failed, and the output that was captured. -/
def runPipeline (output : Output) (p : Pipeline) (phase : Phase) :
    Run Phase (Option Fault × Bytes) :=
  let phase := { phase with world := v.traced p phase.world }
  ((v.runStages nested output p (v.openLine p phase)).within (closeLine phase) fun phase signal line =>
    { line with
      world := phase.world
      scope := phase.scope
      stopped := line.stopped || signal.isStop }).bind
    fun (fault, line) _ => .done (fault, line.captured) (closeLine phase line)

def runAlternatives (output : Output) : List Pipeline → Phase → Run Phase (Except Fault Bytes)
  | [], phase => .done (.ok []) phase
  | p :: rest, phase =>
    (v.runPipeline nested output p phase).bind fun (fault, text) phase =>
      match fault with
      | none => .done (.ok text) phase
      | some fault =>
        if p.ignore then .done (.ok []) phase
        else if rest.isEmpty then .done (.error fault) phase
        else runAlternatives output rest phase

end Invoker

inductive Mode where
  | run
  | capture
  | stream
  /-- The consumer has gone before the script begins, which stops the script. -/
  | abandoned
deriving DecidableEq, Repr

def Mode.output (m : Mode) (isLast : Bool) : Output :=
  match m with
  | .run => .host
  | .capture => .capture
  | .stream | .abandoned => if isLast then .consumer else .capture

namespace Invoker

def runStatements (v : Invoker) (nested : Nested) (m : Mode) (text : Bytes) :
    List Statement → Phase → Run Phase (Except Fault Bytes)
  | [], phase => .done (.ok text) phase
  | s :: rest, phase =>
    (v.runAlternatives nested (m.output rest.isEmpty) s.alternatives phase).bind
      fun result phase =>
        match result with
        | .error fault => .done (.error fault) phase
        | .ok text => runStatements v nested m text rest phase

end Invoker

/-- The overlay of an invocation; one that shares none makes it. -/
def Context.enter (context : Context) (w : World) : Nat × World :=
  match context.overlay with
  | some id => (id, w)
  | none => w.newOverlay

def executeWith (nested : Nested) (programs : Host.Programs) (context : Context) (m : Mode)
    (script : Script) (w : World) : Run World (Except Fault String) :=
  let (overlay, w) := context.enter w
  let v : Invoker := ⟨programs, context, overlay⟩
  let gone := m == .abandoned
  ((v.runStatements nested m [] script.statements ⟨w, .opened, context.canceled || gone, gone⟩).bind
    fun result phase =>
      let (scope, restored) := phase.scope.restore (phase.world.overlay overlay)
      .done (result.map capturedText)
        { phase with world := phase.world.setOverlay overlay restored, scope := scope }).within
    Invoker.Phase.world (fun world signal phase =>
      { phase with
        world := world
        canceled := phase.canceled || signal.isStop
        stopped := phase.stopped || signal.isStop })
    |>.bind fun (result, _) w => .done result w

def nestedRun (programs : Host.Programs) : (depth : Nat) → Nested
  | 0, _, _, _, _, w => .done (.error (.plain "scripts nest too deeply")) w
  | depth + 1, context, file, line, text, w =>
    match Script.parse ⟨context.symbols, file, line⟩ text with
    | .error mistake => .done (.error (.mistake mistake)) w
    | .ok script =>
      executeWith (nestedRun programs depth) programs context .capture script w

def maxDepth : Nat := 100000

def Script.execute (programs : Host.Programs) (context : Context) (m : Mode) (script : Script)
    (w : World) : Run World (Except Fault String) :=
  executeWith (nestedRun programs maxDepth) programs context m script w

end Pipework
