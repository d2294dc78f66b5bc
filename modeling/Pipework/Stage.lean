import Pipework.Host.Process
import Pipework.Run
import Pipework.Script.Basic
import Pipework.World

/-!
# Stages of a pipeline

A stage is a command with its streams resolved. Redirections are applied from left to right: each
points one stream of the stage to where another stream of it points at that time, to a file, or to
nothing. Running a stage answers the actions of its program one after the other; when the program
ends, the files that were opened for it are closed in the order in which they were opened.
-/

namespace Pipework

inductive Sink where
  | output
  /-- The error output of the host, of which the stage keeps a record. -/
  | errors
  | file (index : Nat)
  | null
deriving DecidableEq, Repr

inductive Source where
  | host
  | pipe
  /-- A file, or nothing at all. -/
  | feed
deriving DecidableEq, Repr

structure Wiring where
  source : Source
  feed : Feed
  path : Option String
  out : Sink
  err : Sink
  handles : List Handle
  readings : List Reading
deriving DecidableEq, Repr

def World.closeAll (w : World) (handles : List Handle) : World :=
  handles.foldl (fun w h => (w.serve h.storage h.closing).2) w

def World.releaseAll (w : World) (readings : List Reading) : World :=
  readings.foldl (fun w r => (w.serve r.storage r.closing).2) w

namespace Wiring

def initial (source : Source) : Wiring := ⟨source, .nothing, none, .output, .errors, [], []⟩

def point (w : Wiring) (fd : Int) (sink : Sink) : Wiring :=
  if fd = 1 then { w with out := sink } else { w with err := sink }

def sink (w : Wiring) (fd : Int) : Sink := if fd = 1 then w.out else w.err

def opening (w : Wiring) (h : Handle) : Wiring × Sink :=
  ({ w with handles := w.handles ++ [h] }, .file w.handles.length)

def redirect (storage : Storage) (dir : String) (w : Wiring) (r : Redirection) (world : World) :
    Except Fault Wiring × World :=
  if r.fd = 0 then
    match r.target with
    | .null => (.ok { w with source := .feed, feed := .nothing, path := none }, world)
    | .fd _ => (.ok w, world)
    | .file path =>
      let path := Path.resolve dir path
      let (reply, world) := world.serve storage (.read path)
      (reply.map fun feed =>
        { w with
          source := .feed
          feed := feed
          path := some path
          readings := w.readings ++ [⟨storage, path⟩] }, world)
  else
    match r.target with
    | .null => (.ok (w.point r.fd .null), world)
    | .fd n => (.ok (w.point r.fd (w.sink n)), world)
    | .file path =>
      let path := Path.resolve dir path
      let (reply, world) := world.serve storage (if r.append then .append path else .create path)
      (reply.map fun _ =>
        let (w, sink) := w.opening ⟨storage, path, r.append, []⟩
        w.point r.fd sink, world)

/-- Reads the file at the input as it is now, unless a reader holds what it was when opened. -/
def refresh (storage : Storage) (w : Wiring) (world : World) : Wiring :=
  match w.path with
  | some path =>
    if world.isHeld storage then w
    else match (world.serve storage (.read path)).1 with
      | .ok feed => { w with feed := feed }
      | .error _ => w
  | none => w

def abandon (w : Wiring) (world : World) : World :=
  (world.closeAll w.handles).releaseAll w.readings

/-- Applies redirections from left to right. If one fails, those after it are left out and the files
that were opened are closed. What a later one does to the file at the input shows when that is read. -/
def redirectAll (storage : Storage) (dir : String) (w : Wiring) :
    List Redirection → World → Except Fault Wiring × World
  | [], world => (.ok (w.refresh storage world), world)
  | r :: rs, world =>
    match w.redirect storage dir r world with
    | (.ok w, world) => w.redirectAll storage dir rs world
    | (.error fault, world) => (.error fault, w.abandon world)

end Wiring

/-- The status of a pipeline: the failure of the stage that failed first, and the result of the
last stage. -/
structure Board where
  pipefail : Bool
  first : Option Failure
  last : Option Failure
deriving DecidableEq, Repr

namespace Board

def opened (pipefail : Bool) : Board := ⟨pipefail, none, none⟩

def complete (b : Board) (isLast : Bool) (result : Option Failure) : Board :=
  { b with first := b.first.or result, last := if isLast then result else b.last }

def cancels (b : Board) : Bool := b.pipefail && b.first.isSome

def verdict (b : Board) : Option Failure := if b.pipefail then b.first.or b.last else b.last

end Board

structure Context where
  symbols : Table
  /-- The overlay that invocations share; without one, each makes its own. -/
  overlay : Option Nat
  canceled : Bool

inductive Output where
  | host
  | capture
  | consumer
deriving DecidableEq, Repr

structure Line where
  world : World
  scope : Scope
  pipes : List Feed
  broken : List Nat
  captured : Bytes
  board : Board
  canceled : Bool
  /-- The invocation has been stopped, and the consumer of its output is gone. -/
  stopped : Bool

namespace Line

def pipe (l : Line) (i : Nat) : Feed := l.pipes.getD i .nothing

def setPipe (l : Line) (i : Nat) (f : Feed) : Line := { l with pipes := l.pipes.set i f }

def stop (l : Line) : Line := { l with canceled := true, stopped := true }

def dropInput (l : Line) (n : Nat) : Line :=
  { l with world := { l.world with input := l.world.input.drop n } }

end Line

structure Stage where
  index : Nat
  isLast : Bool
  isProcess : Bool
  shown : String
  source : Source
  path : Option String
  out : Sink
  err : Sink
  readings : List Reading
  output : Output
  overlay : Nat
  context : Context

structure Desk where
  feed : Feed
  handles : List Handle
  log : Bytes

/-- The way in which an action runs a script on behalf of a stage. -/
abbrev Nested := Context → String → Int → String → World → Run World (Except Fault String)

/-- An answer to an action, or nothing if the stage is a process that was killed instead. -/
abbrev Reply (α : Type) := Run Line (Desk × Option α)

def Reply.map {α β : Type} (f : α → β) (r : Reply α) : Reply β :=
  Run.bind r fun (desk, answer) line => .done (desk, answer.map f) line

structure Delivery where
  taken : Nat
  fault : Option Fault

def Delivery.full (data : Bytes) : Delivery := ⟨data.length, none⟩

namespace Stage

variable (st : Stage)

/-- The answer after a wait: `stopped` if the stage was stopped, unless that kills it. -/
def afterWait {α : Type} (signal : Signal) (answer stopped : α) : Option α :=
  match signal with
  | .ready => some answer
  | .stop _ => if st.isProcess then none else some stopped

/-- Writes `data` to `sink`. A consumer has to take even a write of nothing, if a builtin makes
it. -/
def deliver (sink : Sink) (data : Bytes) (desk : Desk) (line : Line) : Reply Delivery :=
  match sink with
  | .null => .done (desk, some (.full data)) line
  | .errors =>
    .done ({ desk with log := desk.log ++ data }, some (.full data))
      { line with world := { line.world with errors := line.world.errors ++ data } }
  | .file i =>
    match desk.handles[i]? with
    | none => .done (desk, some (.full data)) line
    | some h =>
      let (_, world) := line.world.serve h.storage (h.writing data)
      .done ({ desk with handles := desk.handles.set i (h.written data) }, some (.full data))
        { line with world := world }
  | .output =>
    if !st.isLast then
      if data ≠ [] && line.broken.contains st.index then
        .done (desk, some ⟨0, some brokenPipe⟩) line
      else
        .done (desk, some (.full data)) (line.setPipe st.index ((line.pipe st.index).add data))
    else match st.output with
    | .host =>
      .done (desk, some (.full data))
        { line with world := { line.world with output := line.world.output ++ data } }
    | .capture => .done (desk, some (.full data)) { line with captured := line.captured ++ data }
    | .consumer =>
      if data = [] && st.isProcess then .done (desk, some (.full data)) line
      else if line.stopped then .done (desk, some ⟨0, some .pipeClosed⟩) line
      else .wait (.offer data false) line fun signal line =>
        .done (desk, st.afterWait signal (.full data) ⟨signal.taken, some .pipeClosed⟩) line

def flood (data : Bytes) (desk : Desk) (line : Line) : Reply (Option Fault) :=
  if st.out ≠ .output then
    .wait .stop line fun signal line => .done (desk, st.afterWait signal none (some .canceled)) line
  else if !st.isLast then
    let line := line.setPipe st.index { line.pipe st.index with cycle := data }
    .wait (.room st.index) line fun signal line =>
      .done (desk, st.afterWait signal (some brokenPipe) (some brokenPipe)) line
  else match st.output with
  | .consumer =>
    if line.stopped then .done (desk, some (some .pipeClosed)) line
    else .wait (.offer data true) line fun signal line =>
      .done (desk, st.afterWait signal none (some .pipeClosed)) line
  | _ =>
    .wait .stop line fun signal line => .done (desk, st.afterWait signal none (some .canceled)) line

def read (amount : Amount) (desk : Desk) (line : Line) : Reply (Bytes × Option Fault) :=
  match st.source with
  | .host =>
    let feed := Feed.ofBytes line.world.input
    let (answer, feed) := (feed.take? amount).getD feed.empty
    .done (desk, some answer) { line with world := { line.world with input := feed.ready } }
  | .feed =>
    let (answer, feed) := (desk.feed.take? amount).getD desk.feed.empty
    .done ({ desk with feed := feed }, some answer) line
  | .pipe =>
    let i := st.index - 1
    match (line.pipe i).take? amount with
    | some (answer, feed) => .done (desk, some answer) (line.setPipe i feed)
    | none =>
      .wait (.input i) line fun signal line =>
        let (answer, feed) := ((line.pipe i).take? amount).getD (line.pipe i).empty
        .done (desk, st.afterWait signal answer answer) (line.setPipe i feed)

def pour (data : Bytes) (desk : Desk) (line : Line) : Reply Delivery :=
  if data = [] then .done (desk, some (.full [])) line else st.deliver st.out data desk line

def scan (desk : Desk) (line : Line) : Reply (Bytes × Option Fault) :=
  if st.source = .host then .done (desk, some (line.world.input, none)) line
  else st.read .all desk line

def inputFeed (desk : Desk) (line : Line) : Feed :=
  match st.source with
  | .host => .ofBytes line.world.input
  | .pipe => line.pipe (st.index - 1)
  | .feed => desk.feed

/-- Copies the input of the stage to its output through a filter. Of the host's input, only what was
taken is used up. -/
def relay (filter : Filter) (desk : Desk) (line : Line) : Reply (Bytes × Option Fault) :=
  let feed := st.inputFeed desk line
  if feed.cycle ≠ [] then
    (st.pour (feed.through filter).ready desk line).bind fun (desk, delivery) line =>
      match delivery with
      | some ⟨_, none⟩ => (st.flood (feed.through filter).cycle desk line).map ([], ·)
      | _ => .done (desk, delivery.map fun d => ([], d.fault)) line
  else (st.scan desk line).bind fun (desk, answer) line =>
    match answer with
    | none => .done (desk, none) line
    | some (data, fault) =>
      let passed := filter.apply none data
      (st.pour passed desk line).bind fun (desk, delivery) line =>
        let (used, answer) := match delivery with
          | some ⟨_, none⟩ => (data.length, some (passed, fault))
          | some ⟨taken, refusal⟩ => (taken, some ([], refusal))
          | none => (0, none)
        .done (desk, answer) (if st.source = .host then line.dropInput used else line)

def fileAt (side : Side) (desk : Desk) (line : Line) : Option String :=
  match side with
  | .input => st.path.map line.world.host.absolute
  | .output =>
    match st.out with
    | .file i => (desk.handles[i]?).map fun h => line.world.host.absolute h.path
    | _ => none

def perform (nested : Nested) (desk : Desk) (line : Line) : (action : Action) → Reply action.Answer
  | .write .out data => (st.deliver st.out data desk line).map Delivery.fault
  | .write .err data => (st.deliver st.err data desk line).map Delivery.fault
  | .flood data => st.flood data desk line
  | .read amount => st.read amount desk line
  | .relay filter => st.relay filter desk line
  | .lookup key =>
    .done (desk, some (lookupThrough (line.world.overlay st.overlay) line.world.host.env key)) line
  | .assign key value =>
    let (scope, overlay) := line.scope.assign (line.world.overlay st.overlay) key (some value)
    .done (desk, some ())
      { line with world := line.world.setOverlay st.overlay overlay, scope := scope }
  | .workDirectory => .done (desk, some line.world.host.currentDirectory) line
  | .files storage request =>
    let (reply, world) := line.world.serve storage request
    .done (desk, some reply) { line with world := world }
  | .inquire side => .done (desk, some (st.fileAt side desk line)) line
  | .pause =>
    if line.canceled then .done (desk, some ()) line
    else .wait .stop line fun signal line => .done (desk, st.afterWait signal () ()) line
  | .invoke file number script =>
    let context := { st.context with canceled := line.canceled }
    ((nested context file number script line.world).embed Line.world
      (fun world line => { line with world := world }) line).bind fun result line =>
        .done (desk, some result) line
  | .consult name ask =>
    let (mock, answer) := ask (line.world.mock name)
    .done (desk, some answer) { line with world := line.world.setMock name mock }

def close (fault : Option Fault) (desk : Desk) (line : Line) : Line :=
  let pipes := line.pipes.modify st.index Feed.finish
  let broken := if st.index = 0 then line.broken else (st.index - 1) :: line.broken
  let board := line.board.complete st.isLast (fault.map (Failure.ofFault st.shown desk.log))
  { line with
    world := (line.world.closeAll desk.handles).releaseAll st.readings
    pipes := pipes
    broken := broken
    board := board
    canceled := line.canceled || board.cancels }

def run (nested : Nested) : Program (Except Fault Unit) → Desk → Line → Run Line Unit
  | .done result, desk, line =>
    let fault := match result with
      | .ok () => none
      | .error fault => some fault
    .done () (st.close fault desk line)
  | .act action next, desk, line =>
    (st.perform nested desk line action).bind fun (desk, answer) line =>
      match answer with
      | some answer => run nested (next answer) desk line
      | none => .done () (st.close (some (.killed "SIGKILL")) desk line)

end Stage

structure Launch where
  /-- The stage ends before the next one is launched. -/
  inOrder : Bool
  stage : Stage
  task : Task Unit
  desk : Desk

def Launch.run (nested : Nested) (l : Launch) (line : Line) : Run Line Unit :=
  l.stage.run nested l.task l.desk line

end Pipework
