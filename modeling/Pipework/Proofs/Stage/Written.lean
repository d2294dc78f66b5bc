import Pipework.Proofs.Files.Writer
import Pipework.Proofs.Stage.Redirect

/-!
# What a stage writes to its files

Whatever a stage puts on an output that leads to a file is written to that file, in the order in which it comes:
the two outputs may lead to the same file. All of its files stay open until the stage ends, however that
comes about, and then each is closed once and gets what was written to it.
-/

namespace Pipework

/-- What is put on the outputs, in order. -/
abbrev Puts := List (Channel × Bytes)

namespace Stage

variable (st : Stage)

def sinkOf : Channel → Sink
  | .out => st.out
  | .err => st.err

/-- The files `handles` when `puts` has been put on the outputs of the stage. -/
def filled (handles : List Handle) (puts : Puts) : List Handle :=
  puts.foldl (fun handles put => (st.sinkOf put.1).gathered handles put.2) handles

/-- The share of `puts` that goes to the file number `i`. -/
def share (puts : Puts) (i : Nat) : Bytes := (puts.filter (st.sinkOf ·.1 = .file i)).flatMap Prod.snd

theorem filled_nil (handles : List Handle) : st.filled handles [] = handles := rfl

@[simp] theorem filled_append (handles : List Handle) (puts more : Puts) :
    st.filled handles (puts ++ more) = st.filled (st.filled handles puts) more := List.foldl_append

@[simp] theorem filled_singleton (handles : List Handle) (channel : Channel) (data : Bytes) :
    st.filled handles [(channel, data)] = (st.sinkOf channel).gathered handles data := rfl

theorem share_cons (channel : Channel) (data : Bytes) (puts : Puts) (i : Nat) :
    st.share ((channel, data) :: puts) i =
      (if st.sinkOf channel = .file i then data else []) ++ st.share puts i := by
  unfold share
  by_cases h : st.sinkOf channel = .file i <;> simp [h]

theorem filled_eq (handles : List Handle) (puts : Puts) :
    st.filled handles puts = handles.mapIdx fun i h => h.written (st.share puts i) := by
  induction puts generalizing handles with
  | nil => exact List.ext_getElem (by simp [filled_nil]) (by simp [filled_nil, share])
  | cons put puts ih =>
    obtain ⟨channel, data⟩ := put
    have hFirst : (st.sinkOf channel).gathered handles data =
        handles.mapIdx fun i h => h.written (if st.sinkOf channel = .file i then data else []) := by
      cases hSink : st.sinkOf channel with
      | file n =>
        refine List.ext_getElem (by simp [Sink.gathered]) fun i hi hi' => ?_
        by_cases hSame : n = i <;> simp [Sink.gathered, hSame]
      | _ => exact List.ext_getElem (by simp [Sink.gathered]) (by simp [Sink.gathered])
    have hCons : st.filled handles ((channel, data) :: puts) =
        st.filled ((st.sinkOf channel).gathered handles data) puts := rfl
    rw [hCons, ih, hFirst, List.mapIdx_mapIdx]
    simp only [Function.comp_def, Handle.written_written, share_cons]

/-- What an action has put on the outputs when it is answered. -/
def putsOf : (action : Action) → action.Answer → Puts
  | .write channel data, none => [(channel, data)]
  | .relay _, answer => [(.out, answer.1)]
  | _, _ => []

/-- What has been put on the outputs in the end, if the stage was not killed instead. -/
def putsFor (action : Action) (answer : Option action.Answer) : Puts := answer.elim [] (putsOf action)

/-- What has been put on the outputs by an action that may have to wait. -/
def putsIn {action : Action} : Reply action.Answer → Puts
  | .done (_, answer) _ => putsFor action answer
  | .wait _ _ _ => []

/-- What is put on the output of input without an end before that is copied for ever. -/
def ahead (desk : Desk) (line : Line) : Action → Puts
  | .relay filter =>
    if (st.inputFeed desk line).cycle = [] then [] else [(.out, ((st.inputFeed desk line).through filter).ready)]
  | _ => []

variable (desk : Desk) (line : Line)

theorem filled_of_not_file {channel : Channel} (h : (st.sinkOf channel).isFile = false) (handles : List Handle)
    (data : Bytes) : st.filled handles [(channel, data)] = handles := by
  rw [filled_singleton]
  exact Sink.gathered_of_not_file h handles data

theorem relay_fills (filter : Filter) :
    (st.relay filter desk line).Ends fun r =>
      r.1.handles = st.filled desk.handles (st.ahead desk line (.relay filter) ++ putsFor (.relay filter) r.2) := by
  unfold relay
  dsimp only
  split
  · next hEndless =>
    have hAhead : st.ahead desk line (.relay filter) = [(.out, ((st.inputFeed desk line).through filter).ready)] :=
      if_neg hEndless
    refine (st.pour_gathers desk line _).bind ?_
    rintro ⟨desk₁, delivery⟩ line₁ ⟨hGathered, hFull⟩
    -- What comes after the first bytes is not written to a file: the stage waits to be stopped.
    have hSilent : ∀ answer : Option (Bytes × Option Fault), (∀ a, answer = some a → a.1 = []) →
        desk₁.handles = st.filled desk.handles
          (st.ahead desk line (.relay filter) ++ putsFor (.relay filter) answer) := by
      intro answer hAnswer
      rw [filled_append, hAhead, filled_singleton]
      cases answer with
      | none => exact hGathered
      | some a =>
        have hPuts : putsFor (.relay filter) (some a) = [(.out, a.1)] := rfl
        rw [hPuts, filled_singleton, hAnswer a rfl, Sink.gathered_nil]
        exact hGathered
    dsimp only
    split
    · refine (st.flood_keeps desk₁ line₁ _).bind ?_
      rintro ⟨desk₂, answer⟩ line₂ hKeeps
      have hKeeps : desk₂.handles = desk₁.handles := hKeeps
      refine hKeeps.trans (hSilent _ ?_)
      intro a hSome
      obtain ⟨fault, -, rfl⟩ := Option.map_eq_some_iff.mp hSome
      rfl
    · refine hSilent _ ?_
      intro a hSome
      obtain ⟨d, -, rfl⟩ := Option.map_eq_some_iff.mp hSome
      rfl
  · next hFinite =>
    have hAhead : st.ahead desk line (.relay filter) = [] := if_pos (not_not.mp hFinite)
    simp only [hAhead, List.nil_append]
    refine (st.scan_keeps desk line).bind ?_
    rintro ⟨desk₁, answer⟩ line₁ hHandles
    have hHandles : desk₁.handles = desk.handles := hHandles
    cases answer with
    | none => exact hHandles
    | some input =>
      obtain ⟨data, fault⟩ := input
      refine (st.pour_gathers desk₁ line₁ (filter.apply none data)).bind ?_
      rintro ⟨desk₂, delivery⟩ line₂ ⟨hGathered, hFull⟩
      have hWritten : desk₂.handles = st.out.gathered desk.handles (filter.apply none data) := hHandles ▸ hGathered
      cases hFile : st.out.isFile with
      | true =>
        cases hFull hFile
        exact hWritten
      | false =>
        rw [Sink.gathered_of_not_file hFile] at hWritten
        have hAny : ∀ answer : Option (Bytes × Option Fault),
            desk₂.handles = st.filled desk.handles (putsFor (.relay filter) answer) := by
          intro answer
          cases answer with
          | none => exact hWritten
          | some a =>
            have hOut : (st.sinkOf .out).isFile = false := hFile
            exact hWritten.trans (st.filled_of_not_file hOut _ _).symm
        exact hAny _

theorem perform_fills (nested : Nested) {action : Action} (hInvokes : action.invokes = false) :
    (st.perform nested desk line action).Ends fun r =>
      r.1.handles = st.filled desk.handles (st.ahead desk line action ++ putsFor action r.2) := by
  have hWrite : ∀ channel data, ((st.deliver (st.sinkOf channel) data desk line).map Delivery.fault).Ends fun r =>
      r.1.handles = st.filled desk.handles (putsFor (.write channel data) r.2) := by
    intro channel data
    refine (st.deliver_gathers desk line (st.sinkOf channel) data).bind ?_
    rintro ⟨desk', delivery⟩ line' ⟨hGathered, hFull⟩
    cases hFile : (st.sinkOf channel).isFile with
    | true =>
      cases hFull hFile
      exact hGathered
    | false =>
      have hKeeps := hGathered
      rw [Sink.gathered_of_not_file hFile] at hKeeps
      cases delivery with
      | none => exact hKeeps
      | some d =>
        obtain ⟨taken, fault⟩ := d
        cases fault with
        | none => exact hGathered
        | some fault => exact hKeeps
  cases action with
  | write channel data =>
    cases channel with
    | out => exact hWrite .out data
    | err => exact hWrite .err data
  | flood data =>
    refine (st.flood_keeps desk line data).imp ?_
    rintro ⟨desk', answer⟩ hKeeps
    cases answer <;> exact hKeeps
  | read amount =>
    refine (st.read_keeps desk line amount).imp ?_
    rintro ⟨desk', answer⟩ hKeeps
    cases answer <;> exact hKeeps
  | relay filter => exact st.relay_fills desk line filter
  | pause =>
    unfold perform
    split
    · rfl
    · intro signal line'
      cases signal with
      | ready => rfl
      | stop taken =>
        unfold afterWait
        split <;> rfl
  | invoke file number script => cases hInvokes
  | _ => rfl

end Stage

/-- A stage is killed only when it is resumed after a wait, and has changed nothing in `world` since then. -/
def Reply.KillsIn {α : Type} (world : Option World) : Reply α → Prop
  | .done (_, none) line => world = some line.world
  | .done (_, some _) _ => True
  | .wait _ _ resume => ∀ signal line, Reply.KillsIn (some line.world) (resume signal line)

namespace Reply

variable {α β : Type} {world : Option World}

theorem KillsIn.bind {r : Reply α} {f : Desk × Option α → Line → Reply β} (h : r.KillsIn world)
    (hNone : ∀ desk line world, world = some line.world → (f (desk, none) line).KillsIn world)
    (hSome : ∀ desk answer line world, (f (desk, some answer) line).KillsIn world) :
    Reply.KillsIn world (Run.bind r f) := by
  induction r generalizing world with
  | done result line =>
    obtain ⟨desk, answer⟩ := result
    cases answer with
    | none => exact hNone desk line world h
    | some answer => exact hSome desk answer line world
  | wait why line resume ih => exact fun signal line => ih signal line (h signal line)

theorem KillsIn.map {r : Reply α} (f : α → β) (h : r.KillsIn world) : (r.map f).KillsIn world :=
  h.bind (fun _ _ _ hWorld => hWorld) fun _ _ _ _ => trivial

theorem killsIn_afterWait (st : Stage) (desk : Desk) (line line' : Line) (signal : Signal) (answer stopped : α)
    (h : line'.world = line.world) :
    KillsIn (some line.world) (.done (desk, st.afterWait signal answer stopped) line') := by
  cases signal with
  | ready => trivial
  | stop taken =>
    unfold Stage.afterWait
    dsimp only
    split
    · exact congrArg some h.symm
    · trivial

end Reply

namespace Stage

variable (st : Stage) (desk : Desk) (line : Line) (world : Option World)

theorem deliver_killsIn (sink : Sink) (data : Bytes) : (st.deliver sink data desk line).KillsIn world := by
  unfold deliver
  split
  · trivial
  · trivial
  · split <;> trivial
  · split
    · split <;> trivial
    · split
      · trivial
      · trivial
      · split
        · trivial
        · split
          · trivial
          · exact fun signal line => Reply.killsIn_afterWait st desk line line signal _ _ rfl

theorem flood_killsIn (data : Bytes) : (st.flood data desk line).KillsIn world := by
  unfold flood
  split
  · exact fun signal line => Reply.killsIn_afterWait st desk line line signal _ _ rfl
  · split
    · exact fun signal line => Reply.killsIn_afterWait st desk line line signal _ _ rfl
    · split
      · split
        · trivial
        · exact fun signal line => Reply.killsIn_afterWait st desk line line signal _ _ rfl
      · exact fun signal line => Reply.killsIn_afterWait st desk line line signal _ _ rfl

theorem read_killsIn (amount : Amount) : (st.read amount desk line).KillsIn world := by
  unfold read
  split
  · trivial
  · trivial
  · dsimp only
    split
    · trivial
    · exact fun signal line => Reply.killsIn_afterWait st desk line _ signal _ _ rfl

theorem pour_killsIn (data : Bytes) : (st.pour data desk line).KillsIn world := by
  unfold pour
  split
  · trivial
  · exact st.deliver_killsIn desk line world st.out data

theorem scan_killsIn : (st.scan desk line).KillsIn world := by
  unfold scan
  split
  · trivial
  · exact st.read_killsIn desk line world .all

theorem relay_killsIn (filter : Filter) : (st.relay filter desk line).KillsIn world := by
  unfold relay
  dsimp only
  split
  · refine (st.pour_killsIn desk line world _).bind ?_ ?_
    · exact fun _ _ _ hWorld => hWorld
    · rintro desk₁ ⟨taken, fault⟩ line₁ world₁
      cases fault with
      | none => exact (st.flood_killsIn desk₁ line₁ world₁ _).map _
      | some fault => trivial
  · refine (st.scan_killsIn desk line world).bind ?_ ?_
    · exact fun _ _ _ hWorld => hWorld
    · rintro desk₁ ⟨data, fault⟩ line₁ world₁
      refine (st.pour_killsIn desk₁ line₁ world₁ _).bind ?_ ?_
      · intro desk₂ line₂ world₂ hWorld
        dsimp only
        split <;> exact hWorld
      · rintro desk₂ ⟨taken, fault⟩ line₂ world₂
        cases fault <;> trivial

theorem perform_killsIn (nested : Nested) {action : Action} (hInvokes : action.invokes = false) :
    (st.perform nested desk line action).KillsIn world := by
  cases action with
  | write channel data =>
    cases channel with
    | out => exact (st.deliver_killsIn desk line world st.out data).map _
    | err => exact (st.deliver_killsIn desk line world st.err data).map _
  | flood data => exact st.flood_killsIn desk line world data
  | read amount => exact st.read_killsIn desk line world amount
  | relay filter => exact st.relay_killsIn desk line world filter
  | pause =>
    unfold perform
    split
    · trivial
    · exact fun signal line => Reply.killsIn_afterWait st desk line line signal () () rfl
  | invoke file number script => cases hInvokes
  | _ => trivial

end Stage

/-- The stage is about to run a script, in the middle of that, or about to end. -/
def Work.IsQuiet {S : Type} : Work S → Prop
  | .ready (.act action _) _ => action.invokes = true
  | .ready (.done _) _ => True
  | .calling _ _ _ => True
  | .waiting _ _ => False

/-- A turn of the stage `st`, and what it puts on the outputs. -/
inductive Emits (C : Calls) (mayCall : Prop) (st : Stage) : Work C.State × Line → Puts → Turn C.State × Line → Prop
  | act {action : Action} {next : action.Answer → Program (Except Fault Unit)} {desk : Desk} {line : Line}
      (nested : Nested) (hInvokes : action.invokes = false) :
    Emits C mayCall st (.ready (.act action next) desk, line)
      (st.ahead desk line action ++ Stage.putsIn (st.perform nested desk line action))
      (st.after next (st.perform nested desk line action))
  | resume {action : Action} {resume : Signal → Line → Reply action.Answer}
      {next : action.Answer → Program (Except Fault Unit)} {line : Line} (signal : Signal)
      (hStop : signal.isStop = true → line.canceled = true) :
    Emits C mayCall st (.waiting resume next, line) (Stage.putsIn (resume signal line))
      (st.after next (resume signal line))
  | kill {program : Program (Except Fault Unit)} {desk : Desk} {line : Line} (hProcess : st.isProcess = true)
      (hCanceled : line.canceled = true) :
    Emits C mayCall st (.ready program desk, line) [] (st.killed desk line)
  | quiet {work : Work C.State} {line : Line} {x : Turn C.State × Line} (hQuiet : work.IsQuiet)
      (hActs : Acts C mayCall st (.on work, line) x) : Emits C mayCall st (work, line) [] x

/-- Turns of the stage `st` one after the other, and all that it puts on the outputs. In between others may change
the pipeline as they like. -/
inductive Labors (C : Calls) (mayCall : Prop) (st : Stage) (start : Work C.State) : Puts → Work C.State → Prop
  | start : Labors C mayCall st start [] start
  | turn {puts more : Puts} {work work' : Work C.State} {line line' : Line}
      (h : Labors C mayCall st start puts work) (hEmits : Emits C mayCall st (work, line) more (.on work', line')) :
    Labors C mayCall st start (puts ++ more) work'

/-- The files of the stage `st`, which had `handles` when it was launched, hold what was put on the outputs. -/
def Work.Fills {S : Type} (st : Stage) (handles : List Handle) (puts : Puts) : Work S → Prop
  | .ready _ desk | .calling _ _ desk => desk.handles = st.filled handles puts
  | @Work.waiting _ action resume _ => ∀ signal line,
    ((resume signal line).Ends fun r => r.1.handles = st.filled handles (puts ++ Stage.putsFor action r.2)) ∧
      (resume signal line).KillsIn (some line.world)

/-- The stage goes on, or it has closed its files in `world`. -/
def Turn.Fills {S : Type} (st : Stage) (handles : List Handle) (puts : Puts) (world : World) : Turn S × Line → Prop
  | (.on work, _) => work.Fills st handles puts
  | (.ended _, line) => line.world = (world.closeAll (st.filled handles puts)).releaseAll st.readings

section Filling

variable {C : Calls} {mayCall : Prop} {st : Stage} {handles : List Handle} {puts more : Puts}
  {start work work' : Work C.State} {line line' : Line} {x : Turn C.State × Line}

/-- `Emits` tells of all that a stage does, and only of that. -/
theorem acts_iff : Acts C mayCall st (.on work, line) x ↔ ∃ puts, Emits C mayCall st (work, line) puts x := by
  constructor
  · intro h
    cases h with
    | act nested hInvokes => exact ⟨_, .act nested hInvokes⟩
    | @call file number text desk _ next hCall => exact ⟨[], .quiet (rfl : Action.invokes _ = true) (.call hCall)⟩
    | inner hStep => exact ⟨[], .quiet trivial (.inner hStep)⟩
    | answer hResult => exact ⟨[], .quiet trivial (.answer hResult)⟩
    | resume signal hStop => exact ⟨_, .resume signal hStop⟩
    | kill hProcess hCanceled => exact ⟨[], .kill hProcess hCanceled⟩
    | finish => exact ⟨[], .quiet trivial .finish⟩
  · rintro ⟨puts, h⟩
    cases h with
    | act nested hInvokes => exact .act nested hInvokes
    | resume signal hStop => exact .resume signal hStop
    | kill hProcess hCanceled => exact .kill hProcess hCanceled
    | quiet hQuiet hActs => exact hActs

theorem Stage.closed_fills {desk : Desk} (h : desk.handles = st.filled handles puts) (fault : Option Fault)
    (line : Line) : Turn.Fills (S := C.State) st handles puts line.world (st.closed fault desk line) := by
  have hWorld : (st.close fault desk line).world = (line.world.closeAll desk.handles).releaseAll st.readings := rfl
  rw [h] at hWorld
  exact hWorld

theorem Stage.after_fills {action : Action} {next : action.Answer → Program (Except Fault Unit)}
    {reply : Reply action.Answer} {world : World}
    (hEnds : reply.Ends fun r => r.1.handles = st.filled handles (puts ++ putsFor action r.2))
    (hKills : reply.KillsIn (some world)) :
    Turn.Fills (S := C.State) st handles (puts ++ putsIn reply) world (st.after next reply) := by
  -- What is left of the action after a wait has the same two properties.
  have hWait : ∀ {r : Reply action.Answer} {w : Option World},
      (r.Ends fun r => r.1.handles = st.filled handles (puts ++ putsFor action r.2)) → r.KillsIn w →
      ∀ why line resume, r = .wait why line resume →
        (Work.waiting resume next : Work C.State).Fills st handles puts := by
    rintro r w hEnds hKills why line resume rfl signal line'
    exact ⟨hEnds signal line', hKills signal line'⟩
  cases reply with
  | done result line =>
    obtain ⟨desk, answer⟩ := result
    cases answer with
    | some answer => exact hEnds
    | none =>
      obtain rfl : world = line.world := Option.some.inj hKills
      exact closed_fills hEnds _ line
  | wait why line resume =>
    have hPuts : puts ++ @putsIn action (.wait why line resume) = puts := List.append_nil puts
    rw [hPuts]
    exact hWait hEnds hKills why line resume rfl

theorem Emits.fills (h : Emits C mayCall st (work, line) more x) (hWork : work.Fills st handles puts) :
    Turn.Fills st handles (puts ++ more) line.world x := by
  cases h with
  | @act action next desk _ nested hInvokes =>
    have hFills := (st.perform_fills desk line nested hInvokes).imp fun r hr =>
      hr.trans (congrArg (st.filled · _) hWork)
    rw [← List.append_assoc]
    refine Stage.after_fills (hFills.imp ?_) (st.perform_killsIn desk line (some line.world) nested hInvokes)
    intro r hr
    rw [hr]
    simp
  | resume signal hStop => exact Stage.after_fills (hWork signal line).1 (hWork signal line).2
  | kill hProcess hCanceled =>
    rw [List.append_nil]
    exact Stage.closed_fills hWork _ line
  | quiet hQuiet hActs =>
    rw [List.append_nil]
    cases hActs with
    | @act action next desk _ nested hInvokes =>
      have hCalls : action.invokes = true := hQuiet
      rw [hInvokes] at hCalls
      cases hCalls
    | call hCall => exact hWork
    | inner hStep => exact hWork
    | answer hResult => exact hWork
    | resume signal hStop => exact hQuiet.elim
    | kill hProcess hCanceled => exact Stage.closed_fills hWork _ line
    | finish => exact Stage.closed_fills hWork _ line

theorem Labors.fills (h : Labors C mayCall st start puts work) (hStart : start.Fills st handles []) :
    work.Fills st handles puts := by
  induction h with
  | start => exact hStart
  | turn h hEmits ih => exact hEmits.fills ih

end Filling

/-- The launched stage has the streams `w`. A process without an input of its own is handed all of the host's input,
`input`. -/
structure Launch.Wired (start : Launch) (w : Wiring) (input : Bytes) : Prop where
  out : start.stage.out = w.out
  err : start.stage.err = w.err
  path : start.stage.path = w.path
  source : (start.stage.source = w.source ∧ start.desk.feed = w.feed) ∨
    (w.source = .host ∧ start.stage.isProcess = true ∧ start.stage.source = .feed ∧
      start.desk.feed = .ofBytes input)
  handles : start.desk.handles = w.handles
  readings : start.stage.readings = w.readings

namespace Invoker

variable {v : Invoker} {index : Nat} {c : Command} {line : Line} {w : Wiring} {world : World}

/-- A command whose redirections are made is launched with the streams that they give, unless it is no builtin and no
process can be started. Its files are closed then. -/
theorem launch_wired (h : v.redirected index c line c.redirections = (.ok w, world)) (output : Output)
    (isLast : Bool) :
    (∃ start input, v.launch output index isLast c line =
        (.ok start, { line with world := { world with input := input } }) ∧ start.Wired w world.input) ∨
      (line.world.builtin? (c.args.headD "") = none ∧ ∃ fault, v.launch output index isLast c line =
        (.error fault, { line with world := w.abandon world })) := by
  cases hBuiltin : line.world.builtin? (c.args.headD "") with
  | some b =>
    have hRedirect : (Wiring.initial (if index = 0 then .host else .pipe)).redirectAll .shell
        (v.directory line.world) c.redirections line.world = (.ok w, world) := by
      rw [← h, redirected, storageOf, hBuiltin]
      rfl
    exact .inl ⟨_, world.input, launch_of_redirectAll hBuiltin hRedirect, rfl, rfl, rfl, .inl ⟨rfl, rfl⟩, rfl, rfl⟩
  | none =>
    cases hStart : Host.start v.programs world.host line.canceled (v.directory line.world) c.args
        (v.processEnv world c) with
    | error cause => exact .inr ⟨rfl, _, launch_unstarted hBuiltin h hStart⟩
    | ok task =>
      refine .inl ?_
      unfold redirected storageOf at h
      unfold launch
      dsimp only
      rw [h]
      dsimp only
      rw [hBuiltin, hStart]
      dsimp only
      split
      · next hSource =>
        exact ⟨_, _, rfl, rfl, rfl, rfl, .inr ⟨hSource, rfl, rfl, rfl⟩, rfl, rfl⟩
      · exact ⟨_, _, rfl, rfl, rfl, rfl, .inl ⟨rfl, rfl⟩, rfl, rfl⟩

/-- If every file that the redirections of a command name can be opened, each is opened once, in order, and each
stream leads where the last redirection of it says. The stage closes each file once, at its end, and the file gets
all that was put on the outputs that lead to it. If a file cannot be opened, none after it is, the command is
not launched, and those opened before it are closed. -/
theorem redirections_resolve (v : Invoker) (output : Output) (index : Nat) (isLast : Bool) (c : Command) (line : Line)
    (hLegal : ∀ r ∈ c.redirections, r.Legal) :
    let storage := storageOf c line
    let dir := v.directory line.world
    let opened (rs : List Redirection) := line.world.serveAll storage (Wiring.openings dir rs)
    let closings := Wiring.closings storage dir
    (line.world.Grants storage (Wiring.openings dir c.redirections) →
      ∃ w current, Wiring.Resolves storage dir c.redirections (if index = 0 then .host else .pipe) line.world w ∧
        w.Currently storage (opened c.redirections) current ∧
        ((∃ start input, v.launch output index isLast c line =
              (.ok start, { line with world := { opened c.redirections with input := input } }) ∧
            start.Wired { w with feed := current } (opened c.redirections).input ∧
            ∀ (C : Calls) (mayCall : Prop) (puts more : Puts) (work : Work C.State) (now after : Line)
              (result : Option Failure),
              Labors C mayCall start.stage (.ready start.task start.desk) puts work →
              Emits C mayCall start.stage (work, now) more (.ended result, after) →
              after.world = now.world.serveAll storage
                (closings c.redirections (start.stage.share (puts ++ more)))) ∨
          (line.world.builtin? (c.args.headD "") = none ∧ ∃ fault, v.launch output index isLast c line =
            (.error fault, { line with world :=
              (opened c.redirections).serveAll storage (closings c.redirections fun _ => []) })))) ∧
    ∀ before r after request fault, c.redirections = before ++ r :: after → r.opening? dir = some request →
      line.world.Grants storage (Wiring.openings dir before) →
      ((opened before).serve storage request).1 = .error fault →
      ∃ world, v.launch output index isLast c line = (.error fault, { line with world := world }) ∧
        world = line.world.serveAll storage (Wiring.openings dir before ++ request :: closings before fun _ => []) := by
  intro storage dir opened closings
  constructor
  · intro hGrants
    obtain ⟨w, current, hResolves, hCurrent, hRedirected⟩ :=
      Wiring.redirectAll_granted (if index = 0 then .host else .pipe) hLegal hGrants
    refine ⟨w, current, hResolves, hCurrent, ?_⟩
    rcases launch_wired hRedirected output isLast with ⟨start, input, hLaunch, hWired⟩ | ⟨hBuiltin, fault, hLaunch⟩
    · refine .inl ⟨start, input, hLaunch, hWired, ?_⟩
      intro C mayCall puts more work now after result hLabors hEmits
      have hHandles : start.desk.handles = Wiring.writers storage dir c.redirections :=
        hWired.handles.trans hResolves.handles
      have hReadings : start.stage.readings = Wiring.readers storage dir c.redirections :=
        hWired.readings.trans hResolves.readings
      have hStart : (Work.ready start.task start.desk : Work C.State).Fills start.stage start.desk.handles [] := rfl
      have hClosed : after.world = _ := hEmits.fills (hLabors.fills hStart)
      rw [hClosed, Stage.filled_eq, hHandles, hReadings, Wiring.close_files]
    · refine .inr ⟨hBuiltin, fault, hLaunch.trans ?_⟩
      have hAbandon := hResolves.abandon (opened c.redirections)
      exact congrArg (fun world : World => (Except.error fault, { line with world := world })) hAbandon
  · intro before r after request fault hSplit hRequest hGrants hFault
    rw [hSplit] at hLegal
    obtain ⟨hBefore, hr⟩ := List.forall_mem_append.mp hLegal
    have hRefused : v.redirected index c line c.redirections = (.error fault,
        (line.world.serveAll storage (Wiring.openings dir before ++ [request])).serveAll storage
          (closings before fun _ => [])) := by
      rw [hSplit]
      exact Wiring.redirectAll_refused hBefore (List.forall_mem_cons.mp hr).1 hGrants hRequest hFault
    rw [← World.serveAll_append, List.append_assoc] at hRefused
    refine ⟨_, ?_, rfl⟩
    unfold redirected storageOf at hRefused
    unfold launch
    dsimp only
    rw [hRefused]
    rfl

/-- A command whose output takes the way of its errors, which are then discarded. -/
def diverted : Command := ⟨["echo", "a"], [], [⟨2, .file "/log", false⟩, ⟨1, .fd 2, false⟩, ⟨2, .null, false⟩]⟩

theorem redirections_resolve_diverted :
    let line := Invoker.bench.openLine ⟨[diverted], false, "", 1⟩ ⟨.bench [], .opened, false, false⟩
    (∀ r ∈ diverted.redirections, r.Legal) ∧ line.world.Grants .shell (Wiring.openings "" diverted.redirections) ∧
      ∃ start line', Invoker.bench.launch .host 0 true diverted line = (.ok start, line') ∧
        start.stage.out = .file 0 ∧ start.stage.err = .null := by
  intro line
  have hLegal : ∀ r ∈ diverted.redirections, r.Legal := by
    refine List.forall_mem_cons.mpr ⟨?_, List.forall_mem_cons.mpr ⟨?_, List.forall_mem_singleton.mpr ?_⟩⟩
    · exact .output false (.inr rfl) (by simp)
    · exact .output false (.inl rfl) (by simp)
    · exact .output false (.inr rfl) (by simp)
  have hGrants : line.world.Grants .shell (Wiring.openings "" diverted.redirections) := by
    intro before request after hSplit
    have hOne : [FileRequest.create "/log"] = before ++ request :: after := hSplit
    obtain ⟨rfl, rfl, rfl⟩ : before = [] ∧ request = .create "/log" ∧ after = [] := by
      cases before with
      | nil => simpa [eq_comm] using hOne
      | cons first before => simp at hOne
    exact ⟨.nothing, rfl⟩
  obtain ⟨w, current, hResolves, -, ⟨start, input, hLaunch, hWired, -⟩ | ⟨hNone, -⟩⟩ :=
    (redirections_resolve Invoker.bench .host 0 true diverted line hLegal).1 hGrants
  · have hFile : Wiring.Leads .shell "" [⟨2, .file "/log", false⟩] 2 (.file 0) :=
      @Wiring.Leads.file .shell "" [] [] 2 false "/log" (by simp)
    have hOut := @Wiring.Leads.duplicate .shell "" [⟨2, .file "/log", false⟩] [⟨2, .null, false⟩] 1 2 false _
      (by simp) hFile
    have hErr := @Wiring.Leads.null .shell "" [⟨2, .file "/log", false⟩, ⟨1, .fd 2, false⟩] [] 2 false (by simp)
    refine ⟨hLegal, hGrants, start, _, hLaunch, ?_, ?_⟩
    · exact hWired.out.trans ((hResolves.outputs 1 (.inl rfl) _).mp hOut)
    · exact hWired.err.trans ((hResolves.outputs 2 (.inr rfl) _).mp hErr)
  · cases hNone

end Invoker

end Pipework
