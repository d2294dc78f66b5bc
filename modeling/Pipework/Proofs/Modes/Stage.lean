import Pipework.Proofs.Modes.Mirror
import Pipework.Proofs.Stage.Launch

/-!
# Stages do not see where the output goes

A stage of a pipeline whose output is captured and the same stage of a pipeline whose output goes to the host or
to a consumer do the same: each of their actions has the same answer, and leaves the same world but for what
the host has received.
-/

namespace Pipework

namespace World

def withOutput (w : World) (o : Bytes) : World := { w with output := o }

theorem serve_withOutput (w : World) (o : Bytes) (storage : Storage) (request : FileRequest) :
    (w.withOutput o).serve storage request =
      ((w.serve storage request).1, (w.serve storage request).2.withOutput o) := by
  obtain ⟨builtins, wrappers, inMemory, memory, host, overlays, input, output, errors, trace, mocks⟩ := w
  cases storage with
  | host => rfl
  | shell =>
    cases inMemory with
    | false => rfl
    | true =>
      simp only [serve, withOutput, if_true]
      cases serveMemory memory request <;> rfl

theorem unseen_withOutput (o : Bytes) : Unseen fun w => w.withOutput o where
  serve w storage request := w.serve_withOutput o storage request
  isHeld w storage := by cases storage <;> rfl

end World

/-- The light on the worlds of a script that a stage runs. -/
def World.view : View World where
  look o w := w.withOutput o
  sent _ := []
  taps := False
  Fits _ := True

namespace Output

/-- What the host has received, of a pipeline that has given `captured`, if it had received `o` before. -/
def received : Output → (o captured : Bytes) → Bytes
  | .host, o, captured => o ++ captured
  | .capture, o, _ | .consumer, o, _ => o

/-- What has been captured, of a pipeline that has given `captured`. -/
def kept : Output → (captured : Bytes) → Bytes
  | .capture, captured => captured
  | .host, _ | .consumer, _ => []

/-- What has been offered, of a pipeline that has given `captured`. -/
def offered : Output → (captured : Bytes) → Bytes
  | .consumer, captured => captured
  | .host, _ | .capture, _ => []

end Output

/-- A pipeline that captures, in the light of one with the output `output`. -/
def Line.look (output : Output) (o : Bytes) (l : Line) : Line :=
  { l with
    world := l.world.withOutput (output.received o l.captured)
    captured := output.kept l.captured }

/-- The light on the lines of such pipelines; `taps` tells whether a consumer is offered anything. -/
def Line.view (output : Output) (taps : Prop) : View Line where
  look := Line.look output
  sent l := output.offered l.captured
  taps := taps
  Fits l := output = .consumer → l.stopped = false

@[simp] theorem Line.pipe_look (output : Output) (o : Bytes) (l : Line) (i : Nat) :
    (l.look output o).pipe i = l.pipe i := rfl

theorem Line.serve_look (output : Output) (o : Bytes) (l : Line) (storage : Storage) (request : FileRequest) :
    (l.look output o).world.serve storage request =
      ((l.world.serve storage request).1,
        (l.world.serve storage request).2.withOutput (output.received o l.captured)) :=
  l.world.serve_withOutput _ _ _

/-- Scripts that stages run do not see what the host has received. -/
def Nested.Blind (nested : Nested) : Prop :=
  ∀ context file line text w o,
    (nested context file line text w).Mirrors World.view (fun _ _ => True) o []
      (nested context file line text (w.withOutput o))

theorem Reply.map_mirrors {α β : Type} (f : α → β) {V : View Line} {hears : Wait → Signal → Prop} {o sent : Bytes}
    {r r' : Reply α} (h : Run.Mirrors V hears o sent r r') : Run.Mirrors V hears o sent (r.map f) (r'.map f) :=
  h.bind fun _ _ _ hFits => .of_done rfl hFits rfl

namespace Stage

def toward (output : Output) (st : Stage) : Stage := { st with output := output }

/-- A stage that offers to a consumer, if it is the last one, and is not stopped then. -/
structure Suits (output : Output) (taps : Prop) (hears : Wait → Signal → Prop) (st : Stage) : Prop where
  capture : st.output = .capture
  taps : st.isLast = true → output = .consumer → taps
  hears : st.isLast = true → output = .consumer → ∀ why signal, hears why signal → signal = .ready

variable {output : Output} {taps : Prop} {hears : Wait → Signal → Prop} {st : Stage}
  (hSuits : st.Suits output taps hears) {o : Bytes} {line : Line} (hFits : output = .consumer → line.stopped = false)

include hSuits hFits

theorem deliver_mirrors (sink : Sink) (data : Bytes) (desk : Desk) :
    (st.deliver sink data desk line).Mirrors (Line.view output taps) hears o (output.offered line.captured)
      ((st.toward output).deliver sink data desk (line.look output o)) := by
  cases sink with
  | null => exact .of_done rfl hFits rfl
  | errors => exact .of_done rfl hFits rfl
  | file i =>
    unfold deliver
    dsimp only
    split
    · exact .of_done rfl hFits rfl
    · rw [Line.serve_look]
      exact .of_done rfl hFits rfl
  | output =>
    obtain ⟨index, isLast, isProcess, shown, source, path, out, err, readings, stOutput, overlay, context⟩ := st
    obtain ⟨rfl, hTaps, -⟩ := hSuits
    unfold deliver
    cases isLast with
    | false =>
      dsimp only [toward, Line.look]
      by_cases hBroken : (decide (data ≠ []) && line.broken.contains index) = true
      · simp only [Bool.not_false, if_true, hBroken]
        exact .of_done rfl hFits rfl
      · simp only [Bool.not_false, if_true, hBroken]
        exact .of_done rfl hFits rfl
    | true =>
      cases output with
      | host =>
        refine .of_done rfl hFits ?_
        simp [Line.view, Line.look, World.withOutput, Output.received, Output.kept]
      | capture => exact .of_done rfl hFits rfl
      | consumer =>
        dsimp only [toward]
        by_cases hEmpty : (decide (data = []) && isProcess) = true
        · have hNil : data = [] := by simpa using (Bool.and_eq_true_iff.mp hEmpty).1
          simp only [Bool.not_true, Bool.false_eq_true, hEmpty, if_true, if_false]
          exact .of_done (by simp [Line.view, Output.offered, hNil]) hFits rfl
        · have hStopped : (line.look .consumer o).stopped = false := hFits rfl
          simp only [Bool.not_true, Bool.false_eq_true, hEmpty, hStopped, if_false]
          exact .offer (hTaps rfl rfl) (.of_done rfl hFits rfl)

theorem flood_mirrors (data : Bytes) (desk : Desk) :
    (st.flood data desk line).Mirrors (Line.view output taps) hears o (output.offered line.captured)
      ((st.toward output).flood data desk (line.look output o)) := by
  obtain ⟨index, isLast, isProcess, shown, source, path, out, err, readings, stOutput, overlay, context⟩ := st
  obtain ⟨rfl, hTaps, hHears⟩ := hSuits
  unfold flood
  dsimp only [toward]
  by_cases hOut : out ≠ .output
  · simp only [hOut, ne_eq, not_false_eq_true, if_true]
    exact .of_wait rfl hFits rfl rfl fun signal _ line o hFits => .of_done rfl hFits rfl
  · simp only [hOut, if_false]
    cases isLast with
    | false => exact .of_wait rfl hFits rfl rfl fun signal _ line o hFits => .of_done rfl hFits rfl
    | true =>
      cases output with
      | host => exact .of_wait rfl hFits rfl rfl fun signal _ line o hFits => .of_done rfl hFits rfl
      | capture => exact .of_wait rfl hFits rfl rfl fun signal _ line o hFits => .of_done rfl hFits rfl
      | consumer =>
        have hStopped : (line.look .consumer o).stopped = false := hFits rfl
        simp only [Bool.not_true, hStopped, Bool.false_eq_true, if_false]
        refine .wait rfl hFits rfl (.inr ⟨hTaps rfl rfl, rfl, data, rfl⟩) fun signal hSignal line o hFits => ?_
        cases hHears rfl rfl _ signal hSignal
        exact .of_done rfl hFits rfl

omit hSuits in
theorem read_mirrors (amount : Amount) (desk : Desk) :
    (st.read amount desk line).Mirrors (Line.view output taps) hears o (output.offered line.captured)
      ((st.toward output).read amount desk (line.look output o)) := by
  unfold read
  dsimp only [toward]
  cases st.source with
  | host => exact .of_done rfl hFits rfl
  | feed => exact .of_done rfl hFits rfl
  | pipe =>
    simp only [Line.pipe_look]
    cases (line.pipe (st.index - 1)).take? amount with
    | some answer => exact .of_done rfl hFits rfl
    | none => exact .of_wait rfl hFits rfl rfl fun signal _ line o hFits => .of_done rfl hFits rfl

theorem pour_mirrors (data : Bytes) (desk : Desk) :
    (st.pour data desk line).Mirrors (Line.view output taps) hears o (output.offered line.captured)
      ((st.toward output).pour data desk (line.look output o)) := by
  unfold pour
  by_cases hEmpty : data = []
  · rw [if_pos hEmpty, if_pos hEmpty]
    exact .of_done rfl hFits rfl
  · rw [if_neg hEmpty, if_neg hEmpty]
    exact deliver_mirrors hSuits hFits st.out data desk

omit hSuits in
theorem scan_mirrors (desk : Desk) :
    (st.scan desk line).Mirrors (Line.view output taps) hears o (output.offered line.captured)
      ((st.toward output).scan desk (line.look output o)) := by
  unfold scan
  by_cases hHost : st.source = .host
  · have hHost' : (st.toward output).source = .host := hHost
    rw [if_pos hHost, if_pos hHost']
    exact .of_done rfl hFits rfl
  · have hHost' : ¬(st.toward output).source = .host := hHost
    rw [if_neg hHost, if_neg hHost']
    exact read_mirrors hFits .all desk

theorem relay_mirrors (filter : Filter) (desk : Desk) :
    (st.relay filter desk line).Mirrors (Line.view output taps) hears o (output.offered line.captured)
      ((st.toward output).relay filter desk (line.look output o)) := by
  have hFeed : (st.toward output).inputFeed desk (line.look output o) = st.inputFeed desk line := rfl
  unfold relay
  rw [hFeed]
  dsimp only
  by_cases hCycle : (st.inputFeed desk line).cycle ≠ []
  · rw [if_pos hCycle, if_pos hCycle]
    refine (pour_mirrors hSuits hFits _ desk).bind fun (desk, delivery) line o hFits => ?_
    dsimp only
    split
    · exact Reply.map_mirrors _ (flood_mirrors hSuits hFits _ desk)
    · exact .of_done rfl hFits rfl
  · rw [if_neg hCycle, if_neg hCycle]
    refine (scan_mirrors hFits desk).bind fun (desk, answer) line o hFits => ?_
    cases answer with
    | none => exact .of_done rfl hFits rfl
    | some answer =>
      refine (pour_mirrors hSuits hFits _ desk).bind fun (desk, delivery) line o hFits => ?_
      by_cases hHost : st.source = .host
      · have hHost' : (st.toward output).source = .host := hHost
        simp only [if_pos hHost, if_pos hHost']
        exact .of_done rfl hFits rfl
      · have hHost' : ¬(st.toward output).source = .host := hHost
        simp only [if_neg hHost, if_neg hHost']
        exact .of_done rfl hFits rfl

omit hSuits hFits in
theorem embed_mirrors {r r' : Run World (Except Fault String)} {received sent : Bytes}
    (h : r.Mirrors World.view (fun _ _ => True) received sent r') {line : Line} {o : Bytes}
    (hReceived : received = output.received o line.captured) (hFits : output = .consumer → line.stopped = false) :
    Run.Mirrors (Line.view output taps) hears o (output.offered line.captured)
      (r.embed Line.world (fun world line => { line with world := world }) line)
      (r'.embed Line.world (fun world line => { line with world := world }) (line.look output o)) := by
  induction h generalizing line o with
  | done _ _ =>
    subst hReceived
    exact .of_done rfl hFits rfl
  | wait _ _ hOffer hWhy hResume ih =>
    subst hReceived
    rcases hWhy with rfl | ⟨hTaps, -⟩
    · refine .of_wait rfl hFits rfl hOffer fun signal _ line o hFits => ?_
      exact ih signal trivial line.world _ trivial rfl hFits
    · exact hTaps.elim
  | offer hTaps _ _ => exact hTaps.elim

theorem perform_mirrors {nested : Nested} (hNested : nested.Blind) (desk : Desk) (action : Action) :
    (st.perform nested desk line action).Mirrors (Line.view output taps) hears o (output.offered line.captured)
      ((st.toward output).perform nested desk (line.look output o) action) := by
  cases action with
  | write channel data =>
    cases channel with
    | out => exact Reply.map_mirrors _ (deliver_mirrors hSuits hFits st.out data desk)
    | err => exact Reply.map_mirrors _ (deliver_mirrors hSuits hFits st.err data desk)
  | flood data => exact flood_mirrors hSuits hFits data desk
  | read amount => exact read_mirrors hFits amount desk
  | relay filter => exact relay_mirrors hSuits hFits filter desk
  | lookup key => exact .of_done rfl hFits rfl
  | assign key value => exact .of_done rfl hFits rfl
  | workDirectory => exact .of_done rfl hFits rfl
  | files storage request =>
    dsimp only [perform]
    rw [Line.serve_look]
    exact .of_done rfl hFits rfl
  | inquire side => exact .of_done rfl hFits rfl
  | pause =>
    dsimp only [perform]
    by_cases hCanceled : line.canceled = true
    · have hCanceled' : (line.look output o).canceled = true := hCanceled
      rw [if_pos hCanceled, if_pos hCanceled']
      exact .of_done rfl hFits rfl
    · have hCanceled' : ¬(line.look output o).canceled = true := hCanceled
      rw [if_neg hCanceled, if_neg hCanceled']
      exact .of_wait rfl hFits rfl rfl fun signal _ line o hFits => .of_done rfl hFits rfl
  | invoke file number script =>
    have hScript := hNested { st.context with canceled := line.canceled } file number script line.world
      (output.received o line.captured)
    exact (embed_mirrors hScript rfl hFits).bind fun _ _ _ hFits => .of_done rfl hFits rfl
  | consult name ask => exact .of_done rfl hFits rfl

omit hSuits hFits in
theorem close_look (fault : Option Fault) (desk : Desk) :
    (st.toward output).close fault desk (line.look output o) = (st.close fault desk line).look output o := by
  unfold close
  dsimp only [toward, Line.look]
  rw [(World.unseen_withOutput _).closeAll, World.releaseAll_eq, World.releaseAll_eq]
  rfl

theorem run_mirrors {nested : Nested} (hNested : nested.Blind) (program : Program (Except Fault Unit)) (desk : Desk) :
    (st.run nested program desk line).Mirrors (Line.view output taps) hears o (output.offered line.captured)
      ((st.toward output).run nested program desk (line.look output o)) := by
  induction program generalizing desk line o with
  | done result => exact .of_done rfl hFits (close_look _ desk)
  | act action next ih =>
    unfold run
    refine (perform_mirrors hSuits hFits hNested desk action).bind fun (desk, answer) line o hFits => ?_
    cases answer with
    | some answer => exact ih answer hFits desk
    | none => exact .of_done rfl hFits (close_look _ desk)

end Stage

/-- A stage that is ready to run, with its output to `output`. -/
def Launch.toward (output : Output) (l : Launch) : Launch := { l with stage := l.stage.toward output }

namespace Invoker

variable (v : Invoker) (output : Output)

theorem launch_look (index : Nat) (isLast : Bool) (c : Command) (line : Line) (o : Bytes) :
    v.launch output index isLast c (line.look output o) =
      ((v.launch .capture index isLast c line).1.map (Launch.toward output),
        (v.launch .capture index isLast c line).2.look output o) := by
  have hWorld : (line.look output o).world = line.world.withOutput (output.received o line.captured) := rfl
  have hDirectory :
      v.directory (line.world.withOutput (output.received o line.captured)) = v.directory line.world := rfl
  have hBuiltin (name : String) :
      (line.world.withOutput (output.received o line.captured)).builtin? name = line.world.builtin? name := rfl
  unfold launch
  rw [hWorld, hDirectory]
  simp only [hBuiltin, (World.unseen_withOutput _).redirectAll]
  cases (Wiring.initial (if index = 0 then Source.host else .pipe)).redirectAll
      (if (line.world.builtin? (c.args.headD "")).isSome then Storage.shell else .host) (v.directory line.world)
      c.redirections line.world with
  | mk reply world =>
    cases reply with
    | error fault => rfl
    | ok w =>
      cases line.world.builtin? (c.args.headD "") with
      | some b => rfl
      | none =>
        obtain ⟨source, feed, path, out, err, handles, readings⟩ := w
        have hStart : Host.start v.programs (world.withOutput (output.received o line.captured)).host
            (line.look output o).canceled (v.directory line.world) c.args
            (v.processEnv (world.withOutput (output.received o line.captured)) c) =
          Host.start v.programs world.host line.canceled (v.directory line.world) c.args (v.processEnv world c) := rfl
        dsimp only
        rw [hStart]
        cases Host.start v.programs world.host line.canceled (v.directory line.world) c.args (v.processEnv world c) with
        | error fault =>
          dsimp only
          rw [(World.unseen_withOutput _).abandon]
          rfl
        | ok task => cases source <;> rfl

end Invoker

end Pipework
